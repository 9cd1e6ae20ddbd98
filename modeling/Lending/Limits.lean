import Lending.Duration

/-!
# Limits of a pool

How many resources may live at once, and how long a caller waits for one at that limit
(`PoolConfiguration`: `max_pool_size` and `wait_timeout`). A pool starts from these limits; both can
be changed while it runs, by `resize` and `set_wait_timeout`. A size of `0` is no limit, and without
a limit on waiting a caller waits until something comes back.
-/

namespace Lending

/-- The limits a pool starts from. -/
structure Limits where
  /-- Most resources alive at once, lent and idle together; `0` for no limit. -/
  size : Nat := 0
  /-- How long a caller waits at the limit; `none` waits until something comes back. -/
  wait : Option Duration := none
  deriving DecidableEq, Inhabited

namespace Limits

/-- No limit on size or waiting. -/
def unbounded : Limits := {}

/-- The same limits with another size. -/
def withSize (l : Limits) (n : Nat) : Limits := { l with size := n }

/-- The same limits with a limit on waiting. -/
def withWait (l : Limits) (d : Duration) : Limits := { l with wait := some d }

/-- Whether the size is limited. -/
def isBounded (l : Limits) : Bool := decide (0 < l.size)

/-- The text of an optional span. -/
def optionalText : Option Duration → String
  | none => "None"
  | some d => "Some(" ++ d.text ++ ")"

/-- All limits by name, as diagnostics show them. -/
def debug (l : Limits) : String :=
  "PoolConfiguration \x7b max_pool_size: " ++ toString l.size
    ++ ", wait_timeout: " ++ optionalText l.wait ++ " \x7d"

end Limits

end Lending
