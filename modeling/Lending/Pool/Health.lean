import Lending.Decimal

/-!
# Health of a pool

A snapshot of a pool with what is worth a warning (`HealthStatus`): more than nine tenths of the
capacity lent out, and callers that wait. A pool is healthy when there is nothing to warn about, so
`is_healthy` and `warning_count` are read off the warnings.

The share of the capacity is the quotient of two counts, rounded to a binary word of 64 bits
(`Binary64`); it is zero for a pool without a limit, and above one for a pool that was shrunk below
what it has lent. The threshold is the word next to nine tenths, as the comparison is one of words.
-/

namespace Lending.Pool

/-- The share of the capacity that is lent out; zero for a pool without a limit. -/
def utilization (active capacity : Nat) : Binary64 :=
  if 0 < capacity then (Binary64.ofNat active).div (.ofNat capacity) else ⟨0⟩

/-- A share above which a pool is nearly used up: nine tenths, rounded to a word. -/
def highUtilization : Binary64 := .ofRatio 9 10

/-- A pool at one moment, with warnings. -/
structure Health where
  utilization : Binary64
  idle        : Nat
  active      : Nat
  waiting     : Nat
  capacity    : Nat
  warnings    : List String

namespace Health

/-- The warning about a share, in per cent with one decimal place. -/
def utilizationWarning (share : Binary64) : String :=
  "High utilization: " ++ (share.scale 100).fixed 1 ++ "%"

/-- The warning about callers that wait. -/
def waitingWarning (waiting : Nat) : String :=
  toString waiting ++ " caller(s) waiting for a resource"

/-- The snapshot of a pool with these counts. -/
def of (idle active capacity waiting : Nat) : Health :=
  let share := Pool.utilization active capacity
  { utilization := share, idle, active, waiting, capacity
    warnings :=
      (if highUtilization.below share then [utilizationWarning share] else [])
        ++ (if 0 < waiting then [waitingWarning waiting] else []) }

/-- Nothing to warn about. -/
def isHealthy (h : Health) : Bool := h.warnings.isEmpty

end Health

end Lending.Pool
