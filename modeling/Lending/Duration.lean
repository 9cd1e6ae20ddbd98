/-!
# Spans of time

A span is a whole number of nanoseconds. Its text uses the largest unit that it fills (seconds,
milliseconds, microseconds, nanoseconds) and writes the rest as a decimal fraction of that unit
with no trailing zero: `1.5s`, `12.345µs`, `0ns`. Nothing is rounded, so the text determines the
span.

An `Instant` is a reading of a time source. `Instant.after?` gives the end of a wait: a wait whose
end no time source can represent has none, and lasts until someone ends it.
-/

namespace Lending

/-- A span of time. -/
structure Duration where
  nanos : Nat
  deriving DecidableEq, Inhabited

namespace Duration

/-- Nanoseconds in a second. -/
def second : Nat := 1000000000

/-- The span of `secs` seconds and `nanos` nanoseconds. -/
def of (secs nanos : Nat) : Duration := ⟨secs * second + nanos⟩

/-- Whole seconds of the span. -/
def secs (d : Duration) : Nat := d.nanos / second

/-- Nanoseconds of the span beyond its whole seconds. -/
def subsecNanos (d : Duration) : Nat := d.nanos % second

/-- `digits` with zeros put in front until there are `width` of them. -/
def padded (width : Nat) (digits : List Char) : List Char :=
  List.replicate (width - digits.length) '0' ++ digits

/-- `digits` without the zeros at its end. -/
def trimmed (digits : List Char) : List Char :=
  (digits.reverse.dropWhile (· == '0')).reverse

/-- The decimal fraction `n / 10 ^ places` for `n < 10 ^ places`, nothing when it is zero. -/
def fraction (places n : Nat) : List Char :=
  if n = 0 then [] else '.' :: trimmed (padded places (Nat.toDigits 10 n))

/-- `n` units of which `10 ^ places` make one unit of the given name. -/
def scaled (n places : Nat) (unit : String) : String :=
  let one := Nat.pow 10 places
  String.ofList (Nat.toDigits 10 (n / one) ++ fraction places (n % one)) ++ unit

/-- The text of a span, in the largest unit that it fills. -/
def text (d : Duration) : String :=
  if d.nanos ≥ second then scaled d.nanos 9 "s"
  else if d.nanos ≥ 1000000 then scaled d.nanos 6 "ms"
  else if d.nanos ≥ 1000 then scaled d.nanos 3 "µs"
  else scaled d.nanos 0 "ns"

end Duration

/-- A reading of a time source, in nanoseconds since its origin. -/
abbrev Instant := Nat

namespace Instant

/-- The first instant that a time source cannot represent: its seconds are a signed 64-bit word. -/
def horizon : Instant := Nat.pow 2 63 * Duration.second

/-- The instant `d` after `t`, if it can be represented. -/
def after? (t : Instant) (d : Duration) : Option Instant :=
  if t + d.nanos < horizon then some (t + d.nanos) else none

end Instant

end Lending
