import Lending.Binary64

/-!
# Decimal text with a fixed number of places

`Binary64.fixed` writes the exact value of a word, rounded once to the given number of places with
ties to the even digit, always in positional form. The sign of a word is kept, also where every
digit that is left is zero (`-0.00`).
-/

namespace Lending

namespace Binary64

/-- `n / 10 ^ places` in positional form. -/
def positional (n places : Nat) : String :=
  let digits := Nat.toDigits 10 n
  let digits := List.replicate (places + 1 - digits.length) '0' ++ digits
  let whole := digits.take (digits.length - places)
  let rest := digits.drop (digits.length - places)
  String.ofList (if places = 0 then whole else whole ++ '.' :: rest)

/-- The word's value rounded to `places` decimal places. -/
def fixed (x : Binary64) (places : Nat) : String :=
  if x.isNaN then "NaN"
  else
    let lead := if x.isNegative then "-" else ""
    if x.isInfinite then lead ++ "inf"
    else lead ++ positional (roundHalfEven (x.numerator * Nat.pow 10 places) x.denominator) places

end Binary64

end Lending
