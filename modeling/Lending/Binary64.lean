/-!
# Binary floating-point words of 64 bits

A word has a sign bit, an exponent field of 11 bits and a fraction of 52 bits. Everything here is
exact arithmetic on natural numbers: a finite word has the magnitude `numerator / denominator` (the
denominator a power of two), and `ofRatio` rounds a quotient of natural numbers to the nearest word,
a tie going to the even significand.

The one figure of a pool that is not a count is the share of its capacity in use, a quotient of two
counts; it is compared with nine tenths and written with a fixed number of places. `ofRatio` is
meant for such quotients, between `2 ^ -1000` and `2 ^ 1000`, where words are normal: quotients of
64-bit counts, and a hundred times those.
-/

namespace Lending

/-- The natural number nearest to `num / den`, a tie going to the even one. -/
def roundHalfEven (num den : Nat) : Nat :=
  let q := num / den
  let r := num % den
  if den < 2 * r ∨ (2 * r = den ∧ q % 2 = 1) then q + 1 else q

/-- A binary floating-point word. -/
structure Binary64 where
  bits : UInt64
  deriving DecidableEq, Inhabited

namespace Binary64

/-- The word as a number. -/
def word (x : Binary64) : Nat := x.bits.toNat

/-- The sign bit. -/
def isNegative (x : Binary64) : Bool := decide (Nat.pow 2 63 ≤ x.word)

/-- The exponent field. -/
def field (x : Binary64) : Nat := x.word / Nat.pow 2 52 % Nat.pow 2 11

/-- The fraction field. -/
def fraction (x : Binary64) : Nat := x.word % Nat.pow 2 52

/-- Whether the word is not a number. -/
def isNaN (x : Binary64) : Bool := x.field == 2047 && x.fraction != 0

/-- Whether the word is an infinity. -/
def isInfinite (x : Binary64) : Bool := x.field == 2047 && x.fraction == 0

/-- The significand of a finite word, with its leading bit. -/
def significand (x : Binary64) : Nat :=
  if x.field = 0 then x.fraction else Nat.pow 2 52 + x.fraction

/-- The magnitude of a finite word is `numerator / denominator`. -/
def numerator (x : Binary64) : Nat := x.significand * Nat.pow 2 (max x.field 1 - 1075)

/-- See `numerator`. -/
def denominator (x : Binary64) : Nat := Nat.pow 2 (1075 - max x.field 1)

/-- The exponent of the largest power of two that is at most `num / den`, for positive arguments. -/
def binade (num den : Nat) : Int :=
  let e : Int := (num.log2 : Int) - den.log2
  if den * Nat.pow 2 e.toNat ≤ num * Nat.pow 2 (-e).toNat then e else e - 1

/-- The word nearest to `num / den`, a tie going to the even significand. -/
def ofRatio (num den : Nat) : Binary64 :=
  if num = 0 ∨ den = 0 then ⟨0⟩
  else
    let unit : Int := binade num den - 52
    let m := roundHalfEven (num * Nat.pow 2 (-unit).toNat) (den * Nat.pow 2 unit.toNat)
    -- a significand rounded up to `2 ^ 53` carries into the exponent field
    ⟨UInt64.ofNat ((unit + 1074).toNat * Nat.pow 2 52 + m)⟩

/-- The word nearest to `n`. -/
def ofNat (n : Nat) : Binary64 := ofRatio n 1

/-- The rounded quotient of two words that are finite and not negative. -/
def div (x y : Binary64) : Binary64 :=
  ofRatio (x.numerator * y.denominator) (x.denominator * y.numerator)

/-- The rounded product of a word that is finite and not negative with a natural number. -/
def scale (x : Binary64) (n : Nat) : Binary64 := ofRatio (x.numerator * n) x.denominator

/-- Whether one word is below another, both finite and not negative. -/
def below (x y : Binary64) : Bool :=
  decide (x.numerator * y.denominator < y.numerator * x.denominator)

end Binary64

end Lending
