/-! Finite binary64 numbers in exact arithmetic.

A number is a sign, a mantissa and a power of two. Each value has one canonical
mantissa and exponent, so equality of representations is equality of numbers,
except that positive and negative zero stay apart.
-/

set_option autoImplicit false

namespace Toggles.Numeric

/-- A mantissa below `2 ^ 53` that is either full or at the least exponent. -/
def CanonicalBinary64 (mantissa : Nat) (exponent : Int) : Prop :=
  mantissa < Nat.pow 2 53 ∧ -1074 ≤ exponent ∧ exponent ≤ 971 ∧
    (Nat.pow 2 52 ≤ mantissa ∨ exponent = -1074)

instance (mantissa : Nat) (exponent : Int) : Decidable (CanonicalBinary64 mantissa exponent) := by
  unfold CanonicalBinary64
  infer_instance

/-- The number `mantissa * 2 ^ exponent`, negated when `negative` is set. -/
structure Binary64 where
  negative : Bool
  mantissa : Nat
  exponent : Int
  canonical : CanonicalBinary64 mantissa exponent
  deriving DecidableEq, Repr

/-- Round the quotient of two naturals to the nearest natural; a half goes to the even one. -/
def roundHalfEven (numerator denominator : Nat) : Nat :=
  let quotient := numerator / denominator
  let doubled := 2 * (numerator % denominator)
  if doubled < denominator then quotient
  else if denominator < doubled then quotient + 1
  else if quotient % 2 = 0 then quotient
  else quotient + 1

/-- Numerator and denominator of `numerator / denominator * base ^ exponent`. -/
def scaleRatio (base : Nat) (exponent : Int) (numerator denominator : Nat) : Nat × Nat :=
  if exponent < 0 then (numerator, denominator * Nat.pow base (-exponent).toNat)
  else (numerator * Nat.pow base exponent.toNat, denominator)

/-- Decide `base ^ exponent ≤ numerator / denominator` without division. -/
def powerAtMost (base : Nat) (exponent : Int) (numerator denominator : Nat) : Bool :=
  let (low, high) := scaleRatio base exponent 1 1
  decide (low * denominator ≤ numerator * high)

/-- The greatest `exponent` with `2 ^ exponent` at most a positive ratio. -/
def binaryExponent (numerator denominator : Nat) : Int :=
  let estimate : Int := (Nat.log2 numerator : Int) - (Nat.log2 denominator : Int)
  if powerAtMost 2 estimate numerator denominator then estimate else estimate - 1

namespace Binary64

def zero (negative : Bool) : Binary64 :=
  ⟨negative, 0, -1074, by decide⟩

def ofParts? (negative : Bool) (mantissa : Nat) (exponent : Int) : Option Binary64 :=
  if canonical : CanonicalBinary64 mantissa exponent then
    some ⟨negative, mantissa, exponent, canonical⟩
  else none

/-- The number nearest to a ratio, with ties to the even mantissa. There is none
when the ratio rounds past the greatest finite number. -/
def ofRatio? (negative : Bool) (numerator denominator : Nat) : Option Binary64 :=
  if numerator = 0 then some (zero negative)
  else
    let exponent := max (-1074) (binaryExponent numerator denominator - 52)
    let (scaled, unit) := scaleRatio 2 (-exponent) numerator denominator
    let mantissa := roundHalfEven scaled unit
    if mantissa = Nat.pow 2 53 then ofParts? negative (Nat.pow 2 52) (exponent + 1)
    else ofParts? negative mantissa exponent

def ratio (number : Binary64) : Nat × Nat :=
  scaleRatio 2 number.exponent number.mantissa 1

def isZero (number : Binary64) : Bool :=
  number.mantissa == 0

/-- Numeric equality: the two zeros are equal. -/
def same (left right : Binary64) : Bool :=
  (left.isZero && right.isZero) || decide (left = right)

/-- The signed mantissa: the number is `signedMantissa * 2 ^ exponent`. -/
def signedMantissa (number : Binary64) : Int :=
  if number.negative then -(number.mantissa : Int) else number.mantissa

end Binary64

end Toggles.Numeric
