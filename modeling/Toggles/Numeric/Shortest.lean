import Toggles.Numeric.Decimal

/-! The fewest decimal digits that read back as a given binary64 number.

For each count of digits the two neighbours of the number on that decimal grid
are tried, the nearer one first. If a point of a grid reads back then so does one
of these neighbours, so the first grid with a hit has the fewest digits.
-/

set_option autoImplicit false

namespace Toggles.Numeric

/-- Decimal digits with the power of ten of the first one. -/
structure Digits where
  digits : List Char
  exponent : Int
  deriving DecidableEq, Repr

/-- The greatest `exponent` with `10 ^ exponent` at most a positive ratio. -/
def decimalExponent (numerator denominator : Nat) : Int :=
  let estimate := (binaryExponent numerator denominator * 30103).fdiv 100000
  match [estimate + 1, estimate, estimate - 1].find?
      fun exponent => powerAtMost 10 exponent numerator denominator with
  | some exponent => exponent
  | none => estimate - 2

namespace Binary64

/-- The neighbours on the grid `10 ^ exponent`, the nearer one first. -/
def neighbours (number : Binary64) (exponent : Int) : List Decimal :=
  let (numerator, denominator) := number.ratio
  let (scaled, unit) := scaleRatio 10 (-exponent) numerator denominator
  let below : Decimal := ⟨number.negative, scaled / unit, exponent⟩
  let above : Decimal := ⟨number.negative, scaled / unit + 1, exponent⟩
  if roundHalfEven scaled unit = scaled / unit then [below, above] else [above, below]

/-- Every digit of the number: its least digit stands at the power of ten that
the power of two divides. -/
def exactDecimal (number : Binary64) : Decimal :=
  if number.exponent < 0 then
    ⟨number.negative, number.mantissa * Nat.pow 5 (-number.exponent).toNat, number.exponent⟩
  else ⟨number.negative, number.mantissa * Nat.pow 2 number.exponent.toNat, 0⟩

def readsBack (number : Binary64) (decimal : Decimal) : Bool :=
  decide (decimal.toBinary64? = some number)

/-- The shortest decimal that reads back as the number. Seventeen digits always
suffice; the exact digits stand behind them so that the result reads back by
construction. -/
def shortest (number : Binary64) : Decimal :=
  let (numerator, denominator) := number.ratio
  let first := decimalExponent numerator denominator
  let candidates := (List.range 17).findSome? fun (count : Nat) =>
    (number.neighbours (first - count)).find? number.readsBack
  candidates.getD number.exactDecimal

end Binary64

def trimZeros (digits : List Char) : List Char :=
  (digits.reverse.dropWhile (· == '0')).reverse

def Decimal.toDigits (decimal : Decimal) : Digits :=
  let digits := Nat.toDigits 10 decimal.coefficient
  ⟨trimZeros digits, decimal.exponent + (digits.length - 1 : Nat)⟩

end Toggles.Numeric
