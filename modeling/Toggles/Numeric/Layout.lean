import Toggles.Numeric.Shortest

/-! How the shortest digits of a number are laid out as text. -/

set_option autoImplicit false

namespace Toggles.Numeric

/-- A convention for writing binary64 numbers: which powers of ten of the first
digit are written without an exponent, what follows a whole number, and whether
zero keeps its sign. -/
structure Layout where
  least : Int
  greatest : Int
  wholeTail : List Char
  signedZero : Bool
  deriving Repr

/-- Numbers from `1e-5` up to below `1e+16` are positional, whole ones end in `.0`. -/
def Layout.plain : Layout := ⟨-5, 15, ['.', '0'], true⟩

/-- Numbers from `1e-6` up to below `1e+21` are positional, whole ones have no
point, and zero has no sign: ECMAScript's number text. -/
def Layout.ecmaScript : Layout := ⟨-6, 20, [], false⟩

def pointAfter (count : Nat) (digits : List Char) : List Char :=
  digits.take count ++ '.' :: digits.drop count

namespace Digits

def positional (wholeTail : List Char) (number : Digits) : List Char :=
  if number.exponent < 0 then
    '0' :: '.' :: List.replicate (-number.exponent - 1).toNat '0' ++ number.digits
  else
    let whole := number.exponent.toNat + 1
    if number.digits.length ≤ whole then
      number.digits ++ List.replicate (whole - number.digits.length) '0' ++ wholeTail
    else pointAfter whole number.digits

def scientific (number : Digits) : List Char :=
  let mantissa := if number.digits.length ≤ 1 then number.digits else pointAfter 1 number.digits
  let sign := if number.exponent < 0 then '-' else '+'
  mantissa ++ 'e' :: sign :: Nat.toDigits 10 number.exponent.natAbs

end Digits

def Binary64.text (layout : Layout) (number : Binary64) : List Char :=
  if number.isZero then
    (if number.negative && layout.signedZero then ['-'] else []) ++ '0' :: layout.wholeTail
  else
    let digits := number.shortest.toDigits
    let unsigned :=
      if layout.least ≤ digits.exponent ∧ digits.exponent ≤ layout.greatest then
        digits.positional layout.wholeTail
      else digits.scientific
    if number.negative then '-' :: unsigned else unsigned

def integerText (value : Int) : List Char :=
  if value < 0 then '-' :: Nat.toDigits 10 value.natAbs else Nat.toDigits 10 value.natAbs

end Toggles.Numeric
