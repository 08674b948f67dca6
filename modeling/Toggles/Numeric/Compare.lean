import Toggles.Numeric.Binary64

/-! Comparing binary64 numbers with integers and with one another, exactly. -/

set_option autoImplicit false

namespace Toggles.Numeric

/-- The number `coefficient * 2 ^ exponent`. -/
structure BinaryFraction where
  coefficient : Int
  exponent : Int
  deriving DecidableEq, Repr

namespace BinaryFraction

def ofInt (value : Int) : BinaryFraction := ⟨value, 0⟩

def ofBinary64 (value : Binary64) : BinaryFraction := ⟨value.signedMantissa, value.exponent⟩

/-- The coefficient in front of a power of two that is at most the number's own. -/
def scaledTo (number : BinaryFraction) (exponent : Int) : Int :=
  number.coefficient * Nat.pow 2 (number.exponent - exponent).toNat

def less (left right : BinaryFraction) : Bool :=
  let exponent := min left.exponent right.exponent
  decide (left.scaledTo exponent < right.scaledTo exponent)

def isWhole (number : BinaryFraction) : Bool :=
  0 ≤ number.exponent || number.coefficient % Nat.pow 2 (-number.exponent).toNat == 0

end BinaryFraction

def nearestTo? (value : Int) : Option Binary64 :=
  Binary64.ofRatio? (value < 0) value.natAbs 1

end Toggles.Numeric
