/-! Sets of characters given by their boundaries.

A set is the ascending list of the code points at which membership changes, so
the first boundary begins the first range and the second one ends it.
-/

set_option autoImplicit false

namespace Toggles.Text

/-- The code points at which membership changes, in ascending order. -/
structure CharSet where
  boundaries : List Nat
  deriving Repr

namespace CharSet

def follow (inside : Bool) : List Nat → Nat → Bool
  | [], _ => inside
  | boundary :: rest, code => if code < boundary then inside else follow (!inside) rest code

def contains (set : CharSet) (c : Char) : Bool :=
  follow false set.boundaries c.toNat

end CharSet

end Toggles.Text
