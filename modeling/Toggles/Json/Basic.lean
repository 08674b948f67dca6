import Toggles.Ordered
import Toggles.Numeric.Layout

/-! JSON values with ordered members.

Integers and binary64 numbers are different values even when they are equal as
numbers. Equivalence is the equality of documents: the order of members does not
matter, and the two zeros of binary64 are one number.
-/

set_option autoImplicit false

namespace Toggles

open Numeric (Binary64)

inductive Json where
  | null
  | bool (value : Bool)
  | int (value : Int)
  | float (value : Binary64)
  | str (value : String)
  | arr (items : List Json)
  | obj (members : List (String × Json))
  deriving Repr, Inhabited

namespace Json

abbrev Members := Ordered Json

mutual

def equivalent : Json → Json → Bool
  | .null, .null => true
  | .bool left, .bool right => left == right
  | .int left, .int right => left == right
  | .float left, .float right => left.same right
  | .str left, .str right => left == right
  | .arr left, .arr right => equivalentItems left right
  | .obj left, .obj right =>
      left.length == right.length && equivalentMembers left right
  | _, _ => false

def equivalentItems : List Json → List Json → Bool
  | [], [] => true
  | left :: lefts, right :: rights => equivalent left right && equivalentItems lefts rights
  | _, _ => false

/-- Every member on the left has an equivalent one of the same name on the right. -/
def equivalentMembers : List (String × Json) → List (String × Json) → Bool
  | [], _ => true
  | (name, left) :: lefts, rights =>
      (match Ordered.get? rights name with
        | some right => equivalent left right
        | none => false) && equivalentMembers lefts rights

end

def isObject : Json → Bool
  | .obj _ => true
  | _ => false

def isNumber : Json → Bool
  | .int _ | .float _ => true
  | _ => false

def member? (value : Json) (name : String) : Option Json :=
  match value with
  | .obj members => Ordered.get? members name
  | _ => none

def asString? : Json → Option String
  | .str value => some value
  | _ => none

def asBool? : Json → Option Bool
  | .bool value => some value
  | _ => none

def asObject? : Json → Option Members
  | .obj members => some members
  | _ => none

def present (members : List (Option (String × Json))) : Json :=
  .obj (members.filterMap id)

end Json

end Toggles
