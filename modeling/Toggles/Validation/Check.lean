import Toggles.Numeric.Compare
import Toggles.Validation.Violation

/-! Validation of values by the keywords that generated schemas use.

Each keyword is checked on its own, in the order of the schema. Keywords that are not
known here hold of every value.
-/

set_option autoImplicit false

namespace Toggles.Validation

open Json (Members)
open Numeric (BinaryFraction nearestTo?)

def number? : Json → Option BinaryFraction
  | .int value => some (.ofInt value)
  | .float value => some (.ofBinary64 value)
  | _ => none

/-- Equality of numbers. An integer and a binary64 number are compared as binary64. -/
def sameNumber : Json → Json → Bool
  | .int left, .int right => left == right
  | .float left, .float right => left.same right
  | .int left, .float right | .float right, .int left =>
      (nearestTo? left).any right.same
  | _, _ => false

mutual

/-- Equality of values as an enumeration sees it: numbers are equal by value, and the
order of members does not matter. -/
def same : Json → Json → Bool
  | .null, .null => true
  | .bool left, .bool right => left == right
  | .str left, .str right => left == right
  | .arr left, .arr right => sameItems left right
  | .obj left, .obj right => left.length == right.length && sameMembers left right
  | left, right => sameNumber left right

def sameItems : List Json → List Json → Bool
  | [], [] => true
  | left :: lefts, right :: rights => same left right && sameItems lefts rights
  | _, _ => false

def sameMembers : List (String × Json) → List (String × Json) → Bool
  | [], _ => true
  | (name, left) :: lefts, rights =>
      (match Ordered.get? rights name with
        | some right => same left right
        | none => false) && sameMembers lefts rights

end

def typeNames : List String :=
  ["array", "boolean", "integer", "null", "number", "object", "string"]

/-- Whether a value is of a type. A number without a fraction is an integer. -/
def hasType (kind : String) : Json → Bool
  | .null => kind == "null"
  | .bool _ => kind == "boolean"
  | .int _ => kind == "integer" || kind == "number"
  | .float value =>
      kind == "number" || (kind == "integer" && (BinaryFraction.ofBinary64 value).isWhole)
  | .str _ => kind == "string"
  | .arr _ => kind == "array"
  | .obj _ => kind == "object"

/-- Both are numbers, and the first one is less. -/
def isLess (left right : Json) : Bool :=
  match number? left, number? right with
  | some left, some right => left.less right
  | _, _ => false

def propertyNames (schema : Members) : List String :=
  match Ordered.get? schema "properties" with
  | some (.obj properties) => Ordered.keys properties
  | _ => []

def unexpectedIn (schema : Members) : Json → List String
  | .obj members =>
      (Ordered.keys members).filter fun name => !(propertyNames schema).contains name
  | _ => []

def missingIn (required : List Json) : Json → List String
  | .obj members => (required.filterMap Json.asString?).filter fun name =>
      !Ordered.contains members name
  | _ => []

def itemsOf : Json → List Json
  | .arr items => items
  | _ => []

def demand (condition : Bool) (violation : Violation) : List Finding :=
  if condition then [] else [⟨[], violation⟩]

def within (name : String) (findings : List Finding) : List Finding :=
  findings.map fun finding => { finding with place := name :: finding.place }

/-- A keyword that looks at the value alone. -/
def checkOwn (schema : Members) (value : Json) : String → Json → List Finding
  | "type", .str kind => demand (hasType kind value) (.wrongType value kind)
  | "enum", .arr allowed => demand (allowed.any (same value)) (.notAllowed value allowed)
  | "minimum", minimum => demand (!isLess value minimum) (.tooSmall value minimum)
  | "maximum", maximum => demand (!isLess maximum value) (.tooLarge value maximum)
  | "required", .arr required =>
      (missingIn required value).map fun name => ⟨[], .missing name⟩
  | "additionalProperties", .bool false =>
      let names := unexpectedIn schema value
      demand names.isEmpty (.unexpected names)
  | _, _ => []

mutual

def check (value : Json) : Json → List Finding
  | .obj schema => checkKeywords schema value schema
  | _ => []
termination_by structural schema => schema

def checkKeywords (schema : Members) (value : Json) : List (String × Json) → List Finding
  | [] => []
  | (keyword, argument) :: rest =>
      (match keyword, argument with
        | "properties", .obj properties => checkProperties value properties
        | "items", items =>
            (itemsOf value).zipIdx.flatMap fun (item, place) =>
              within (toString place) (check item items)
        | "anyOf", .arr alternatives =>
            demand (acceptsAny value alternatives) (.noAlternative value)
        | keyword, argument => checkOwn schema value keyword argument) ++
        checkKeywords schema value rest
termination_by structural keywords => keywords

def checkProperties (value : Json) : List (String × Json) → List Finding
  | [] => []
  | (name, schema) :: rest =>
      (match value.member? name with
        | some member => within name (check member schema)
        | none => []) ++ checkProperties value rest
termination_by structural properties => properties

def acceptsAny (value : Json) : List Json → Bool
  | [] => false
  | schema :: rest => (check value schema).isEmpty || acceptsAny value rest
termination_by structural schemas => schemas

end

def accepts (schema value : Json) : Bool :=
  (check value schema).isEmpty

end Toggles.Validation
