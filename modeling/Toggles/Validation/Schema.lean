import Toggles.Validation.Check

/-! Which schemas can be validated with: types have to be known, and bounds have to
be numbers. -/

set_option autoImplicit false

namespace Toggles.Validation

def argumentFault? : String → Json → Option Violation
  | "type", .str kind => if typeNames.contains kind then none else some (.noAlternative (.str kind))
  | "minimum", bound | "maximum", bound =>
      if bound.isNumber then none else some (.wrongType bound "number")
  | _, _ => none

mutual

def schemaFault? : Json → Option Violation
  | .obj keywords => keywordsFault? keywords
  | _ => none

def keywordsFault? : List (String × Json) → Option Violation
  | [] => none
  | (keyword, argument) :: rest =>
      (match keyword, argument with
        | "properties", .obj properties => propertiesFault? properties
        | "items", items => schemaFault? items
        | "anyOf", .arr alternatives => alternativesFault? alternatives
        | keyword, argument => argumentFault? keyword argument) <|> keywordsFault? rest

def propertiesFault? : List (String × Json) → Option Violation
  | [] => none
  | (_, schema) :: rest => schemaFault? schema <|> propertiesFault? rest

def alternativesFault? : List Json → Option Violation
  | [] => none
  | schema :: rest => schemaFault? schema <|> alternativesFault? rest

end

end Toggles.Validation
