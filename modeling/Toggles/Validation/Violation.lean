import Toggles.Json.Compact

/-! What is wrong with a value under a schema, and where in it. -/

set_option autoImplicit false

namespace Toggles.Validation

inductive Violation where
  | wrongType (found : Json) (expected : String)
  | missing (name : String)
  | unexpected (names : List String)
  | notAllowed (found : Json) (allowed : List Json)
  | tooSmall (found minimum : Json)
  | tooLarge (found maximum : Json)
  | noAlternative (found : Json)
  deriving Repr

def listed (word : String) : List String → String
  | [] => ""
  | [item] => item
  | [item, last] => item ++ word ++ last
  | item :: rest => item ++ ", " ++ listed word rest

/-- Up to three values, or the first two and how many others there are. -/
def candidates (values : List Json) : String :=
  let texts := values.map Json.compact
  if texts.length ≤ 3 then listed " or " texts
  else
    String.intercalate ", " (texts.take 2) ++ " or " ++ toString (texts.length - 2) ++
      " other candidates"

def unexpectedNames (names : List String) : String :=
  String.intercalate ", " (names.map fun name => "'" ++ name ++ "'") ++
    (if names.length = 1 then " was unexpected" else " were unexpected")

def Violation.message : Violation → String
  | .wrongType found expected => found.compact ++ " is not of type \"" ++ expected ++ "\""
  | .missing name => String.ofList (Json.quote name) ++ " is a required property"
  | .unexpected names => "Additional properties are not allowed (" ++ unexpectedNames names ++ ")"
  | .notAllowed found allowed => found.compact ++ " is not one of " ++ candidates allowed
  | .tooSmall found minimum =>
      found.compact ++ " is less than the minimum of " ++ minimum.compact
  | .tooLarge found maximum =>
      found.compact ++ " is greater than the maximum of " ++ maximum.compact
  | .noAlternative found =>
      found.compact ++ " is not valid under any of the schemas listed in the 'anyOf' keyword"

/-- A violation at a place, given by the member names and item numbers on the way. -/
structure Finding where
  place : List String
  violation : Violation
  deriving Repr

def pointerChar (c : Char) : List Char :=
  if c = '~' then ['~', '0'] else if c = '/' then ['~', '1'] else [c]

/-- A place as a JSON pointer; the whole value is a slash. -/
def pointer (place : List String) : String :=
  if place.isEmpty then "/"
  else String.ofList (place.flatMap fun name => '/' :: name.toList.flatMap pointerChar)

def Finding.message (finding : Finding) : String :=
  pointer finding.place ++ ": " ++ finding.violation.message

end Toggles.Validation
