import Toggles.Json.Compact
import Toggles.Text.Quoted

/-! Decoding JSON values into records, with the reason when one does not fit. -/

set_option autoImplicit false

namespace Toggles.Json

inductive DecodeError where
  | invalidType (found : Json) (expected : String)
  | invalidValue (found : Json) (expected : String)
  | unknownField (name : String) (known : List String)
  | unknownVariant (name : String) (known : List String)
  | invalidLength (length : Nat) (expected : String)
  | missingField (name : String)
  deriving Repr

def describe : Json → String
  | .null => "null"
  | .bool value => "boolean `" ++ (if value then "true" else "false") ++ "`"
  | .int value => "integer `" ++ toString value ++ "`"
  | .float value => "floating point `" ++ String.ofList (value.text .plain) ++ "`"
  | .str value => "string " ++ Text.quoted value
  | .arr _ => "sequence"
  | .obj _ => "map"

def backquoted (name : String) : String :=
  "`" ++ name ++ "`"

def alternatives : List String → String
  | [] => "there are no fields"
  | [name] => "expected " ++ backquoted name
  | [first, second] => "expected " ++ backquoted first ++ " or " ++ backquoted second
  | names => "expected one of " ++ String.intercalate ", " (names.map backquoted)

def DecodeError.message : DecodeError → String
  | .invalidType found expected => "invalid type: " ++ found.describe ++ ", expected " ++ expected
  | .invalidValue found expected =>
      "invalid value: " ++ found.describe ++ ", expected " ++ expected
  | .unknownField name known => "unknown field " ++ backquoted name ++ ", " ++ alternatives known
  | .unknownVariant name known =>
      "unknown variant " ++ backquoted name ++ ", " ++ alternatives known
  | .invalidLength length expected =>
      "invalid length " ++ toString length ++ ", expected " ++ expected
  | .missingField name => "missing field " ++ backquoted name

abbrev Decoded (α : Type) := Except DecodeError α

def mismatch {α : Type} (found : Json) (expected : String) : Decoded α :=
  .error (.invalidType found expected)

def decodeString : Json → Decoded String
  | .str value => .ok value
  | value => mismatch value "a string"

def decodeBool : Json → Decoded Bool
  | .bool value => .ok value
  | value => mismatch value "a boolean"

def decodeItems : Json → Decoded (List Json)
  | .arr items => .ok items
  | value => mismatch value "a sequence"

def decodeMembers : Json → Decoded Members
  | .obj members => .ok members
  | value => mismatch value "a map"

def decodeStrings (value : Json) : Decoded (List String) := do
  (← decodeItems value).mapM decodeString

/-- Decode a value that may be absent, for which null stands too. -/
def decodeOptional {α : Type} (decode : Json → Decoded α) : Json → Decoded (Option α)
  | .null => .ok none
  | value => (decode value).map some

end Toggles.Json
