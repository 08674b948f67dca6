import Toggles.Json.Compact

/-! JSON text with one item or member on each line, indented by two spaces.

Empty arrays and objects stay on one line. -/

set_option autoImplicit false

namespace Toggles.Json

def breakLine (depth : Nat) : List Char :=
  '\n' :: List.replicate (2 * depth) ' '

mutual

def prettyChars (depth : Nat) : Json → List Char
  | .arr [] => ['[', ']']
  | .arr (item :: rest) => '[' :: prettyItems depth (item :: rest) ++ breakLine depth ++ [']']
  | .obj [] => ['{', '}']
  | .obj (member :: rest) => '{' :: prettyMembers depth (member :: rest) ++ breakLine depth ++ ['}']
  | scalar => scalarText .plain scalar

def prettyItems (depth : Nat) : List Json → List Char
  | [] => []
  | [item] => breakLine (depth + 1) ++ prettyChars (depth + 1) item
  | item :: rest =>
      breakLine (depth + 1) ++ prettyChars (depth + 1) item ++ ',' :: prettyItems depth rest

def prettyMembers (depth : Nat) : List (String × Json) → List Char
  | [] => []
  | [(name, value)] =>
      breakLine (depth + 1) ++ quote name ++ ':' :: ' ' :: prettyChars (depth + 1) value
  | (name, value) :: rest =>
      breakLine (depth + 1) ++ quote name ++ ':' :: ' ' :: prettyChars (depth + 1) value ++
        ',' :: prettyMembers depth rest

end

/-- The pretty text of a value, ended by a line break. -/
def pretty (value : Json) : String :=
  String.ofList (value.prettyChars 0 ++ ['\n'])

end Toggles.Json
