import Toggles.Json.Compact

/-! Canonical JSON text: no blanks, members in the order of their quoted names, and
numbers as ECMAScript writes them. -/

set_option autoImplicit false

namespace Toggles.Json

/-- Order by the quoted forms of the names. UTF-8 keeps the order of code points. -/
def namedBefore (left right : String × List Char) : Bool :=
  !decide (String.ofList (quote right.1) < String.ofList (quote left.1))

def memberTexts : List (String × List Char) → List Char
  | [] => []
  | [(name, text)] => quote name ++ ':' :: text
  | (name, text) :: rest => quote name ++ ':' :: text ++ ',' :: memberTexts rest

def itemTexts : List (List Char) → List Char
  | [] => []
  | [text] => text
  | text :: rest => text ++ ',' :: itemTexts rest

mutual

def canonicalChars : Json → List Char
  | .arr items => '[' :: itemTexts (canonicalItems items) ++ [']']
  | .obj members => '{' :: memberTexts ((canonicalMembers members).mergeSort namedBefore) ++ ['}']
  | scalar => scalarText .ecmaScript scalar

def canonicalItems : List Json → List (List Char)
  | [] => []
  | item :: rest => canonicalChars item :: canonicalItems rest

def canonicalMembers : List (String × Json) → List (String × List Char)
  | [] => []
  | (name, value) :: rest => (name, canonicalChars value) :: canonicalMembers rest

end

def canonical (value : Json) : String :=
  String.ofList value.canonicalChars

end Toggles.Json
