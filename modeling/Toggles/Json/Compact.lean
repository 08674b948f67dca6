import Toggles.Json.Basic

/-! JSON text without layout.

Only the quotation mark, the backslash and the characters below U+0020 are
escaped, so text beyond ASCII stays readable.
-/

set_option autoImplicit false

namespace Toggles.Json

open Numeric (Layout integerText)

def hexDigit (value : Nat) : Char :=
  Nat.digitChar (value % 16)

def escapeChar (c : Char) : List Char :=
  if c = '"' then ['\\', '"']
  else if c = '\\' then ['\\', '\\']
  else if c = '\x08' then ['\\', 'b']
  else if c = '\x0c' then ['\\', 'f']
  else if c = '\n' then ['\\', 'n']
  else if c = '\r' then ['\\', 'r']
  else if c = '\t' then ['\\', 't']
  else if c.toNat < 0x20 then ['\\', 'u', '0', '0', hexDigit (c.toNat / 16), hexDigit c.toNat]
  else [c]

def quote (text : String) : List Char :=
  '"' :: text.toList.flatMap escapeChar ++ ['"']

def scalarText (layout : Layout) : Json → List Char
  | .null => ['n', 'u', 'l', 'l']
  | .bool true => ['t', 'r', 'u', 'e']
  | .bool false => ['f', 'a', 'l', 's', 'e']
  | .int value => integerText value
  | .float value => value.text layout
  | .str value => quote value
  | .arr _ => ['[', ']']
  | .obj _ => ['{', '}']

mutual

def compactChars : Json → List Char
  | .arr items => '[' :: compactItems items ++ [']']
  | .obj members => '{' :: compactMembers members ++ ['}']
  | scalar => scalarText .plain scalar

def compactItems : List Json → List Char
  | [] => []
  | [item] => compactChars item
  | item :: rest => compactChars item ++ ',' :: compactItems rest

def compactMembers : List (String × Json) → List Char
  | [] => []
  | [(name, value)] => quote name ++ ':' :: compactChars value
  | (name, value) :: rest => quote name ++ ':' :: compactChars value ++ ',' :: compactMembers rest

end

def compact (value : Json) : String :=
  String.ofList value.compactChars

end Toggles.Json
