import Toggles.Doc.Comment
import Toggles.Json.Reader
import Toggles.Text.Split

/-! The values that tags of documentation comments give. -/

set_option autoImplicit false

namespace Toggles.Doc

open Numeric (NumberText)
open Text (splitAt trim trimStart)

/-- Brackets and quotation marks are ignored around the entries of a list. -/
def isListDecoration (c : Char) : Bool :=
  c == '[' || c == ']' || c == '"'

def listEntries (text : List Char) : List Json :=
  (splitAt ',' (text.filter fun c => !isListDecoration c)).map fun entry =>
    .str (String.ofList (trim entry))

/-- Allowed values: a JSON array, or else entries with commas between them. -/
def enumValues (text : String) : List Json :=
  match Json.parse? text with
  | some (.arr values) => values
  | _ => listEntries text.toList

def labeledExplanation? (text : List Char) : Option (List Char) :=
  match text.dropWhile (· != '"') with
  | [] => none
  | _ :: rest =>
      if text.head? = some '"' then none
      else
        match trimStart rest with
        | '-' :: rest =>
            let line := (trimStart rest).takeWhile (· != '\n')
            if line.isEmpty then none else some (trim line)
        | _ => none

/-- The explanation of the leftmost quotation mark that opens a label. -/
def explanation? : List Char → Option (List Char)
  | [] => none
  | c :: rest =>
      if c = '"' then
        match labeledExplanation? rest with
        | some explanation => some explanation
        | none => explanation? rest
      else explanation? rest

/-- The description of an allowed value: an explanation, or else the whole text. -/
def enumDescription (text : String) : String :=
  match explanation? text.toList with
  | some explanation => String.ofList explanation
  | none => text

/-- A default: a JSON value, or else the text itself. -/
def defaultValue (text : String) : Json :=
  (Json.parse? text).getD (.str text)

def lenientNumber? (text : List Char) : Option Json := do
  let parts ← NumberText.split? text
  if parts.isLenient then (← parts.toDecimal.toBinary64?) |> Json.float |> some else none

/-- A bound: a JSON number, or else a number in the lenient grammar. -/
def numberValue? (text : String) : Option Json :=
  let trimmed := trim text.toList
  match Json.parse? (String.ofList trimmed) with
  | some (.int value) => some (.int value)
  | some (.float value) => some (.float value)
  | _ => lenientNumber? trimmed

end Toggles.Doc
