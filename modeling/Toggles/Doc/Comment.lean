import Toggles.Text.Blank
import Toggles.Text.Letters
import Toggles.Text.Lines

/-! Documentation comments.

A comment is free text followed by tags. A tag begins at a line whose first
character is an at sign and lasts up to the next such line. The first line of the
free text is the title and the others are the description.
-/

set_option autoImplicit false

namespace Toggles.Doc

open Text (trim trimStart trimEnd lines joinLines isLetterOrNumeral)

/-- A tag; a text of nothing but white space counts as none. -/
structure Tag where
  name : String
  text : Option String
  deriving DecidableEq, Repr

structure Comment where
  title : Option String
  description : Option String
  tags : List Tag
  deriving DecidableEq, Repr

def nonempty? (text : List Char) : Option String :=
  if text.isEmpty then none else some (String.ofList text)

/-- Remove white space, one star and one space from the front of a line. -/
def stripDecoration (line : List Char) : List Char :=
  match trimStart line with
  | '*' :: ' ' :: rest => rest
  | '*' :: rest => rest
  | trimmed => trimmed

def isTagNamePart (c : Char) : Bool :=
  c == '_' || isLetterOrNumeral c

def tagStart? (line : List Char) : Option (String × List Char) :=
  match trimStart line with
  | '@' :: rest =>
      some (String.ofList (rest.takeWhile isTagNamePart), rest.dropWhile isTagNamePart)
  | _ => none

structure Division where
  free : List (List Char)
  blocks : List (String × List (List Char))
  deriving Repr

/-- Put a line in front: a tag takes the free lines behind it for its block. -/
def Division.cons (line : List Char) (division : Division) : Division :=
  match tagStart? line with
  | some (name, text) => ⟨[], (name, text :: division.free) :: division.blocks⟩
  | none => ⟨line :: division.free, division.blocks⟩

def Division.ofLines (lines : List (List Char)) : Division :=
  lines.foldr Division.cons ⟨[], []⟩

def Tag.ofBlock (name : String) (block : List (List Char)) : Tag :=
  ⟨name, nonempty? (trim (joinLines block))⟩

namespace Comment

def tag? (comment : Comment) (name : String) : Option String :=
  (comment.tags.find? fun tag => tag.name = name).bind Tag.text

def tagsNamed (comment : Comment) (name : String) : List Tag :=
  comment.tags.filter fun tag => tag.name = name

/-- A comment of free text and tags. A description in a tag counts only where the
free text has at most one line. -/
def ofParts (free : List Char) (tags : List Tag) : Comment :=
  match lines free with
  | first :: second :: others =>
      ⟨nonempty? (trimEnd first), nonempty? (trim (joinLines (second :: others))), tags⟩
  | few =>
      { title := few.head?.bind fun line => nonempty? (trimEnd line)
        description := (Comment.mk none none tags).tag? "description"
        tags := tags }

/-- Read the body of a comment, without its delimiters. -/
def parse (body : String) : Comment :=
  let division := Division.ofLines ((lines body.toList).map stripDecoration)
  ofParts (trim (joinLines division.free))
    (division.blocks.map fun (name, block) => Tag.ofBlock name block)

end Comment

end Toggles.Doc
