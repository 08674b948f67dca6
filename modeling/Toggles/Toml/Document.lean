import Toggles.Toml.Value

/-! Reading a TOML text.

Every line is blank, a header or a pair. Pairs go to the table of the last header.
-/

set_option autoImplicit false

namespace Toggles.Toml

/-- The whole table read so far, and the header to which pairs belong. -/
structure Progress where
  members : Members
  header : List String
  deriving Repr

def Progress.start : Progress := ⟨[], []⟩

def Progress.assign (progress : Progress) (names : List String) (value : Toml) :
    Option Progress := do
  let members ← changeAt (Toml.assign value names) progress.header progress.members
  return { progress with members }

def Progress.begin (declare : String → Members → Option Members) (progress : Progress)
    (header : List String) : Option Progress := do
  let name ← header.getLast?
  let members ← changeAt (declare name) header.dropLast progress.members
  return ⟨members, header⟩

def headerNames (closing : List Char) : Reader (List String) := fun text => do
  let names ← key (skipBlanks text)
  if closing.isPrefixOf names.rest then
    return ⟨names.value, names.rest.drop closing.length, by
      have := length_skipBlanks_le text
      have := names.within
      simp only [List.length_drop]
      omega⟩
  else none

def statement (progress : Progress) : Reader Progress
  | '[' :: '[' :: rest => do
      let names ← headerNames [']', ']'] rest
      let progress ← progress.begin declareNext names.value
      return (names.map fun _ => progress).widen (Nat.le_add_right rest.length 2)
  | '[' :: rest => do
      let names ← headerNames [']'] rest
      let progress ← progress.begin declareTable names.value
      return (names.map fun _ => progress).widen (Reading.length_le_cons '[' rest)
  | text => do
      let member ← pair onLine value text
      let progress ← progress.assign member.value.1 member.value.2
      return ⟨progress, member.rest, member.within⟩

def isBlankLine : List Char → Bool
  | [] => true
  | c :: rest => c == '#' || c == '\n' || (c == '\r' && rest.head? == some '\n')

def linesAfter (progress : Progress) (text : List Char) : Option Progress :=
  match text with
  | [] => some progress
  | c :: rest =>
      if isBlankLine (skipBlanks (c :: rest)) then
        match ended : endLine? false (c :: rest) with
        | none => none
        | some after =>
            have := length_endLine?_lt ended
            linesAfter progress after
      else
        match statement progress (skipBlanks (c :: rest)) with
        | none => none
        | some read =>
            match ended : endLine? false read.rest with
            | none => none
            | some after =>
                have := length_endLine?_le ended
                have := length_skipBlanks_le (c :: rest)
                have := read.within
                linesAfter read.value after
termination_by text.length
decreasing_by all_goals simp_all <;> omega

def dropByteOrderMark : List Char → List Char
  | '\uFEFF' :: rest => rest
  | text => text

def parse? (text : String) : Option Members :=
  (linesAfter .start (dropByteOrderMark text.toList)).map Progress.members

end Toggles.Toml
