import Toggles.Toml.Unquoted

/-! Values with their parts.

A list or a braced table is read with the reader of what it encloses, which is one
level below it. Line endings and comments may stand anywhere inside, except within a key.
-/

set_option autoImplicit false

namespace Toggles.Toml

/-- What is left after something that may be passed over. -/
abbrev Skipper := (text : List Char) → Option { rest : List Char // rest.length ≤ text.length }

def onLine : Skipper := fun text =>
  some ⟨skipBlanks text, length_skipBlanks_le text⟩

def acrossLines : Skipper := fun text =>
  match skipped : skipLayout? false text with
  | none => none
  | some rest => some ⟨rest, length_skipLayout?_le skipped⟩

def itemsAfter (inner : Reader Toml) (seen : List Toml) (text : List Char) :
    Option (Reading Char (List Toml) text.length) := do
  let start ← acrossLines text
  match same : start.val with
  | ']' :: rest =>
      return ⟨seen.reverse, rest, by have := start.property; simp [same] at this; omega⟩
  | _ =>
      let item ← inner start.val
      let after ← acrossLines item.rest
      match same : after.val with
      | ',' :: rest =>
          (itemsAfter inner (item.value :: seen) rest).map (·.widen (by
            have := start.property
            have := item.within
            have := after.property
            simp [same] at *
            omega))
      | ']' :: rest =>
          return ⟨(item.value :: seen).reverse, rest, by
            have := start.property
            have := item.within
            have := after.property
            simp [same] at *
            omega⟩
      | _ => none
termination_by text.length
decreasing_by
  have := start.property
  have := item.within
  have := after.property
  simp_all
  omega

/-- A key, an equals sign and a value. What may be passed over around the sign depends
on where the pair stands. -/
def pair (skip : Skipper) (inner : Reader Toml) : Reader (List String × Toml) := fun text => do
  let names ← key text
  let sign ← skip names.rest
  match same : sign.val with
  | '=' :: rest =>
      let start ← skip rest
      let value ← inner start.val
      return ⟨(names.value, value.value), value.rest, by
        have := names.within
        have := sign.property
        have := start.property
        have := value.within
        simp [same] at *
        omega⟩
  | _ => none

def membersAfter (inner : Reader Toml) (seen : Members) (text : List Char) :
    Option (Reading Char Members text.length) := do
  let start ← acrossLines text
  match same : start.val with
  | '}' :: rest =>
      return ⟨seen, rest, by have := start.property; simp [same] at this; omega⟩
  | _ =>
      let member ← pair acrossLines inner start.val
      let members ← assign member.value.2 member.value.1 seen
      let after ← acrossLines member.rest
      match same : after.val with
      | ',' :: rest =>
          (membersAfter inner members rest).map (·.widen (by
            have := start.property
            have := member.within
            have := after.property
            simp [same] at *
            omega))
      | '}' :: rest =>
          return ⟨members, rest, by
            have := start.property
            have := member.within
            have := after.property
            simp [same] at *
            omega⟩
      | _ => none
termination_by text.length
decreasing_by
  have := start.property
  have := member.within
  have := after.property
  simp_all
  omega

def maximumNesting : Nat := 80

def single : Reader Toml
  | '"' :: rest => (quoted ('"' :: rest)).map (Reading.map .str)
  | '\'' :: rest => (quoted ('\'' :: rest)).map (Reading.map .str)
  | text => bare text

def valueWithin : Nat → Reader Toml
  | 0, text => single text
  | levels + 1, text =>
      match text with
      | '[' :: rest =>
          (itemsAfter (valueWithin levels) [] rest).map
            ((·.widen (by simp)) ∘ Reading.map .arr)
      | '{' :: rest =>
          (membersAfter (valueWithin levels) [] rest).map
            ((·.widen (by simp)) ∘ Reading.map (.table .closed))
      | text => single text

def value : Reader Toml :=
  valueWithin maximumNesting

end Toggles.Toml
