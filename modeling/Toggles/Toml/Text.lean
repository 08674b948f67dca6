import Toggles.Reading
import Toggles.Text.Hexadecimal
import Toggles.Toml.Layout

/-! Texts and keys of TOML.

A text stands between quotation marks, which allow escapes, or between
apostrophes, which do not, and three of either let it run over several lines.
-/

set_option autoImplicit false

namespace Toggles.Toml

open Text (hexDigits?)

/-- A reader takes at least one character. -/
abbrev Reader (α : Type) := (text : List Char) → Option (Reading Char α text.length)

def unescape? : Char → Option Char
  | '"' => some '"'
  | '\\' => some '\\'
  | 'b' => some '\x08'
  | 'e' => some '\x1b'
  | 'f' => some '\x0c'
  | 'n' => some '\n'
  | 'r' => some '\r'
  | 't' => some '\t'
  | _ => none

def escapeWidth? : Char → Option Nat
  | 'x' => some 2
  | 'u' => some 4
  | 'U' => some 8
  | _ => none

def character? (digits : List Char) : Option Char := do
  let code ← hexDigits? digits
  if code.isValidChar then return Char.ofNat code else none

/-- The character of an escape whose backslash has been read. -/
def escape : Reader Char
  | [] => none
  | c :: rest =>
      match escapeWidth? c with
      | some width =>
          if width ≤ rest.length then
            (character? (rest.take width)).map fun decoded =>
              ⟨decoded, rest.drop width, by simp only [List.length_drop, List.length_cons]; omega⟩
          else none
      | none => (unescape? c).map fun decoded => ⟨decoded, rest, by simp⟩

def lineText (seen : List Char) (text : List Char) : Option (Reading Char String text.length) :=
  match text with
  | [] => none
  | '"' :: rest => some ⟨String.ofList seen.reverse, rest, by simp⟩
  | '\\' :: rest =>
      match escape rest with
      | none => none
      | some escaped =>
          have := escaped.within
          (lineText (escaped.value :: seen) escaped.rest).map
            (·.widen (Nat.le_of_lt (Nat.lt_succ_of_lt escaped.within)))
  | c :: rest =>
      if isShown c then (lineText (c :: seen) rest).map (·.widen (by simp)) else none
termination_by text.length
decreasing_by all_goals simp only [List.length_cons]; omega

def lineLiteral (seen : List Char) : Reader String
  | [] => none
  | '\'' :: rest => some ⟨String.ofList seen.reverse, rest, by simp⟩
  | c :: rest =>
      if isShown c then (lineLiteral (c :: seen) rest).map (·.widen (by simp)) else none

/-- The quotes that end a text of several lines: three of them, of which up to two
more before them belong to the text. -/
def closing (quote : Char) : Reader (List Char) := fun text =>
  let run := (text.takeWhile (· == quote)).length
  if long : 3 ≤ run then
    some ⟨List.replicate (min 2 (run - 3)) quote, text.drop (min 2 (run - 3) + 3), by
      have : run ≤ text.length := (List.takeWhile_sublist (· == quote)).length_le
      simp only [List.length_drop]
      omega⟩
  else none

/-- Drop the blanks and line endings after a backslash that ends a line. There has to
be a line ending among them. -/
def skipEnding? (ended : Bool) : List Char → Option (List Char)
  | [] => if ended then some [] else none
  | '\n' :: rest => skipEnding? true rest
  | '\r' :: '\n' :: rest => skipEnding? true rest
  | c :: rest =>
      if isBlank c then skipEnding? ended rest
      else if ended then some (c :: rest)
      else none

theorem length_skipEnding?_le {ended : Bool} {text rest : List Char}
    (skipped : skipEnding? ended text = some rest) : rest.length ≤ text.length := by
  fun_induction skipEnding? ended text <;> simp_all <;> omega

/-- A character of a text of several lines, or a line ending of two, last one first. -/
def lineOrShown : Reader (List Char)
  | '\n' :: rest => some ⟨['\n'], rest, Nat.lt_succ_self _⟩
  | '\r' :: '\n' :: rest => some ⟨['\n', '\r'], rest, Nat.lt_add_of_pos_right Nat.zero_lt_two⟩
  | c :: rest => if isShown c then some ⟨[c], rest, Reading.length_lt_cons c rest⟩ else none
  | [] => none

/-- The same with escapes. A backslash at the end of a line adds nothing. -/
def lineOrEscape : Reader (List Char)
  | '\\' :: rest =>
      match skipped : skipEnding? false rest with
      | some after => some ⟨[], after, Nat.lt_succ_of_le (length_skipEnding?_le skipped)⟩
      | none =>
          (escape rest).map fun escaped =>
            ⟨[escaped.value], escaped.rest, Nat.lt_succ_of_lt escaped.within⟩
  | text => lineOrShown text

def block (quote : Char) (part : Reader (List Char)) (seen : List Char) (text : List Char) :
    Option (Reading Char String text.length) :=
  match closing quote text with
  | some last => some (last.map fun last => String.ofList (last ++ seen).reverse)
  | none =>
      match part text with
      | some next =>
          (block quote part (next.value ++ seen) next.rest).map
            (·.widen (Nat.le_of_lt next.within))
      | none => none
termination_by text.length
decreasing_by exact next.within

/-- A line ending right after the opening quotes does not belong to the text. -/
def dropFirstEnding : List Char → List Char
  | '\n' :: rest => rest
  | '\r' :: '\n' :: rest => rest
  | text => text

theorem length_dropFirstEnding_le (text : List Char) :
    (dropFirstEnding text).length ≤ text.length := by
  unfold dropFirstEnding
  split
  · simp
  · simp only [List.length_cons]
    omega
  · exact Nat.le_refl _

def lineQuoted : Reader String
  | '"' :: rest => (lineText [] rest).map (·.widen (by simp))
  | '\'' :: rest => (lineLiteral [] rest).map (·.widen (by simp))
  | _ => none

def quoted : Reader String
  | '"' :: '"' :: '"' :: rest =>
      (block '"' lineOrEscape [] (dropFirstEnding rest)).map
        (·.widen (by have := length_dropFirstEnding_le rest; simp; omega))
  | '\'' :: '\'' :: '\'' :: rest =>
      (block '\'' lineOrShown [] (dropFirstEnding rest)).map
        (·.widen (by have := length_dropFirstEnding_le rest; simp; omega))
  | text => lineQuoted text

def isKeyPart (c : Char) : Bool :=
  c.isAlphanum || c == '_' || c == '-'

def keyName : Reader String
  | [] => none
  | c :: rest =>
      if isKeyPart c then
        some ⟨String.ofList (c :: rest.takeWhile isKeyPart), rest.dropWhile isKeyPart,
          Nat.lt_succ_of_le (List.dropWhile_sublist isKeyPart).length_le⟩
      else lineQuoted (c :: rest)

def maximumKeyNames : Nat := 80

/-- The names of a key behind those seen so far, with dots between them. Blanks
around a dot, and after the key, do not matter. -/
def keyAfter (seen : List String) (text : List Char) :
    Option (Reading Char (List String) text.length) :=
  match keyName text with
  | none => none
  | some name =>
      have whole := name.within
      have blanks := length_skipBlanks_le name.rest
      match after : skipBlanks name.rest with
      | '.' :: rest =>
          have dotted : rest.length < text.length := by
            rw [after, List.length_cons] at blanks
            omega
          have behind := length_skipBlanks_le rest
          if seen.length + 1 < maximumKeyNames then
            (keyAfter (name.value :: seen) (skipBlanks rest)).map
              (·.widen (Nat.le_trans behind (Nat.le_of_lt dotted)))
          else none
      | rest =>
          some ⟨(name.value :: seen).reverse, rest, by rw [after] at blanks; omega⟩
termination_by text.length
decreasing_by omega

def key : Reader (List String) :=
  keyAfter []

end Toggles.Toml
