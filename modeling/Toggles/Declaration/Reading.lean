import Toggles.Declaration.Error
import Toggles.Declaration.Token
import Toggles.Reading

/-! Readings of a list of tokens.

The end of the source is the empty list: no reader can go past it.
-/

set_option autoImplicit false

namespace Toggles.Declaration

/-- Why reading stops. Without a token the end of the source is meant. -/
inductive Refusal where
  | unexpected (expected : String) (found : Option Located)
  | unclosed (opening : Nat)
  | invalidNumber (raw : String) (position : Nat)
  | tooDeep (found : Option Located)
  deriving DecidableEq, Repr

/-- Types and object bodies may enclose one another this often. -/
def maximumNesting : Nat := 64

def Refusal.toError (stop : Nat) : Refusal → SourceError
  | .unexpected expected (some found) =>
      .unexpectedToken expected found.token.describe found.position
  | .unexpected expected none => .unexpectedToken expected endOfInput stop
  | .unclosed opening => .unexpectedToken "closing bracket" endOfInput opening
  | .invalidNumber raw position => .invalidNumber raw position
  | .tooDeep found =>
      .nestingTooDeep maximumNesting (maximumNesting + 1)
        (match found with
          | some found => found.position
          | none => stop)

abbrev Outcome (α : Type) (bound : Nat) := Except Refusal (Reading Located α bound)

/-- A reader consumes at least one token. -/
abbrev Reader (α : Type) := (tokens : List Located) → Outcome α tokens.length

def startsWith (mark : Mark) : List Located → Bool
  | first :: _ => first.token = .mark mark
  | [] => false

def startsWithWord (word : String) : List Located → Bool
  | first :: _ => first.token = .word word
  | [] => false

def startsWithAnyWord : List Located → Bool
  | ⟨.word _, _, _⟩ :: _ => true
  | _ => false

def skip (mark : Mark) (tokens : List Located) : List Located :=
  if startsWith mark tokens then tokens.tail else tokens

theorem length_tail_le (tokens : List Located) : tokens.tail.length ≤ tokens.length :=
  (List.tail_sublist tokens).length_le

theorem length_tail_lt {mark : Mark} {tokens : List Located}
    (starts : startsWith mark tokens = true) : tokens.tail.length < tokens.length := by
  cases tokens with
  | nil => contradiction
  | cons first rest => exact Reading.length_lt_cons first rest

theorem length_skip_le (mark : Mark) (tokens : List Located) :
    (skip mark tokens).length ≤ tokens.length := by
  unfold skip
  split <;> simp

def refuse {α : Type} (expected : String) (tokens : List Located) : Except Refusal α :=
  .error (.unexpected expected tokens.head?)

def expect (mark : Mark) (expected : String) : Reader Unit
  | first :: rest =>
      if first.token = .mark mark then .ok ⟨(), rest, Reading.length_lt_cons first rest⟩
      else refuse expected (first :: rest)
  | [] => refuse expected []

def expectWord (expected : String) : Reader String
  | ⟨.word name, _, _⟩ :: rest => .ok ⟨name, rest, by simp⟩
  | tokens => refuse expected tokens

/-- The tokens after the mark that closes a group, whose opening marks are open
`depth` times. -/
def afterGroup? (opening closing : Mark) (depth : Nat) : List Located → Option (List Located)
  | [] => none
  | first :: rest =>
      if first.token = .mark opening then afterGroup? opening closing (depth + 1) rest
      else if first.token = .mark closing then
        if depth ≤ 1 then some rest else afterGroup? opening closing (depth - 1) rest
      else afterGroup? opening closing depth rest

theorem length_afterGroup?_lt {opening closing : Mark} {depth : Nat} {tokens rest : List Located}
    (found : afterGroup? opening closing depth tokens = some rest) :
    rest.length < tokens.length := by
  fun_induction afterGroup? opening closing depth tokens <;> simp_all <;> omega

/-- Pass over a balanced group. Only its own kind of bracket is balanced. -/
def skipGroup (opening closing : Mark) : Reader Unit
  | [] => refuse "opening bracket" []
  | first :: rest =>
      if first.token = .mark opening then
        match found : afterGroup? opening closing 1 rest with
        | some after =>
            .ok ⟨(), after, by have := length_afterGroup?_lt found; simp; omega⟩
        | none => .error (.unclosed first.position)
      else refuse "opening bracket" (first :: rest)

end Toggles.Declaration
