import Toggles.Declaration.Error
import Toggles.Declaration.Token
import Toggles.Text.Blank
import Toggles.Text.Hexadecimal
import Toggles.Text.Letters
import Toggles.Text.Size

/-! Cutting declaration source into lexemes.

Each step cuts one lexeme off the front of the text: white space, a comment, or a
token. A comment that begins with two stars documents the token after it; of
several such comments the last one counts.
-/

set_option autoImplicit false

namespace Toggles.Declaration

open Text (hexDigits? isBlank isLetter isLetterOrNumeral utf8Size)

def maximumSourceSize : Nat := 1048576

def isWordStart (c : Char) : Bool :=
  c == '_' || c == '$' || isLetter c

def isWordPart (c : Char) : Bool :=
  c == '_' || c == '$' || isLetterOrNumeral c

def isNumberPart (c : Char) : Bool :=
  c.isAlphanum || c == '_' || c == '.'

def splitComment (seen : List Char) : List Char → Option (List Char × List Char)
  | [] => none
  | '*' :: '/' :: rest => some (seen.reverse, rest)
  | c :: rest => splitComment (c :: seen) rest

/-- The written body of a string literal and the text after its closing quote. A
backslash keeps the next character from ending the literal. -/
def splitText (quote : Char) (seen : List Char) : List Char → Option (List Char × List Char)
  | [] => none
  | c :: rest =>
      if c = quote then some (seen.reverse, rest)
      else if c = '\n' then none
      else if c = '\\' then
        match rest with
        | [] => none
        | escaped :: rest => splitText quote (escaped :: c :: seen) rest
      else splitText quote (c :: seen) rest

def splitTemplate (seen : List Char) : List Char → Option (List Char × List Char)
  | [] => none
  | '\x60' :: rest => some (seen.reverse, rest)
  | '\\' :: escaped :: rest => splitTemplate (escaped :: '\\' :: seen) rest
  | c :: rest => splitTemplate (c :: seen) rest

/-- The character that four places after `\u` denote: four hexadecimal digits, or
a plus sign and three of them. -/
def unicodeEscape? (a b c d : Char) : Option Char := do
  let code ← hexDigits? (if a = '+' then [b, c, d] else [a, b, c, d])
  if code.isValidChar then return Char.ofNat code else none

/-- The character of an escape other than `\u`; most stand for themselves. -/
def plainEscape : Char → Char
  | 'n' => '\n'
  | 't' => '\t'
  | 'r' => '\r'
  | '0' => '\x00'
  | c => c

/-- Decode the escapes of a string literal. A `\u` that denotes no character is
the letter alone, and what follows it is read as usual. -/
def decodeText : List Char → List Char
  | '\\' :: 'u' :: a :: b :: c :: d :: rest =>
      match unicodeEscape? a b c d with
      | some decoded => decoded :: decodeText rest
      | none => 'u' :: decodeText (a :: b :: c :: d :: rest)
  | '\\' :: escaped :: rest => plainEscape escaped :: decodeText rest
  | c :: rest => c :: decodeText rest
  | [] => []

inductive Lexeme where
  | blank
  | comment (body : List Char)
  | token (value : Token)
  deriving DecidableEq, Repr

structure Cut where
  lexeme : Lexeme
  size : Nat
  rest : List Char
  deriving Repr

inductive Unclosed where
  | comment
  | literal
  deriving DecidableEq, Repr

def Unclosed.toError (position : Nat) : Unclosed → SourceError
  | .comment => .unterminatedComment position
  | .literal => .unterminatedString position

def cutRun (part : Char → Bool) (token : String → Token) (c : Char) (rest : List Char) : Cut :=
  let run := c :: rest.takeWhile part
  ⟨.token (token (String.ofList run)), utf8Size run, rest.dropWhile part⟩

def cutText (quote : Char) (rest : List Char) : Except Unclosed Cut :=
  match splitText quote [] rest with
  | none => .error .literal
  | some (body, rest) =>
      .ok ⟨.token (.quoted (String.ofList (decodeText body))), utf8Size body + 2, rest⟩

def cutTemplate (rest : List Char) : Except Unclosed Cut :=
  match splitTemplate [] rest with
  | none => .error .literal
  | some (body, rest) => .ok ⟨.token (.template (String.ofList body)), utf8Size body + 2, rest⟩

def cutComment (rest : List Char) : Except Unclosed Cut :=
  match splitComment [] rest with
  | none => .error .comment
  | some (body, rest) => .ok ⟨.comment body, utf8Size body + 4, rest⟩

def cutMark (c : Char) (rest : List Char) : Cut :=
  match c, rest with
  | '.', '.' :: '.' :: rest => ⟨.token (.mark .ellipsis), 3, rest⟩
  | '=', '>' :: rest => ⟨.token (.mark .arrow), 2, rest⟩
  | c, rest =>
      match Mark.ofChar? c with
      | some mark => ⟨.token (.mark mark), c.utf8Size, rest⟩
      | none => ⟨.token (.symbol c), c.utf8Size, rest⟩

def cut (c : Char) (rest : List Char) : Except Unclosed Cut :=
  if isBlank c then .ok ⟨.blank, c.utf8Size, rest⟩
  else if c = '/' && rest.head? = some '/' then
    let run := c :: rest.takeWhile (· != '\n')
    .ok ⟨.blank, utf8Size run, rest.dropWhile (· != '\n')⟩
  else if c = '/' && rest.head? = some '*' then cutComment rest.tail
  else if c = '"' || c = '\'' then cutText c rest
  else if c = '\x60' then cutTemplate rest
  else if c.isDigit then .ok (cutRun isNumberPart .number c rest)
  else if isWordStart c then .ok (cutRun isWordPart .word c rest)
  else .ok (cutMark c rest)

theorem splitComment_shorter {seen text body rest : List Char}
    (split : splitComment seen text = some (body, rest)) : rest.length < text.length := by
  fun_induction splitComment seen text with
  | case1 => contradiction
  | case2 seen rest =>
      cases split
      simp only [List.length_cons]
      omega
  | case3 seen c rest other ih => exact Nat.lt_succ_of_lt (ih split)

theorem splitText_shorter {quote : Char} {seen text body rest : List Char}
    (split : splitText quote seen text = some (body, rest)) : rest.length < text.length := by
  fun_induction splitText quote seen text <;> simp_all <;> omega

theorem splitTemplate_shorter {seen text body rest : List Char}
    (split : splitTemplate seen text = some (body, rest)) : rest.length < text.length := by
  fun_induction splitTemplate seen text <;> simp_all <;> omega

theorem cutComment_shorter {text : List Char} {result : Cut}
    (cuts : cutComment text = .ok result) : result.rest.length < text.length := by
  unfold cutComment at cuts
  split at cuts
  · contradiction
  · next split => cases cuts; exact splitComment_shorter split

theorem cutText_shorter {quote : Char} {text : List Char} {result : Cut}
    (cuts : cutText quote text = .ok result) : result.rest.length < text.length := by
  unfold cutText at cuts
  split at cuts
  · contradiction
  · next split => cases cuts; exact splitText_shorter split

theorem cutTemplate_shorter {text : List Char} {result : Cut}
    (cuts : cutTemplate text = .ok result) : result.rest.length < text.length := by
  unfold cutTemplate at cuts
  split at cuts
  · contradiction
  · next split => cases cuts; exact splitTemplate_shorter split

theorem length_dropWhile_le (part : Char → Bool) (text : List Char) :
    (text.dropWhile part).length ≤ text.length :=
  (List.dropWhile_sublist part).length_le

theorem cutMark_le (c : Char) (text : List Char) : (cutMark c text).rest.length ≤ text.length := by
  unfold cutMark
  split <;> try split
  all_goals simp <;> omega

theorem cut_le {c : Char} {text : List Char} {result : Cut} (cuts : cut c text = .ok result) :
    result.rest.length ≤ text.length := by
  unfold cut at cuts
  repeat' split at cuts
  · cases cuts; exact Nat.le_refl _
  · cases cuts; exact length_dropWhile_le _ text
  · have := cutComment_shorter cuts
    have := List.length_tail (l := text)
    omega
  · exact Nat.le_of_lt (cutText_shorter cuts)
  · exact Nat.le_of_lt (cutTemplate_shorter cuts)
  · cases cuts; exact length_dropWhile_le _ text
  · cases cuts; exact length_dropWhile_le _ text
  · cases cuts; exact cutMark_le c text

/-- The documentation that a comment gives, or the one that was pending before it. -/
def documentation (pending : Option String) (body : List Char) : Option String :=
  match body with
  | '*' :: doc => some (String.ofList doc)
  | _ => pending

/-- The tokens of the rest of a source, behind the reversed tokens seen so far. -/
def tokensAfter (seen : List Located) (pending : Option String) (position : Nat)
    (text : List Char) : Except SourceError TokenStream :=
  match text with
  | [] => .ok ⟨seen.reverse, position, pending⟩
  | c :: rest =>
      match cuts : cut c rest with
      | .error unclosed => .error (unclosed.toError position)
      | .ok result =>
          have := cut_le cuts
          match result.lexeme with
          | .blank => tokensAfter seen pending (position + result.size) result.rest
          | .comment body =>
              tokensAfter seen (documentation pending body) (position + result.size) result.rest
          | .token token =>
              tokensAfter (⟨token, position, pending⟩ :: seen) none (position + result.size)
                result.rest
termination_by text.length
decreasing_by all_goals exact Nat.lt_succ_of_le this

def tokenize (source : String) : Except SourceError TokenStream :=
  if maximumSourceSize < source.utf8ByteSize then
    .error (.inputTooLarge maximumSourceSize source.utf8ByteSize)
  else tokensAfter [] none 0 source.toList

end Toggles.Declaration
