import Toggles.Json.Basic
import Toggles.Text.Hexadecimal

/-! The lexemes of JSON text.

Text is split into brackets, separators and scalars without regard to their
arrangement. A string is decoded and a number is rounded as it is read.
-/

set_option autoImplicit false

namespace Toggles.Json

open Numeric (NumberText)

inductive Token where
  | openBracket
  | closeBracket
  | openBrace
  | closeBrace
  | comma
  | colon
  | text (value : String)
  | scalar (value : Json)
  deriving Repr

def isBlank (c : Char) : Bool :=
  c == ' ' || c == '\t' || c == '\n' || c == '\r'

def unescape? : Char → Option Char
  | '"' => some '"'
  | '\\' => some '\\'
  | '/' => some '/'
  | 'b' => some '\x08'
  | 'f' => some '\x0c'
  | 'n' => some '\n'
  | 'r' => some '\r'
  | 't' => some '\t'
  | _ => none

def isHighSurrogate (unit : Nat) : Bool :=
  0xD800 ≤ unit && unit < 0xDC00

def isLowSurrogate (unit : Nat) : Bool :=
  0xDC00 ≤ unit && unit < 0xE000

/-- Read a string up to its closing quotation mark. Surrogate escapes are taken
only in pairs, and control characters have to be escaped. -/
def readText (seen : List Char) : List Char → Option (String × List Char)
  | [] => none
  | '"' :: rest => some (String.ofList seen.reverse, rest)
  | '\\' :: 'u' :: a :: b :: c :: d :: rest =>
      match Text.hexDigits? [a, b, c, d] with
      | none => none
      | some unit =>
          if isLowSurrogate unit then none
          else if isHighSurrogate unit then
            match rest with
            | '\\' :: 'u' :: e :: f :: g :: h :: rest =>
                match Text.hexDigits? [e, f, g, h] with
                | none => none
                | some low =>
                    if isLowSurrogate low then
                      readText
                        (Char.ofNat (0x10000 + (unit - 0xD800) * 0x400 + (low - 0xDC00)) :: seen)
                        rest
                    else none
            | _ => none
          else readText (Char.ofNat unit :: seen) rest
  | '\\' :: c :: rest =>
      match unescape? c with
      | none => none
      | some plain => readText (plain :: seen) rest
  | c :: rest => if c.toNat < 0x20 then none else readText (c :: seen) rest

/-- Reading a string consumes at least its closing quotation mark. -/
theorem readText_shorter {seen text rest : List Char} {value : String}
    (read : readText seen text = some (value, rest)) : rest.length < text.length := by
  fun_induction readText seen text <;> simp_all <;> omega

/-- A character of a number, or of what is mistaken for one. -/
def isNumberChar (c : Char) : Bool :=
  c.isDigit || c == '-' || c == '+' || c == '.' || c == 'e' || c == 'E'

/-- The value of a number text. Whole numbers that fit sixty-four bits are
integers; negative zero and all others are rounded. -/
def number? (text : List Char) : Option Json := do
  let parts ← NumberText.split? text
  if !parts.isStrict then none
  else
    let magnitude := Numeric.ofDigits parts.whole
    if parts.isWhole && !parts.isNegative && decide (magnitude < Nat.pow 2 64) then
      return .int magnitude
    else if parts.isWhole && parts.isNegative &&
        decide (0 < magnitude ∧ magnitude ≤ Nat.pow 2 63) then
      return .int (-(magnitude : Int))
    else
      let value ← parts.toDecimal.toBinary64?
      return .float value

theorem length_dropWhile_le (p : Char → Bool) (text : List Char) :
    (text.dropWhile p).length ≤ text.length :=
  (List.dropWhile_sublist p).length_le

def tokensAfter (seen : List Token) (text : List Char) : Option (List Token) :=
  match text with
  | [] => some seen.reverse
  | '[' :: rest => tokensAfter (.openBracket :: seen) rest
  | ']' :: rest => tokensAfter (.closeBracket :: seen) rest
  | '{' :: rest => tokensAfter (.openBrace :: seen) rest
  | '}' :: rest => tokensAfter (.closeBrace :: seen) rest
  | ',' :: rest => tokensAfter (.comma :: seen) rest
  | ':' :: rest => tokensAfter (.colon :: seen) rest
  | 't' :: 'r' :: 'u' :: 'e' :: rest => tokensAfter (.scalar (.bool true) :: seen) rest
  | 'f' :: 'a' :: 'l' :: 's' :: 'e' :: rest => tokensAfter (.scalar (.bool false) :: seen) rest
  | 'n' :: 'u' :: 'l' :: 'l' :: rest => tokensAfter (.scalar .null :: seen) rest
  | '"' :: rest =>
      match read : readText [] rest with
      | none => none
      | some (value, after) =>
          have := readText_shorter read
          tokensAfter (.text value :: seen) after
  | c :: rest =>
      if isBlank c then tokensAfter seen rest
      else if isNumberChar c then
        match number? (c :: rest.takeWhile isNumberChar) with
        | none => none
        | some value =>
            have := length_dropWhile_le isNumberChar rest
            tokensAfter (.scalar value :: seen) (rest.dropWhile isNumberChar)
      else none
termination_by text.length
decreasing_by all_goals simp_all <;> omega

def tokens? (text : List Char) : Option (List Token) :=
  tokensAfter [] text

end Toggles.Json
