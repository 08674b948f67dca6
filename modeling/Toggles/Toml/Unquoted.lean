import Toggles.Numeric.Decimal
import Toggles.Text.Hexadecimal
import Toggles.Toml.Basic
import Toggles.Toml.Text

/-! Values that are written without quotes: truth values, numbers, dates and times.

Of numbers, dates and times only the form is checked; they are kept as written.
-/

set_option autoImplicit false

namespace Toggles.Toml

open Numeric (NumberText ofDigits)

/-- Underscores stand only between digits. -/
def isSpaced (digit : Char → Bool) : List Char → Bool
  | [] => true
  | '_' :: _ => false
  | a :: '_' :: b :: rest => digit a && digit b && isSpaced digit (b :: rest)
  | [_, '_'] => false
  | _ :: rest => isSpaced digit rest

def isDigitRun (digit : Char → Bool) (text : List Char) : Bool :=
  text.all (fun c => digit c || c == '_') && isSpaced digit text

def isHexDigit (c : Char) : Bool :=
  (Text.hexValue? c).isSome

def isOctalDigit (c : Char) : Bool :=
  '0' ≤ c && c ≤ '7'

def isBinaryDigit (c : Char) : Bool :=
  c == '0' || c == '1'

/-- A decimal number without sign: no leading zeros, digits on both sides of a point
and in the exponent. -/
def isDecimal (text : List Char) : Bool :=
  isSpaced Char.isDigit text &&
    ((NumberText.split? (text.filter (· != '_'))).any fun parts =>
      parts.sign.isNone && parts.isStrict)

def isFloatMark (c : Char) : Bool :=
  c == '.' || c == 'e' || c == 'E'

/-- An integer whose first digits are followed by an underscore. Of what comes after
them only the neighbours of underscores are checked. -/
def isUnderscored (text : List Char) : Bool :=
  text.head? != some '0' && (text.takeWhile Char.isDigit != []) &&
    (text.dropWhile Char.isDigit).head? == some '_' &&
    !text.any isFloatMark && isSpaced isHexDigit text

/-- A number. Only decimal ones and the special ones have a sign. -/
def isNumber : List Char → Bool
  | '0' :: 'x' :: digits => isDigitRun isHexDigit digits
  | '0' :: 'o' :: digits => isDigitRun isOctalDigit digits
  | '0' :: 'b' :: digits => isDigitRun isBinaryDigit digits
  | text =>
      let unsigned := (NumberText.splitSign text).2
      unsigned == ['i', 'n', 'f'] || unsigned == ['n', 'a', 'n'] || isDecimal unsigned ||
        isUnderscored unsigned

def twoDigits? (a b : Char) : Option Nat :=
  if a.isDigit && b.isDigit then some (ofDigits [a, b]) else none

def isLeapYear (year : Nat) : Bool :=
  year % 4 == 0 && (year % 100 != 0 || year % 400 == 0)

def daysInMonth (year month : Nat) : Nat :=
  if month = 2 then if isLeapYear year then 29 else 28
  else if month = 4 ∨ month = 6 ∨ month = 9 ∨ month = 11 then 30
  else 31

def afterDate? : List Char → Option (List Char)
  | a :: b :: c :: d :: '-' :: e :: f :: '-' :: g :: h :: rest => do
      let century ← twoDigits? a b
      let year ← twoDigits? c d
      let month ← twoDigits? e f
      let day ← twoDigits? g h
      if 1 ≤ month ∧ month ≤ 12 ∧ 1 ≤ day ∧ day ≤ daysInMonth (century * 100 + year) month then
        return rest
      else none
  | _ => none

def afterMinutes? : List Char → Option (List Char)
  | a :: b :: ':' :: c :: d :: rest => do
      let hour ← twoDigits? a b
      let minute ← twoDigits? c d
      if hour ≤ 23 ∧ minute ≤ 59 then return rest else none
  | _ => none

def afterFraction? : List Char → Option (List Char)
  | '.' :: digit :: rest => if digit.isDigit then some (rest.dropWhile Char.isDigit) else none
  | rest => some rest

/-- What follows a time of day. Seconds may be left out. -/
def afterTime? (text : List Char) : Option (List Char) := do
  match ← afterMinutes? text with
  | ':' :: a :: b :: rest =>
      let second ← twoDigits? a b
      if second ≤ 60 then afterFraction? rest else none
  | rest => return rest

/-- Nothing, or the distance from universal time. -/
def isOffset : List Char → Bool
  | [] => true
  | ['Z'] | ['z'] => true
  | c :: rest => NumberText.isSign c && afterMinutes? rest == some []

def isTimeMark (c : Char) : Bool :=
  c == 'T' || c == 't' || c == ' '

/-- A date, a time, or both, which then may have an offset. -/
def isMoment (text : List Char) : Bool :=
  match afterDate? text with
  | some [] => true
  | some (mark :: rest) => isTimeMark mark && ((afterTime? rest).any isOffset)
  | none => afterTime? text == some []

def isDelimiter (c : Char) : Bool :=
  c == '=' || c == ',' || c == '[' || c == ']' || c == '\x7b' || c == '\x7d' || c == '#' ||
    c == '\n' || c == '\r' || isBlank c

def isUnquotedPart (c : Char) : Bool :=
  !isDelimiter c

def unquotedValue? (run : List Char) : Option Toml :=
  if run == ['t', 'r', 'u', 'e'] then some (.bool true)
  else if run == ['f', 'a', 'l', 's', 'e'] then some (.bool false)
  else if isNumber run || isMoment run then some (.unquoted (String.ofList run))
  else none

/-- The run at the front of a text. A blank may stand between a date and a time. -/
def splitUnquoted (text : List Char) : List Char × List Char :=
  let run := text.takeWhile isUnquotedPart
  match text.dropWhile isUnquotedPart with
  | ' ' :: digit :: rest =>
      if digit.isDigit && afterDate? run == some [] then
        (run ++ ' ' :: digit :: rest.takeWhile isUnquotedPart, rest.dropWhile isUnquotedPart)
      else (run, ' ' :: digit :: rest)
  | rest => (run, rest)

theorem length_splitUnquoted_le (text : List Char) :
    (splitUnquoted text).2.length ≤ (text.dropWhile isUnquotedPart).length := by
  unfold splitUnquoted
  split
  · next digit rest same =>
    dsimp only
    split
    · have := (List.dropWhile_sublist (l := rest) isUnquotedPart).length_le
      simp only [same, List.length_cons]
      omega
    · exact Nat.le_of_eq (congrArg List.length same.symm)
  · exact Nat.le_refl _

def bare : Reader Toml
  | [] => none
  | c :: rest =>
      if starts : isUnquotedPart c then
        match cut : splitUnquoted (c :: rest) with
        | (run, after) =>
            (unquotedValue? run).map (⟨·, after, by
              have first := length_splitUnquoted_le (c :: rest)
              rw [List.dropWhile_cons_of_pos starts, cut] at first
              exact Nat.lt_succ_of_le
                (Nat.le_trans first (List.dropWhile_sublist isUnquotedPart).length_le)⟩)
      else none

end Toggles.Toml
