import Toggles.Numeric.Binary64

/-! Decimal number texts and the binary64 number nearest to each.

A text is split once into sign, whole part, fraction and exponent. The grammars
that accept a number differ only in which of these parts may be missing.
-/

set_option autoImplicit false

namespace Toggles.Numeric

/-- The number `coefficient * 10 ^ exponent`, negated when `negative` is set. -/
structure Decimal where
  negative : Bool
  coefficient : Nat
  exponent : Int
  deriving DecidableEq, Repr

def ofDigits (digits : List Char) : Nat :=
  digits.foldl (fun value digit => value * 10 + (digit.toNat - '0'.toNat)) 0

namespace Decimal

/-- Round to the nearest binary64 number. Exponents far outside the range of the
format are settled without building the power of ten. -/
def toBinary64? (decimal : Decimal) : Option Binary64 :=
  if decimal.coefficient = 0 then some (.zero decimal.negative)
  else if 400 < decimal.exponent then none
  else if (Nat.log2 decimal.coefficient : Int) + 1 + 3 * decimal.exponent < -1100 then
    some (.zero decimal.negative)
  else
    let (numerator, denominator) := scaleRatio 10 decimal.exponent decimal.coefficient 1
    Binary64.ofRatio? decimal.negative numerator denominator

end Decimal

/-- A number text taken apart; missing parts are `none` or empty. -/
structure NumberText where
  sign : Option Char
  whole : List Char
  fraction : Option (List Char)
  exponent : Option (Option Char × List Char)
  deriving DecidableEq, Repr

namespace NumberText

def isSign (c : Char) : Bool :=
  c == '+' || c == '-'

def splitSign : List Char → Option Char × List Char
  | c :: rest => if isSign c then (some c, rest) else (none, c :: rest)
  | [] => (none, [])

/-- An exponent part that reaches to the end of the text. -/
def splitExponent : List Char → Option (Option (Option Char × List Char))
  | [] => some none
  | mark :: rest =>
      if mark == 'e' || mark == 'E' then
        let (sign, digits) := splitSign rest
        if digits.all Char.isDigit then some (some (sign, digits)) else none
      else none

def split? (text : List Char) : Option NumberText :=
  let (sign, unsigned) := splitSign text
  let whole := unsigned.takeWhile Char.isDigit
  match unsigned.dropWhile Char.isDigit with
  | '.' :: rest =>
      (splitExponent (rest.dropWhile Char.isDigit)).map fun exponent =>
        ⟨sign, whole, some (rest.takeWhile Char.isDigit), exponent⟩
  | rest => (splitExponent rest).map fun exponent => ⟨sign, whole, none, exponent⟩

def hasExponentDigits (text : NumberText) : Bool :=
  match text.exponent with
  | none => true
  | some (_, digits) => !digits.isEmpty

/-- Digits on at least one side of the point, and in the exponent if there is one. -/
def isLenient (text : NumberText) : Bool :=
  !(text.whole.isEmpty && (text.fraction.getD []).isEmpty) && text.hasExponentDigits

/-- No plus sign and no leading zeros; digits on both sides of a point. -/
def isStrict (text : NumberText) : Bool :=
  text.sign != some '+' && !text.whole.isEmpty &&
    (text.whole.head? != some '0' || text.whole.tail.isEmpty) &&
    !(text.fraction == some []) && text.hasExponentDigits

def isWhole (text : NumberText) : Bool :=
  text.fraction.isNone && text.exponent.isNone

def isNegative (text : NumberText) : Bool :=
  text.sign == some '-'

def exponentValue (text : NumberText) : Int :=
  match text.exponent with
  | none => 0
  | some (sign, digits) =>
      if sign == some '-' then -(ofDigits digits : Int) else ofDigits digits

def toDecimal (text : NumberText) : Decimal :=
  let fraction := text.fraction.getD []
  ⟨text.isNegative, ofDigits (text.whole ++ fraction), text.exponentValue - fraction.length⟩

end NumberText

end Toggles.Numeric
