import Toggles.Declaration.Tree

/-! Numbers as literal types.

A numeral may have separators between its digits and a prefix for base sixteen,
eight or two. Integers beyond sixty-four bits become binary64 numbers in decimal
and are refused in the other bases.
-/

set_option autoImplicit false

namespace Toggles.Declaration

open Numeric (NumberText)

def digitValue? (base : Nat) (c : Char) : Option Nat :=
  let value :=
    if c.isDigit then c.toNat - '0'.toNat
    else if c.isLower then c.toNat - 'a'.toNat + 10
    else if c.isUpper then c.toNat - 'A'.toNat + 10
    else base
  if value < base then some value else none

/-- The value of at least one digit in a base. -/
def digitsValue? (base : Nat) (digits : List Char) : Option Nat :=
  if digits.isEmpty then none
  else digits.foldlM (fun value c => (digitValue? base c).map (value * base + ·)) 0

def splitBase? : List Char → Option (Nat × List Char)
  | '0' :: mark :: digits =>
      if mark = 'x' ∨ mark = 'X' then some (16, digits)
      else if mark = 'o' ∨ mark = 'O' then some (8, digits)
      else if mark = 'b' ∨ mark = 'B' then some (2, digits)
      else none
  | _ => none

def signed (negative : Bool) (magnitude : Nat) : Int :=
  if negative then -(magnitude : Int) else magnitude

/-- An integer literal, if its magnitude is below `2 ^ 63`. -/
def integerLiteral? (negative : Bool) (magnitude : Nat) : Option Literal :=
  if magnitude < Nat.pow 2 63 then some (.integer (signed negative magnitude)) else none

def decimalLiteral? (negative : Bool) (digits : List Char) : Option Literal := do
  let parts ← NumberText.split? digits
  if !parts.isLenient then none
  else
    let value ← { parts.toDecimal with negative := negative }.toBinary64?
    return .decimal value

def numeral? (negative : Bool) (raw : List Char) : Option Literal :=
  let digits := raw.filter (· != '_')
  match splitBase? digits with
  | some (base, digits) => do integerLiteral? negative (← digitsValue? base digits)
  | none =>
      match (digitsValue? 10 digits).bind (integerLiteral? negative) with
      | some literal => some literal
      | none => decimalLiteral? negative digits

/-- The type of a numeral. One that ends in `n` has no counterpart in a schema. -/
def numeralType? (negative : Bool) (raw : List Char) : Option TypeExpr :=
  if raw.getLast? = some 'n' then some .uninterpreted
  else (numeral? negative raw).map .literal

end Toggles.Declaration
