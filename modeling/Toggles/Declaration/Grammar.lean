import Toggles.Declaration.Numeral
import Toggles.Declaration.Reading

/-! The grammar of types and object bodies.

Every rule is given the readers of the level below it: a type or an object body
inside another one is read with one unit of nesting less. The readers of all
levels are then a recursion on the units that are left, and the rules themselves
only loop over tokens.

    type         = union ["extends" union "?" type ":" type]
    union        = ["|"] intersection {"|" intersection}
    intersection = ["&"] postfix {"&" postfix}
    postfix      = {"keyof" | "unique" | "readonly"} primary {"[" "]" | "[" … "]"}
-/

set_option autoImplicit false

namespace Toggles.Declaration

/-- The readers of what is enclosed. -/
structure Level where
  type : Reader TypeExpr
  body : Reader (List Member)

namespace Level

variable (inner : Level)

/-- Whether a group of parentheses that is open `depth` times is followed by an arrow. -/
def arrowAfterGroup (depth : Nat) : List Located → Bool
  | [] => false
  | first :: rest =>
      if first.token = .mark .openParen then arrowAfterGroup (depth + 1) rest
      else if first.token = .mark .closeParen then
        if depth ≤ 1 then startsWith .arrow rest else arrowAfterGroup (depth - 1) rest
      else arrowAfterGroup depth rest

def dottedAfter (name : String) (bound : Nat) (tokens : List Located)
    (within : tokens.length < bound) : Outcome String bound :=
  match tokens with
  | [] => .ok ⟨name, [], within⟩
  | first :: rest =>
      if first.token = .mark .dot then
        match rest with
        | ⟨.word part, _, _⟩ :: rest =>
            dottedAfter (name ++ "." ++ part) bound rest (Nat.lt_of_succ_lt (Nat.lt_of_succ_lt within))
        | rest => refuse "type name after `.`" rest
      else .ok ⟨name, first :: rest, within⟩

def dottedName : Reader String := fun tokens => do
  let first ← expectWord "type name" tokens
  dottedAfter first.value tokens.length first.rest first.within

def argumentsAfter (seen : List TypeExpr) (bound : Nat) (tokens : List Located)
    (within : tokens.length ≤ bound) : Outcome (List TypeExpr) bound := do
  let argument ← inner.type tokens
  if startsWith .comma argument.rest then
    argumentsAfter (argument.value :: seen) bound argument.rest.tail
      (by have := argument.within; simp; omega)
  else
    let close ← expect .closeAngle "`>` closing type arguments" argument.rest
    return ⟨(argument.value :: seen).reverse, close.rest,
      by have := argument.within; have := close.within; omega⟩
termination_by tokens.length
decreasing_by have := argument.within; simp; omega

def reference : Reader TypeExpr := fun tokens => do
  let name ← dottedName tokens
  if startsWith .openAngle name.rest then
    let arguments ← inner.argumentsAfter [] name.rest.length name.rest.tail (by simp)
    return (arguments.widen (Nat.le_of_lt name.within)).map (.reference name.value)
  else return name.map (.reference · [])

def skipLabel : List Located → List Located
  | ⟨.word name, position, doc⟩ :: rest =>
      if startsWith .colon rest then rest.tail
      else if startsWith .question rest && startsWith .colon rest.tail then rest.tail.tail
      else ⟨.word name, position, doc⟩ :: rest
  | tokens => tokens

theorem length_skipLabel_le (tokens : List Located) :
    (skipLabel tokens).length ≤ tokens.length := by
  unfold skipLabel
  repeat' split
  all_goals simp <;> omega

def itemsAfter (seen : List TypeExpr) (bound : Nat) (tokens : List Located)
    (within : tokens.length ≤ bound) : Outcome (List TypeExpr) bound := do
  if closed : startsWith .closeBracket tokens then
    return ⟨seen.reverse, tokens.tail, Nat.lt_of_lt_of_le (length_tail_lt closed) within⟩
  else
    let start := skipLabel (skip .ellipsis tokens)
    have := length_skipLabel_le (skip .ellipsis tokens)
    have := length_skip_le .ellipsis tokens
    let item ← inner.type start
    let after := skip .question item.rest
    have := length_skip_le .question item.rest
    if startsWith .comma after then
      itemsAfter (item.value :: seen) bound after.tail
        (by have := item.within; simp [after, start] at *; omega)
    else
      let close ← expect .closeBracket "`]` closing the tuple" after
      return ⟨(item.value :: seen).reverse, close.rest,
        by have := item.within; have := close.within; simp [after, start] at *; omega⟩
termination_by tokens.length
decreasing_by have := item.within; simp [after, start] at *; omega

def tuple : Reader TypeExpr := fun tokens => do
  let opening ← expect .openBracket "`[`" tokens
  let items ← inner.itemsAfter [] opening.rest.length opening.rest (Nat.le_refl _)
  return (items.widen (Nat.le_of_lt opening.within)).map .tuple

def skipTypeParameters (tokens : List Located) : Outcome Unit (tokens.length + 1) := do
  if startsWith .openAngle tokens then
    let group ← skipGroup .openAngle .closeAngle tokens
    return group.widen (by omega)
  else return ⟨(), tokens, by omega⟩

def function : Reader TypeExpr := fun tokens => do
  let generics ← skipTypeParameters tokens
  let parameters ← skipGroup .openParen .closeParen generics.rest
  let arrow ← expect .arrow "`=>` in function type" parameters.rest
  let result ← inner.type arrow.rest
  return ⟨.uninterpreted, result.rest, by
    have := generics.within; have := parameters.within
    have := arrow.within; have := result.within
    omega⟩

def numeral (negative : Bool) (raw : String) (position : Nat) : Except Refusal TypeExpr :=
  match numeralType? negative raw.toList with
  | some type => .ok type
  | none => .error (.invalidNumber (if negative then "-" ++ raw else raw) position)

def parenthesized : Reader TypeExpr := fun tokens => do
  let opening ← expect .openParen "`(`" tokens
  let content ← inner.type opening.rest
  let closing ← expect .closeParen "`)`" content.rest
  return ⟨content.value, closing.rest, by
    have := opening.within; have := content.within; have := closing.within
    omega⟩

def worded (word : String) (first : Located) (rest : List Located) :
    Outcome TypeExpr (rest.length + 1) :=
  if word = "true" then .ok ⟨.literal (.boolean true), rest, by omega⟩
  else if word = "false" then .ok ⟨.literal (.boolean false), rest, by omega⟩
  else if word = "typeof" then do
    let name ← dottedName rest
    return (name.widen (by omega)).map fun _ => .uninterpreted
  else if word = "infer" && startsWithAnyWord rest then
    .ok ⟨.uninterpreted, rest.tail, by simp only [List.length_tail]; omega⟩
  else if word = "new" then do
    let constructed ← inner.function rest
    return constructed.widen (by omega)
  else
    match Keyword.ofWord? word with
    | some keyword => .ok ⟨.keyword keyword, rest, by omega⟩
    | none => inner.reference (first :: rest)

def marked (mark : Mark) (first : Located) (rest : List Located) :
    Outcome TypeExpr (rest.length + 1) :=
  match mark with
  | .minus =>
      match rest with
      | ⟨.number raw, _, _⟩ :: rest => do
          return ⟨← numeral true raw first.position, rest, by simp only [List.length_cons]; omega⟩
      | rest => refuse "numeric literal after `-`" rest
  | .openBrace => do return (← inner.body (first :: rest)).map .object
  | .openBracket => inner.tuple (first :: rest)
  | .openParen =>
      if arrowAfterGroup 1 rest then inner.function (first :: rest)
      else inner.parenthesized (first :: rest)
  | .openAngle => inner.function (first :: rest)
  | _ => refuse "type" (first :: rest)

def primary : Reader TypeExpr
  | [] => refuse "type" []
  | first :: rest =>
      match first.token with
      | .word word => inner.worded word first rest
      | .quoted value => .ok ⟨.literal (.string value), rest, Reading.length_lt_cons first rest⟩
      | .number raw => do
          return ⟨← numeral false raw first.position, rest, Reading.length_lt_cons first rest⟩
      | .template _ => .ok ⟨.uninterpreted, rest, Reading.length_lt_cons first rest⟩
      | .mark mark => inner.marked mark first rest
      | .symbol _ => refuse "type" (first :: rest)

/-- Drop the operators before a type, and tell whether one of them hides the type. -/
def skipOperators (hidden : Bool) : List Located → Bool × List Located
  | [] => (hidden, [])
  | first :: rest =>
      if first.token = .word "keyof" ∨ first.token = .word "unique" then skipOperators true rest
      else if first.token = .word "readonly" then skipOperators hidden rest
      else (hidden, first :: rest)

theorem length_skipOperators_le (hidden : Bool) (tokens : List Located) :
    (skipOperators hidden tokens).2.length ≤ tokens.length := by
  fun_induction skipOperators hidden tokens <;> simp_all <;> omega

def suffixes (type : TypeExpr) (bound : Nat) (tokens : List Located)
    (within : tokens.length < bound) : Outcome TypeExpr bound := do
  if startsWith .openBracket tokens then
    if startsWith .closeBracket tokens.tail then
      suffixes (.array type) bound tokens.tail.tail (by simp; omega)
    else
      let group ← skipGroup .openBracket .closeBracket tokens
      suffixes .uninterpreted bound group.rest (by have := group.within; omega)
  else return ⟨type, tokens, within⟩
termination_by tokens.length
decreasing_by
  · rename_i opened _
    cases tokens
    · simp [startsWith] at opened
    · simp only [List.tail_cons, List.length_tail, List.length_cons]; omega
  · exact group.within

def suffixed : Reader TypeExpr := fun tokens => do
  let start := skipOperators false tokens
  let first ← inner.primary start.2
  let result ← suffixes first.value tokens.length first.rest
    (Nat.lt_of_lt_of_le first.within (length_skipOperators_le false tokens))
  return result.map fun type => if start.1 then .uninterpreted else type

def intersectionAfter (bound : Nat) (tokens : List Located) (within : tokens.length < bound) :
    Outcome TypeExpr bound := do
  if startsWith .ampersand tokens then
    let next ← inner.suffixed tokens.tail
    intersectionAfter bound next.rest (by have := next.within; simp at this; omega)
  else return ⟨.uninterpreted, tokens, within⟩
termination_by tokens.length
decreasing_by have := next.within; simp at this; omega

/-- Types with ampersands between them; more than one are uninterpreted. -/
def intersection : Reader TypeExpr := fun tokens => do
  let first ← inner.suffixed (skip .ampersand tokens)
  have within := Nat.lt_of_lt_of_le first.within (length_skip_le .ampersand tokens)
  if startsWith .ampersand first.rest then
    inner.intersectionAfter tokens.length first.rest within
  else return ⟨first.value, first.rest, within⟩

def unionAfter (seen : List TypeExpr) (bound : Nat) (tokens : List Located)
    (within : tokens.length < bound) : Outcome (List TypeExpr) bound := do
  if startsWith .pipe tokens then
    let next ← inner.intersection tokens.tail
    unionAfter (next.value :: seen) bound next.rest (by have := next.within; simp at this; omega)
  else return ⟨seen.reverse, tokens, within⟩
termination_by tokens.length
decreasing_by have := next.within; simp at this; omega

/-- A union; of a single member it is the member. -/
def unionOf : List TypeExpr → TypeExpr
  | [member] => member
  | members => .union members

def union : Reader TypeExpr := fun tokens => do
  let first ← inner.intersection (skip .pipe tokens)
  let members ← inner.unionAfter [first.value] tokens.length first.rest
    (Nat.lt_of_lt_of_le first.within (length_skip_le .pipe tokens))
  return members.map unionOf

/-- A type; one that depends on a condition is uninterpreted. -/
def conditional : Reader TypeExpr := fun tokens => do
  let check ← inner.union tokens
  if startsWithWord "extends" check.rest then
    let constraint ← inner.union check.rest.tail
    let question ← expect .question "`?` in conditional type" constraint.rest
    let whenTrue ← inner.type question.rest
    let colon ← expect .colon "`:` in conditional type" whenTrue.rest
    let whenFalse ← inner.type colon.rest
    return ⟨.uninterpreted, whenFalse.rest, by
      have := check.within; have := constraint.within; have := question.within
      have := whenTrue.within; have := colon.within; have := whenFalse.within
      simp at *; omega⟩
  else return check

def skipAnnotation (tokens : List Located) : Outcome Unit (tokens.length + 1) := do
  if startsWith .colon tokens then
    let type ← inner.type tokens.tail
    return ⟨(), type.rest, by have := type.within; simp at this; omega⟩
  else return ⟨(), tokens, by omega⟩

def skipSignature : Reader Unit := fun tokens => do
  let generics ← skipTypeParameters tokens
  let parameters ← skipGroup .openParen .closeParen generics.rest
  let result ← inner.skipAnnotation parameters.rest
  return ⟨(), result.rest, by
    have := generics.within; have := parameters.within; have := result.within
    omega⟩

def skipIndexSignature : Reader Unit := fun tokens => do
  let index ← skipGroup .openBracket .closeBracket tokens
  let annotation ← inner.skipAnnotation (skip .question index.rest)
  return ⟨(), annotation.rest, by
    have := index.within; have := annotation.within
    have := length_skip_le .question index.rest
    omega⟩

/-- The first token can follow the word `readonly` where it modifies a member. -/
def startsMember : List Located → Bool
  | ⟨.word _, _, _⟩ :: _ | ⟨.quoted _, _, _⟩ :: _ | ⟨.number _, _, _⟩ :: _ => true
  | tokens => startsWith .openBracket tokens

def skipReadonly : List Located → List Located
  | [] => []
  | first :: rest =>
      if first.token = .word "readonly" && startsMember rest then skipReadonly rest
      else first :: rest

theorem length_skipReadonly_le (tokens : List Located) :
    (skipReadonly tokens).length ≤ tokens.length := by
  fun_induction skipReadonly tokens with
  | case1 => exact Nat.le_refl 0
  | case2 first rest modifies ih => exact Nat.le_succ_of_le ih
  | case3 first rest other => exact Nat.le_refl _

def startsSignature (tokens : List Located) : Bool :=
  startsWith .openParen tokens || startsWith .openAngle tokens

/-- The tokens that may follow a member without a type. -/
def endsMember (tokens : List Located) : Bool :=
  startsWith .semicolon tokens || startsWith .comma tokens || startsWith .closeBrace tokens

/-- A member after its name. A method is passed over. -/
def memberAfter (doc : Option String) (name : String) (tokens : List Located) :
    Outcome (Option Member) (tokens.length + 1) := do
  let optional := startsWith .question tokens
  let start := skip .question tokens
  have bound := length_skip_le .question tokens
  if startsWith .colon start then
    let type ← inner.type start.tail
    return (type.widen (Nat.le_succ_of_le (Nat.le_trans (length_tail_le start) bound))).map
      fun type => some ⟨name, optional, doc, type⟩
  else if startsSignature start then
    let signature ← inner.skipSignature start
    return (signature.widen (Nat.le_succ_of_le bound)).map fun _ => none
  else if endsMember start then
    return ⟨some ⟨name, optional, doc, .uninterpreted⟩, start, Nat.lt_succ_of_le bound⟩
  else refuse "`:` after property name" start

/-- A member at its name. What has no name is passed over. -/
def namedMember (doc : Option String) : Reader (Option Member)
  | [] => refuse "property name" []
  | first :: rest =>
      match first.token with
      | .word name =>
          if name = "new" && startsSignature rest then do
            let signature ← inner.skipSignature rest
            return (signature.map fun _ => none).widen (Reading.length_le_cons first rest)
          else inner.memberAfter doc name rest
      | .number name | .quoted name => inner.memberAfter doc name rest
      | .mark .openBracket => do
          return (← inner.skipIndexSignature (first :: rest)).map fun _ => none
      | .mark .openParen | .mark .openAngle => do
          return (← inner.skipSignature (first :: rest)).map fun _ => none
      | _ => refuse "property name" (first :: rest)

/-- A member, with the documentation of its first token. -/
def member : Reader (Option Member) := fun tokens => do
  let named ← inner.namedMember (tokens.head?.bind (·.doc)) (skipReadonly tokens)
  return named.widen (length_skipReadonly_le tokens)

def skipSeparators (tokens : List Located) : List Located :=
  tokens.dropWhile fun first =>
    first.token = .mark .semicolon || first.token = .mark .comma

theorem length_skipSeparators_le (tokens : List Located) :
    (skipSeparators tokens).length ≤ tokens.length :=
  (List.dropWhile_sublist _).length_le

def membersAfter (seen : List Member) (bound : Nat) (tokens : List Located)
    (within : tokens.length ≤ bound) : Outcome (List Member) bound := do
  have shorter := length_skipSeparators_le tokens
  match start : skipSeparators tokens with
  | [] => refuse "`\x7d` closing the object type" []
  | first :: rest =>
      if first.token = .mark .closeBrace then
        return ⟨seen.reverse, rest, by simp [start] at shorter; omega⟩
      else
        let next ← inner.member (first :: rest)
        membersAfter (next.value.toList ++ seen) bound next.rest
          (by have := next.within; simp [start] at *; omega)
termination_by tokens.length
decreasing_by have := next.within; simp [start] at *; omega

def objectBody : Reader (List Member) := fun tokens => do
  let opening ← expect .openBrace "`\x7b`" tokens
  let members ← inner.membersAfter [] opening.rest.length opening.rest (Nat.le_refl _)
  return members.widen (Nat.le_of_lt opening.within)

/-- The level whose readers have no nesting left. -/
def exhausted : Level :=
  ⟨fun tokens => .error (.tooDeep tokens.head?), fun tokens => .error (.tooDeep tokens.head?)⟩

/-- The readers with a number of units of nesting left. -/
def ofNesting : Nat → Level
  | 0 => exhausted
  | units + 1 => ⟨(ofNesting units).conditional, (ofNesting units).objectBody⟩

end Level

end Toggles.Declaration
