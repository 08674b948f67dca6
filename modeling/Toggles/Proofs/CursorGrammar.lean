import Toggles.Declaration.Source
import Toggles.Proofs.Calls

/-! The grammar of declarations as routines at a cursor.

Each rule is a routine, and so is each of its loops: one iteration does its part and calls the loop
again. A type or an object body inside another one is called as nested. Nothing here says that the
routines come to an end.
-/

set_option autoImplicit false

namespace Toggles.Declaration

inductive Rule where
  | file
  | interface
  | heading
  | objectBody
  | members
  | separators
  | member
  | modifiers
  | signature
  | type
  | conditional
  | union
  | unionMembers
  | intersection
  | intersectionMembers
  | suffixed
  | operators
  | suffixes
  | primary
  | reference
  | arguments
  | dottedName
  | dottedParts
  | tuple
  | items
  | function
  | arrowAhead
  | group
  | groupEnd
  deriving DecidableEq, Repr

namespace Rule

/-- The state of a loop, or what a rule is told. -/
@[reducible]
def Argument : Rule → Type
  | file => List Interface × Nat
  | heading => Nat
  | members => List Member
  | unionMembers | arguments | items => List TypeExpr
  | operators => Bool
  | suffixes => TypeExpr
  | dottedParts => String
  | arrowAhead => Nat × Nat
  | group => Mark × Mark
  | groupEnd => (Mark × Mark) × Nat × Nat
  | _ => Unit

@[reducible]
def Result : Rule → Type
  | file => SourceFile
  | interface => Interface
  | objectBody | members => List Member
  | member => Option Member
  | type | conditional | union | intersection | intersectionMembers | suffixed | suffixes | primary
  | reference | tuple | function => TypeExpr
  | unionMembers | arguments | items => List TypeExpr
  | operators | arrowAhead => Bool
  | dottedName | dottedParts => String
  | heading | separators | modifiers | signature | group | groupEnd => Unit

end Rule

@[reducible]
def grammar : Routines :=
  ⟨Rule, Rule.Argument, Rule.Result⟩

namespace Rule

open Program

@[reducible]
def call (rule : Rule) (argument : rule.Argument) : Program grammar rule.Result :=
  @Program.call grammar rule argument

@[reducible]
def nest (position : Nat) (rule : Rule) (argument : rule.Argument) : Program grammar rule.Result :=
  @Program.nest grammar position rule argument

def typeParameters : Program grammar Unit := do
  if ← isAt .openAngle then call .group (.openAngle, .closeAngle) else return ()

def annotation : Program grammar Unit := do
  if ← take .colon then
    let _ ← call .type ()
    return ()
  else return ()

def fileBody (seen : List Interface) (depth : Nat) : Program grammar SourceFile := do
  match ← current with
  | .token located =>
      if opensGroup located.token then
        move
        call .file (seen, depth + 1)
      else if closesGroup located.token then
        move
        call .file (seen, depth - 1)
      else if located.token = .word "interface" && depth == 0 && (← look 1).isAnyWord then
        let declared ← call .interface ()
        call .file (declared :: seen, depth)
      else
        move
        call .file (seen, depth)
  | .stop _ _ | .beyond => return ⟨seen.reverse⟩

def interfaceBody : Program grammar Interface := do
  move
  let name ← takeWord "interface name"
  call .heading 0
  let members ← call .objectBody ()
  return ⟨name, members⟩

def headingBody (angles : Nat) : Program grammar Unit := do
  match ← current with
  | .token located =>
      if located.token = .mark .openBrace ∧ angles = 0 then return ()
      else if located.token = .mark .openAngle then
        move
        call .heading (angles + 1)
      else if located.token = .mark .closeAngle then
        move
        call .heading (angles - 1)
      else
        move
        call .heading angles
  | .stop _ _ | .beyond => unexpected "`\x7b` opening the interface body"

def objectBodyBody : Program grammar (List Member) := do
  let position := (← current).position
  takeMark .openBrace "`\x7b`"
  nest position .members []

def membersBody (seen : List Member) : Program grammar (List Member) := do
  call .separators ()
  match ← current with
  | .token located =>
      if located.token = .mark .closeBrace then
        move
        return seen.reverse
      else
        let member ← call .member ()
        call .members (member.toList ++ seen)
  | .stop _ _ | .beyond => unexpected "`\x7d` closing the object type"

def separatorsBody : Program grammar Unit := do
  if ← take .semicolon then call .separators ()
  else do
    if ← take .comma then call .separators () else return ()

def indexSignature : Program grammar Unit := do
  call .group (.openBracket, .closeBracket)
  let _ ← take .question
  annotation

def property (doc : Option String) (name : String) : Program grammar (Option Member) := do
  move
  let optional ← take .question
  let sight ← current
  if sight.isMark .colon then
    move
    let type ← call .type ()
    return some ⟨name, optional, doc, type⟩
  else if sight.isMark .openParen || sight.isMark .openAngle then
    call .signature ()
    return none
  else if sight.isMark .semicolon || sight.isMark .comma || sight.isMark .closeBrace then
    return some ⟨name, optional, doc, .uninterpreted⟩
  else unexpected "`:` after property name"

def named (doc : Option String) : Program grammar (Option Member) := do
  match ← current with
  | .token located =>
      match located.token with
      | .word name =>
          let behind ← look 1
          if name = "new" && (behind.isMark .openParen || behind.isMark .openAngle) then
            move
            call .signature ()
            return none
          else property doc name
      | .number name | .quoted name => property doc name
      | .mark .openBracket =>
          indexSignature
          return none
      | .mark .openParen | .mark .openAngle =>
          call .signature ()
          return none
      | _ => unexpected "property name"
  | .stop _ _ | .beyond => unexpected "property name"

def memberBody : Program grammar (Option Member) := do
  let doc := (← current).doc
  call .modifiers ()
  named doc

def startsMember : Sight → Bool
  | .token ⟨.word _, _, _⟩ | .token ⟨.quoted _, _, _⟩ | .token ⟨.number _, _, _⟩ => true
  | sight => sight.isMark .openBracket

def modifiersBody : Program grammar Unit := do
  if (← current).isWord "readonly" && startsMember (← look 1) then
    move
    call .modifiers ()
  else return ()

def signatureBody : Program grammar Unit := do
  typeParameters
  call .group (.openParen, .closeParen)
  annotation

def typeBody : Program grammar TypeExpr := do
  let position := (← current).position
  nest position .conditional ()

def conditionalBody : Program grammar TypeExpr := do
  let check ← call .union ()
  if (← current).isWord "extends" then
    move
    let _ ← call .union ()
    takeMark .question "`?` in conditional type"
    let _ ← call .type ()
    takeMark .colon "`:` in conditional type"
    let _ ← call .type ()
    return .uninterpreted
  else return check

def unionBody : Program grammar TypeExpr := do
  let _ ← take .pipe
  let first ← call .intersection ()
  let members ← call .unionMembers [first]
  return Level.unionOf members

def unionMembersBody (seen : List TypeExpr) : Program grammar (List TypeExpr) := do
  if ← take .pipe then
    let next ← call .intersection ()
    call .unionMembers (next :: seen)
  else return seen.reverse

def intersectionBody : Program grammar TypeExpr := do
  let _ ← take .ampersand
  let first ← call .suffixed ()
  if ← isAt .ampersand then call .intersectionMembers () else return first

def intersectionMembersBody : Program grammar TypeExpr := do
  if ← take .ampersand then
    let _ ← call .suffixed ()
    call .intersectionMembers ()
  else return .uninterpreted

def suffixedBody : Program grammar TypeExpr := do
  let hidden ← call .operators false
  let first ← call .primary ()
  let type ← call .suffixes first
  return if hidden then .uninterpreted else type

def operatorsBody (hidden : Bool) : Program grammar Bool := do
  let sight ← current
  if sight.isWord "keyof" || sight.isWord "unique" then
    move
    call .operators true
  else if sight.isWord "readonly" then
    move
    call .operators hidden
  else return hidden

def suffixesBody (type : TypeExpr) : Program grammar TypeExpr := do
  if ← isAt .openBracket then
    if (← look 1).isMark .closeBracket then
      move
      move
      call .suffixes (.array type)
    else
      call .group (.openBracket, .closeBracket)
      call .suffixes .uninterpreted
  else return type

def numeral (negative : Bool) (raw : String) (position : Nat) : Program grammar TypeExpr :=
  match numeralType? negative raw.toList with
  | some expr => return expr
  | none => fail (.invalidNumber (if negative then "-" ++ raw else raw) position)

def plainWord (word : String) : Program grammar TypeExpr := do
  match Keyword.ofWord? word with
  | some keyword =>
      move
      return .keyword keyword
  | none => call .reference ()

def worded (word : String) : Program grammar TypeExpr := do
  if word = "true" then
    move
    return .literal (.boolean true)
  else if word = "false" then
    move
    return .literal (.boolean false)
  else if word = "typeof" then
    move
    let _ ← call .dottedName ()
    return .uninterpreted
  else if word = "infer" && (← look 1).isAnyWord then
    move
    move
    return .uninterpreted
  else if word = "new" then
    move
    call .function ()
  else plainWord word

def marked (mark : Mark) (position : Nat) : Program grammar TypeExpr := do
  match mark with
  | .minus =>
      move
      match ← current with
      | .token ⟨.number raw, _, _⟩ =>
          move
          numeral true raw position
      | _ => unexpected "numeric literal after `-`"
  | .openBrace => return .object (← call .objectBody ())
  | .openBracket => call .tuple ()
  | .openParen =>
      if ← call .arrowAhead (0, 0) then call .function ()
      else
        move
        let content ← call .type ()
        takeMark .closeParen "`)`"
        return content
  | .openAngle => call .function ()
  | _ => unexpected "type"

def primaryBody : Program grammar TypeExpr := do
  match ← current with
  | .token located =>
      match located.token with
      | .word word => worded word
      | .quoted value =>
          move
          return .literal (.string value)
      | .number raw =>
          move
          numeral false raw located.position
      | .template _ =>
          move
          return .uninterpreted
      | .mark mark => marked mark located.position
      | .symbol _ => unexpected "type"
  | .stop _ _ | .beyond => unexpected "type"

def referenceBody : Program grammar TypeExpr := do
  let name ← call .dottedName ()
  if ← take .openAngle then return .reference name (← call .arguments [])
  else return .reference name []

def argumentsBody (seen : List TypeExpr) : Program grammar (List TypeExpr) := do
  let argument ← call .type ()
  if ← take .comma then call .arguments (argument :: seen)
  else
    takeMark .closeAngle "`>` closing type arguments"
    return (argument :: seen).reverse

def dottedNameBody : Program grammar String := do
  let name ← takeWord "type name"
  call .dottedParts name

def dottedPartsBody (name : String) : Program grammar String := do
  if ← isAt .dot then
    move
    let part ← takeWord "type name after `.`"
    call .dottedParts (name ++ "." ++ part)
  else return name

def tupleBody : Program grammar TypeExpr := do
  move
  let items ← call .items []
  return .tuple items

def label : Program grammar Unit := do
  let sight ← current
  let behind ← look 1
  let further ← look 2
  if sight.isAnyWord &&
      (behind.isMark .colon || (behind.isMark .question && further.isMark .colon)) then
    move
    let _ ← take .question
    move
  else return ()

def itemsBody (seen : List TypeExpr) : Program grammar (List TypeExpr) := do
  if ← take .closeBracket then return seen.reverse
  else
    let _ ← take .ellipsis
    label
    let item ← call .type ()
    let _ ← take .question
    if ← take .comma then call .items (item :: seen)
    else
      takeMark .closeBracket "`]` closing the tuple"
      return (item :: seen).reverse

def functionBody : Program grammar TypeExpr := do
  typeParameters
  call .group (.openParen, .closeParen)
  takeMark .arrow "`=>` in function type"
  let _ ← call .type ()
  return .uninterpreted

/-- Whether an arrow follows a group of parentheses, of which some are open ahead of the cursor. -/
def arrowAheadBody (ahead depth : Nat) : Program grammar Bool := do
  match ← look ahead with
  | .token located =>
      if located.token = .mark .openParen then call .arrowAhead (ahead + 1, depth + 1)
      else if located.token = .mark .closeParen then
        if depth - 1 = 0 then return (← look (ahead + 1)).isMark .arrow
        else call .arrowAhead (ahead + 1, depth - 1)
      else call .arrowAhead (ahead + 1, depth)
  | .stop _ _ | .beyond => return false

def groupBody (opening closing : Mark) : Program grammar Unit := do
  let start := (← current).position
  if ← isAt opening then call .groupEnd ((opening, closing), start, 0)
  else unexpected "opening bracket"

def groupEndBody (opening closing : Mark) (start depth : Nat) : Program grammar Unit := do
  let sight ← current
  if sight.isMark opening then
    move
    call .groupEnd ((opening, closing), start, depth + 1)
  else if sight.isMark closing then
    if depth - 1 = 0 then move
    else
      move
      call .groupEnd ((opening, closing), start, depth - 1)
  else
    match sight with
    | .token _ =>
        move
        call .groupEnd ((opening, closing), start, depth)
    | .stop _ _ | .beyond => fail (.unexpectedToken "closing bracket" endOfInput start)

def bodies : grammar.Bodies
  | file, (seen, depth) => fileBody seen depth
  | interface, _ => interfaceBody
  | heading, angles => headingBody angles
  | objectBody, _ => objectBodyBody
  | members, seen => membersBody seen
  | separators, _ => separatorsBody
  | member, _ => memberBody
  | modifiers, _ => modifiersBody
  | signature, _ => signatureBody
  | type, _ => typeBody
  | conditional, _ => conditionalBody
  | union, _ => unionBody
  | unionMembers, seen => unionMembersBody seen
  | intersection, _ => intersectionBody
  | intersectionMembers, _ => intersectionMembersBody
  | suffixed, _ => suffixedBody
  | operators, hidden => operatorsBody hidden
  | suffixes, expr => suffixesBody expr
  | primary, _ => primaryBody
  | reference, _ => referenceBody
  | arguments, seen => argumentsBody seen
  | dottedName, _ => dottedNameBody
  | dottedParts, name => dottedPartsBody name
  | tuple, _ => tupleBody
  | items, seen => itemsBody seen
  | function, _ => functionBody
  | arrowAhead, (ahead, depth) => arrowAheadBody ahead depth
  | group, (opening, closing) => groupBody opening closing
  | groupEnd, ((opening, closing), start, depth) => groupEndBody opening closing start depth

def start : State grammar .file :=
  .running ⟨.file, ([], 0), ⟨0, 0⟩⟩ ⟨0, 0⟩ (bodies .file ([], 0)) .bottom

end Rule

end Toggles.Declaration
