import Toggles.Definition.Outline
import Toggles.Declaration.Reading
import Toggles.Declaration.Tree
import Toggles.Text.Split

/-! The canonical form of interface declarations.

A declaration is written as a list of pieces: tokens with the documentation in front
of them. Parentheses stand only around a union that is the item of an array or a
member of another union.
-/

set_option autoImplicit false

namespace Toggles.Declaration

open Definition (isWord)

section Pieces

/-- A token with its documentation, and whether a blank follows it. -/
structure Piece where
  doc : Option String
  token : Token
  spaced : Bool
  deriving DecidableEq, Repr

namespace Piece

def of (token : Token) : Piece := ⟨none, token, false⟩

def mark (value : Mark) : Piece := .of (.mark value)

def word (name : String) : Piece := .of (.word name)

end Piece

def escapedChar : Char → List Char
  | '\\' => ['\\', '\\']
  | '"' => ['\\', '"']
  | '\n' => ['\\', 'n']
  | c => [c]

def Token.text : Token → List Char
  | .word name => name.toList
  | .quoted value => '"' :: value.toList.flatMap escapedChar ++ ['"']
  | .template raw => '\x60' :: raw.toList ++ ['\x60']
  | .number raw => raw.toList
  | .mark value => value.text.toList
  | .symbol value => [value]

def commentText : Option String → List Char
  | some doc => '/' :: '*' :: '*' :: doc.toList ++ ['*', '/']
  | none => []

def Piece.text (piece : Piece) : List Char :=
  commentText piece.doc ++ piece.token.text ++ if piece.spaced then [' '] else []

def textOf (pieces : List Piece) : List Char :=
  pieces.flatMap Piece.text

def separated (between : Mark) : List (List Piece) → List Piece
  | [] => []
  | first :: rest => first ++ rest.flatMap (.mark between :: ·)

end Pieces

section Types

def segments (name : String) : List String :=
  (Text.splitAt '.' name.toList).map String.ofList

def namePieces (name : String) : List Piece :=
  separated .dot ((segments name).map fun segment => [.word segment])

/-- The pieces of a literal. Decimals have no canonical form. -/
def Literal.pieces : Literal → List Piece
  | .string value => [.of (.quoted value)]
  | .integer value =>
      (if value < 0 then [.mark .minus] else []) ++ [.of (.number (toString value.natAbs))]
  | .boolean true => [.word "true"]
  | .boolean false => [.word "false"]
  | .decimal _ => []

def parenthesizedIf (enclosed : Bool) (pieces : List Piece) : List Piece :=
  if enclosed then .mark .openParen :: pieces ++ [.mark .closeParen] else pieces

mutual

/-- The pieces of a type, which may be enclosed by an array or a union. -/
def TypeExpr.pieces (enclosed : Bool) : TypeExpr → List Piece
  | .keyword value => [.word value.name]
  | .literal value => value.pieces
  | .array item => item.pieces true ++ [.mark .openBracket, .mark .closeBracket]
  | .union members => parenthesizedIf enclosed (separated .pipe (piecesOfEach true members))
  | .object members => .mark .openBrace :: memberPieces members ++ [.mark .closeBrace]
  | .reference name [] => namePieces name
  | .reference name (first :: rest) =>
      namePieces name ++ .mark .openAngle ::
        separated .comma (piecesOfEach false (first :: rest)) ++ [.mark .closeAngle]
  | .tuple items =>
      .mark .openBracket :: separated .comma (piecesOfEach false items) ++ [.mark .closeBracket]
  | .uninterpreted => [.of (.template "")]

def piecesOfEach (enclosed : Bool) : List TypeExpr → List (List Piece)
  | [] => []
  | type :: rest => type.pieces enclosed :: piecesOfEach enclosed rest

def memberPieces : List (Property TypeExpr) → List Piece
  | [] => []
  | ⟨name, optional, doc, type⟩ :: rest =>
      ⟨doc, .quoted name, false⟩ :: (if optional then [.mark .question] else []) ++
        .mark .colon :: type.pieces false ++ .mark .semicolon :: memberPieces rest

end

def deepest (depths : List Nat) : Nat :=
  depths.foldr max 0

mutual

/-- How often types and object bodies enclose one another in a type that is written,
without the type itself. Parentheses, arguments, items and properties hold types. -/
def TypeExpr.nesting (enclosed : Bool) : TypeExpr → Nat
  | .keyword _ | .literal _ | .uninterpreted => 0
  | .array item => item.nesting true
  | .union members => deepest (nestingOfEach true members) + enclosed.toNat
  | .object members => deepest (memberNesting members) + 1
  | .reference _ arguments => deepest ((nestingOfEach false arguments).map (· + 1))
  | .tuple items => deepest ((nestingOfEach false items).map (· + 1))

def nestingOfEach (enclosed : Bool) : List TypeExpr → List Nat
  | [] => []
  | type :: rest => type.nesting enclosed :: nestingOfEach enclosed rest

def memberNesting : List (Property TypeExpr) → List Nat
  | [] => []
  | ⟨_, _, _, type⟩ :: rest => (type.nesting false + 1) :: memberNesting rest

end

end Types

section Fragment

structure CommentBody (doc : String) : Prop where
  first : doc.toList.head? ≠ some '/'
  unclosed : ¬['*', '/'] <:+: doc.toList

def prefixWords : List String := ["keyof", "unique", "readonly"]

/-- The words that do not refer to a type where one begins. -/
def operatorWords : List String :=
  ["true", "false", "typeof", "infer", "new"] ++ prefixWords

/-- Words with dots between them, the first of which has no meaning of its own. -/
structure ReferenceName (name : String) : Prop where
  words : ∀ segment ∈ segments name, isWord segment.toList = true
  plain : ∀ segment ∈ (segments name).head?,
    segment ∉ operatorWords ∧ Keyword.ofWord? segment = none

inductive TypeExpr.Writable : TypeExpr → Prop where
  | keyword (value : Keyword) : Writable (.keyword value)
  | string (value : String) : Writable (.literal (.string value))
  | boolean (value : Bool) : Writable (.literal (.boolean value))
  | integer {value : Int} (small : value.natAbs < Nat.pow 2 63) :
      Writable (.literal (.integer value))
  | array {item : TypeExpr} (writable : Writable item) : Writable (.array item)
  | union {members : List TypeExpr} (several : 2 ≤ members.length)
      (each : ∀ member ∈ members, Writable member) : Writable (.union members)
  | object {members : List Member} (docs : ∀ member ∈ members, ∀ doc ∈ member.doc, CommentBody doc)
      (each : ∀ member ∈ members, Writable member.type) : Writable (.object members)
  | reference {name : String} {arguments : List TypeExpr} (plain : ReferenceName name)
      (each : ∀ argument ∈ arguments, Writable argument) : Writable (.reference name arguments)
  | tuple {items : List TypeExpr} (each : ∀ item ∈ items, Writable item) : Writable (.tuple items)
  | uninterpreted : Writable .uninterpreted

end Fragment

namespace Interface

def pieces (declared : Interface) : List Piece :=
  [⟨none, .word "interface", true⟩, .word declared.name, .mark .openBrace] ++
    memberPieces declared.members ++ [.mark .closeBrace]

/-- The canonical form of a declaration. -/
def render (declared : Interface) : String :=
  String.ofList (textOf declared.pieces)

def nesting (declared : Interface) : Nat :=
  deepest (memberNesting declared.members) + 1

structure Writable (declared : Interface) : Prop where
  name : isWord declared.name.toList = true
  docs : ∀ member ∈ declared.members, ∀ doc ∈ member.doc, CommentBody doc
  types : ∀ member ∈ declared.members, member.type.Writable

end Interface

end Toggles.Declaration
