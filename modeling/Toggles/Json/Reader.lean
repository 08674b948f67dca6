import Toggles.Json.Token

/-! Reading JSON text.

A stack machine takes one token at a time: its stack holds the open arrays and
objects, so the depth of a document is the height of the stack. A repeated member
keeps its first position and its last value.
-/

set_option autoImplicit false

namespace Toggles.Json

/-- An array or object that is not closed yet, innermost part first. -/
inductive Frame where
  | items (reversed : List Json)
  | members (soFar : Members) (key : String)
  deriving Repr

inductive Expects where
  | value
  | itemOrClose
  | keyOrClose
  | key (soFar : Members)
  | colon (soFar : Members) (key : String)
  | separator (completed : Json)
  deriving Repr

structure ReaderState where
  expects : Expects
  enclosing : List Frame
  deriving Repr

namespace ReaderState

def start : ReaderState := ⟨.value, []⟩

def descend (depth : Nat) (state : ReaderState) (expects : Expects) (frames : List Frame) :
    Option ReaderState :=
  if state.enclosing.length < depth then some ⟨expects, frames⟩ else none

def beginValue (depth : Nat) (state : ReaderState) : Token → Option ReaderState
  | .openBracket => state.descend depth .itemOrClose (.items [] :: state.enclosing)
  | .openBrace => state.descend depth .keyOrClose state.enclosing
  | .text value => some ⟨.separator (.str value), state.enclosing⟩
  | .scalar value => some ⟨.separator value, state.enclosing⟩
  | _ => none

def afterValue (completed : Json) : List Frame → Token → Option ReaderState
  | .items reversed :: outer, .comma => some ⟨.value, .items (completed :: reversed) :: outer⟩
  | .items reversed :: outer, .closeBracket =>
      some ⟨.separator (.arr (completed :: reversed).reverse), outer⟩
  | .members soFar key :: outer, .comma =>
      some ⟨.key (Ordered.insert soFar key completed), outer⟩
  | .members soFar key :: outer, .closeBrace =>
      some ⟨.separator (.obj (Ordered.insert soFar key completed)), outer⟩
  | _, _ => none

def step (depth : Nat) (state : ReaderState) (token : Token) : Option ReaderState :=
  match state.expects, token with
  | .value, token => state.beginValue depth token
  | .itemOrClose, .closeBracket => some ⟨.separator (.arr []), state.enclosing.tail⟩
  | .itemOrClose, token => state.beginValue depth token
  | .keyOrClose, .closeBrace => some ⟨.separator (.obj []), state.enclosing⟩
  | .keyOrClose, .text key => some ⟨.colon [] key, state.enclosing⟩
  | .key soFar, .text key => some ⟨.colon soFar key, state.enclosing⟩
  | .colon soFar key, .colon => some ⟨.value, .members soFar key :: state.enclosing⟩
  | .separator completed, token => afterValue completed state.enclosing token
  | _, _ => none

def finish? (state : ReaderState) : Option Json :=
  match state.expects, state.enclosing with
  | .separator completed, [] => some completed
  | _, _ => none

end ReaderState

/-- How many arrays and objects may enclose one another. -/
def maximumDepth : Nat := 127

def ofTokens? (depth : Nat) (tokens : List Token) : Option Json := do
  let state ← tokens.foldlM (ReaderState.step depth) .start
  state.finish?

def parseWithin? (depth : Nat) (text : String) : Option Json := do
  ofTokens? depth (← tokens? text.toList)

def parse? (text : String) : Option Json :=
  parseWithin? maximumDepth text

end Toggles.Json
