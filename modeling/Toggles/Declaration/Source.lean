import Toggles.Declaration.Grammar
import Toggles.Declaration.Lexeme

/-! Reading the interfaces of a source.

Only interfaces at the top level are declarations. Everything else is passed over
with its brackets balanced, so an interface inside another construct is not seen.
-/

set_option autoImplicit false

namespace Toggles.Declaration

/-- The tokens from the opening brace of an interface body on. Type parameters and
the interfaces it extends stand before it. -/
def bodyOnward (angles : Nat) : List Located → List Located
  | [] => []
  | first :: rest =>
      if first.token = .mark .openBrace ∧ angles = 0 then first :: rest
      else if first.token = .mark .openAngle then bodyOnward (angles + 1) rest
      else if first.token = .mark .closeAngle then bodyOnward (angles - 1) rest
      else bodyOnward angles rest

theorem length_bodyOnward_le (angles : Nat) (tokens : List Located) :
    (bodyOnward angles tokens).length ≤ tokens.length := by
  fun_induction bodyOnward angles tokens <;> simp_all <;> omega

def topLevel : Level :=
  .ofNesting maximumNesting

def readInterface : Reader Interface := fun tokens => do
  let name ← expectWord "interface name" tokens
  let start := bodyOnward 0 name.rest
  have bound := length_bodyOnward_le 0 name.rest
  if start.isEmpty then refuse "`\x7b` opening the interface body" start
  else
    let body ← topLevel.body start
    return ⟨⟨name.value, body.value⟩, body.rest, by
      have := name.within; have := body.within; simp [start] at *; omega⟩

def opensGroup : Token → Bool
  | .mark .openBrace | .mark .openParen | .mark .openBracket => true
  | _ => false

def closesGroup : Token → Bool
  | .mark .closeBrace | .mark .closeParen | .mark .closeBracket => true
  | _ => false

/-- The interfaces of the rest of a source, at a depth of brackets and behind the
reversed interfaces seen so far. -/
def interfacesAfter (seen : List Interface) (depth : Nat) (tokens : List Located) :
    Except Refusal (List Interface) :=
  match tokens with
  | [] => .ok seen.reverse
  | first :: rest =>
      if opensGroup first.token then interfacesAfter seen (depth + 1) rest
      else if closesGroup first.token then interfacesAfter seen (depth - 1) rest
      else if first.token = .word "interface" && depth == 0 && startsWithAnyWord rest then do
        let declared ← readInterface rest
        interfacesAfter (declared.value :: seen) depth declared.rest
      else interfacesAfter seen depth rest
termination_by tokens.length
decreasing_by
  all_goals simp
  have := declared.within
  omega

def SourceFile.ofTokens (stream : TokenStream) : Except SourceError SourceFile :=
  match interfacesAfter [] 0 stream.tokens with
  | .ok interfaces => .ok ⟨interfaces⟩
  | .error refusal => .error (refusal.toError stream.stop)

def SourceFile.parse (source : String) : Except SourceError SourceFile := do
  SourceFile.ofTokens (← tokenize source)

end Toggles.Declaration
