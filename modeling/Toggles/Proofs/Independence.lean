import Toggles.Declaration.Schema
import Toggles.Proofs.Continuation
import Toggles.Proofs.RoundTrip
import Toggles.Proofs.Seam

/-! Declarations do not depend on what stands around them.

The interfaces of two sources with a line break between them are those of both, and a
namespace between the two changes nothing. The brackets of the first source are closed in
the right order, so the depth at its end is that of its beginning, and what stands in its
parentheses is known before it ends.
-/

set_option autoImplicit false

namespace Toggles.Declaration

def closing? : Token → Option Mark
  | .mark .openBrace => some .closeBrace
  | .mark .openParen => some .closeParen
  | .mark .openBracket => some .closeBracket
  | _ => none

/-- The groups that have to be closed behind a token, by the marks that close them, where
these have to be closed before it. -/
def nest? (expected : List Mark) (token : Token) : Option (List Mark) :=
  match closing? token with
  | some mark => some (mark :: expected)
  | none =>
      if closesGroup token then
        match expected with
        | [] => none
        | mark :: others => if token = .mark mark then some others else none
      else some expected

/-- The tokens close these groups, and every group of their own. -/
def Balanced (expected : List Mark) (tokens : List Located) : Prop :=
  (tokens.map (·.token)).foldlM nest? expected = some []

abbrev WellNested (tokens : List Located) : Prop :=
  Balanced [] tokens

instance (expected : List Mark) (tokens : List Located) : Decidable (Balanced expected tokens) :=
  inferInstanceAs (Decidable (_ = _))

def lastToken? (tokens : List Located) : Option Token :=
  tokens.getLast?.map (·.token)

section Groups
variable {expected after : List Mark} {token : Token} {first : Located} {rest : List Located}

theorem Balanced.cons (balanced : Balanced expected (first :: rest)) :
    ∃ after, nest? expected first.token = some after ∧ Balanced after rest := by
  rw [Balanced, List.map_cons, List.foldlM_cons] at balanced
  exact Option.bind_eq_some_iff.mp balanced

theorem balanced_nil : Balanced expected [] ↔ expected = [] := by
  simp [Balanced]

-- The depth of all groups changes as it does where the groups are not told apart.
theorem length_of_nest? (nests : nest? expected token = some after) :
    if opensGroup token then after.length = expected.length + 1
    else if closesGroup token then after.length + 1 = expected.length
    else after.length = expected.length := by
  unfold nest? at nests
  cases token with
  | mark mark => cases mark <;> grind [closing?, closesGroup, opensGroup]
  | word | quoted | template | number | symbol => cases nests; rfl

-- So does the depth of the parentheses.
theorem count_of_nest? (nests : nest? expected token = some after) :
    after.count .closeParen = if token = .mark .openParen then expected.count .closeParen + 1
      else if token = .mark .closeParen then expected.count .closeParen - 1
      else expected.count .closeParen := by
  unfold nest? at nests
  cases token with
  | mark mark => cases mark <;> grind [closing?, closesGroup]
  | word | quoted | template | number | symbol => cases nests; rfl

end Groups

/-- Tokens in front of others, which do not go on with what the last token begins. The
groups that are open before the tokens are closed in them, unless there are no others. -/
structure Within (following tokens : List Located) : Prop where
  balanced : following = [] ∨ ∃ expected, Balanced expected tokens
  parameters : lastToken? tokens = some (.mark .closeParen) → startsWith .arrow following = false
  keyword : lastToken? tokens = some (.word "interface") → startsWithAnyWord following = false

section Places
variable {following tokens others : List Located} {depth : Nat}

theorem Within.tail {first : Located} (here : Within following (first :: tokens)) :
    Within following tokens where
  balanced := here.balanced.imp_right fun ⟨_, balanced⟩ =>
    let ⟨after, _, balanced⟩ := balanced.cons
    ⟨after, balanced⟩
  parameters ends := by
    cases tokens with
    | nil => contradiction
    | cons second rest => exact here.parameters ends
  keyword ends := by
    cases tokens with
    | nil => contradiction
    | cons second rest => exact here.keyword ends

theorem within_nil (tokens : List Located) : Within [] tokens :=
  ⟨.inl rfl, fun _ => rfl, fun _ => rfl⟩

theorem Within.continued (here : Within following tokens) :
    Continued (Within following) following tokens (tokens ++ following) := by
  induction tokens with
  | nil => exact .stop
  | cons first rest ih => exact .token here (ih here.tail)

-- Tokens at other positions go on with no tokens.
theorem continued_of_content (same : others.map Located.content = tokens.map Located.content) :
    Continued (Within []) [] tokens others := by
  induction tokens generalizing others with
  | nil =>
      cases List.map_eq_nil_iff.mp same
      exact .stop
  | cons first rest ih =>
      cases others with
      | nil => cases same
      | cons other others =>
          obtain ⟨head, tail⟩ := List.cons.inj same
          obtain ⟨token, position, doc⟩ := other
          cases head
          exact .token (within_nil _) (ih tail)

/-- Unless no tokens follow, at least so many of the groups that are counted are open before
the tokens, which close them all. -/
def Deep (count : List Mark → Nat) (following tokens : List Located) (depth : Nat) : Prop :=
  following = [] ∨ ∃ expected, Balanced expected tokens ∧ depth ≤ count expected

variable {count : List Mark → Nat}

theorem Deep.step {first : Located} {next : Nat} (deep : Deep count following (first :: tokens) depth)
    (changes : ∀ {expected after}, nest? expected first.token = some after →
      depth ≤ count expected → next ≤ count after) : Deep count following tokens next :=
  deep.imp_right fun ⟨_, balanced, bound⟩ =>
    let ⟨after, nests, balanced⟩ := balanced.cons
    ⟨after, balanced, changes nests bound⟩

-- At the end of the tokens no group is open.
theorem Deep.eq_zero (deep : Deep count following [] depth) (none : count [] = 0) :
    following = [] ∨ depth = 0 :=
  deep.imp_right fun ⟨expected, balanced, bound⟩ => by
    rw [balanced_nil.mp balanced, none] at bound
    exact Nat.le_zero.mp bound

-- A group of parentheses ends before the tokens do, or an arrow does not follow it.
theorem arrowAfterGroup_continued (continued : Continued (Within following) following tokens others)
    (deep : Deep (List.count .closeParen) following tokens depth) (opened : 0 < depth) :
    Level.arrowAfterGroup depth others = Level.arrowAfterGroup depth tokens := by
  induction continued generalizing depth with
  | stop =>
      rcases deep.eq_zero rfl with rfl | none
      · rfl
      · exact absurd none (Nat.ne_of_gt opened)
  | @token token position other doc rest others here behind ih =>
      rw [Level.arrowAfterGroup, Level.arrowAfterGroup]
      by_cases opens : token = .mark .openParen
      · rw [if_pos opens, if_pos opens]
        refine ih (deep.step fun nests bound => ?_) (Nat.succ_pos depth)
        rw [count_of_nest? nests, if_pos opens]
        exact Nat.succ_le_succ bound
      rw [if_neg opens, if_neg opens]
      by_cases ends : token = .mark .closeParen
      · rw [if_pos ends, if_pos ends]
        by_cases last : depth ≤ 1
        · rw [if_pos last, if_pos last]
          cases behind with
          | stop => exact here.parameters (by rw [ends]; rfl)
          | token => rfl
        · rw [if_neg last, if_neg last]
          refine ih (deep.step fun nests bound => ?_) (by omega)
          rw [count_of_nest? nests, if_neg opens, if_pos ends]
          omega
      · rw [if_neg ends, if_neg ends]
        refine ih (deep.step fun nests bound => ?_) opened
        rwa [count_of_nest? nests, if_neg opens, if_neg ends]

theorem settled_within : Level.Settled (Within following) following := by
  intro position doc rest others here continued
  refine arrowAfterGroup_continued continued ?_ Nat.one_pos
  have opened : Deep (List.count .closeParen) following (⟨.mark .openParen, position, doc⟩ :: rest) 0 :=
    here.balanced.imp_right fun ⟨expected, balanced⟩ => ⟨expected, balanced, Nat.zero_le _⟩
  refine opened.step fun nests _ => ?_
  rw [count_of_nest? nests, if_pos rfl]
  exact Nat.succ_pos _

theorem Continued.deep (continued : Continued (Within following) following tokens others) :
    Deep count following tokens 0 := by
  cases continued with
  | stop => exact .inr ⟨[], balanced_nil.mpr rfl, Nat.zero_le _⟩
  | token here behind =>
      exact here.balanced.imp_right fun ⟨expected, balanced⟩ => ⟨expected, balanced, Nat.zero_le _⟩

-- Whether a keyword begins an interface does not depend on what follows.
theorem startsWithAnyWord_continued {token : Token} {position : Nat} {doc : Option String}
    (here : Within following (⟨token, position, doc⟩ :: tokens))
    (behind : Continued (Within following) following tokens others)
    (keyword : token = .word "interface") : startsWithAnyWord others = startsWithAnyWord tokens := by
  cases tokens with
  | nil =>
      cases behind
      exact here.keyword (by rw [keyword]; rfl)
  | cons first rest => exact behind.startsWithAnyWord (List.cons_ne_nil _ _)

-- The interfaces of the tokens are read, and what follows them is read at the top level. An
-- interface may end inside a group that it does not close, so the depth that is counted is
-- only known to be at most the number of open groups.
theorem interfacesAfter_continued {seen declared : List Interface}
    (continued : Continued (Within following) following tokens others)
    (read : interfacesAfter seen depth tokens = .ok declared)
    (deep : Deep List.length following tokens depth) :
    interfacesAfter seen depth others = interfacesAfter declared.reverse 0 following := by
  induction seen, depth, tokens using interfacesAfter.induct generalizing others with
  | case1 seen depth =>
      cases continued
      rw [interfacesAfter] at read
      cases read
      rw [List.reverse_reverse]
      rcases deep.eq_zero rfl with rfl | rfl
      · rw [interfacesAfter, interfacesAfter]
      · rfl
  | case2 seen depth first rest opens ih =>
      rw [interfacesAfter, if_pos opens] at read
      cases continued with
      | token here behind =>
          rw [interfacesAfter, if_pos opens]
          refine ih behind read (deep.step fun nests bound => ?_)
          have longer := length_of_nest? nests
          rw [if_pos opens] at longer
          omega
  | case3 seen depth first rest opens closes ih =>
      rw [interfacesAfter, if_neg opens, if_pos closes] at read
      cases continued with
      | token here behind =>
          rw [interfacesAfter, if_neg opens, if_pos closes]
          refine ih behind read (deep.step fun nests bound => ?_)
          have shorter := length_of_nest? nests
          rw [if_neg opens, if_pos closes] at shorter
          omega
  | case4 seen depth first rest opens closes keyword ih =>
      rw [interfacesAfter, if_neg opens, if_neg closes, if_pos keyword] at read
      obtain ⟨declaration, readDeclaration, read⟩ := bind_eq_ok.mp read
      cases continued with
      | @token token position other doc rest others here behind =>
          simp only [Bool.and_eq_true, decide_eq_true_eq, beq_iff_eq] at keyword
          obtain ⟨⟨rfl, rfl⟩, named⟩ := keyword
          rw [← startsWithAnyWord_continued here behind rfl] at named
          obtain ⟨after, ⟨within, same⟩, further⟩ :=
            readInterface_finishes settled_within behind declaration readDeclaration
          rw [interfacesAfter, if_neg opens, if_neg closes, if_pos (by simp [named]), same]
          exact ih declaration further read further.deep
  | case5 seen depth first rest opens closes other ih =>
      rw [interfacesAfter, if_neg opens, if_neg closes, if_neg other] at read
      cases continued with
      | @token token position otherPosition doc rest others here behind =>
          have passed : ¬(decide (token = .word "interface") && depth == 0 &&
              startsWithAnyWord others) = true := by
            simp only [Bool.and_eq_true, decide_eq_true_eq] at other ⊢
            rintro ⟨⟨keyword, top⟩, named⟩
            rw [startsWithAnyWord_continued here behind keyword] at named
            exact other ⟨⟨keyword, top⟩, named⟩
          rw [interfacesAfter, if_neg opens, if_neg closes, if_neg passed]
          refine ih behind read (deep.step fun nests bound => ?_)
          have same := length_of_nest? nests
          rw [if_neg opens, if_neg closes] at same
          omega

end Places

section Moved
variable {given others : List Located}

theorem SameTokens.balanced {expected : List Mark} (same : SameTokens given others)
    (balanced : Balanced expected given) : Balanced expected others := by
  rwa [Balanced, same.tokens]

theorem SameTokens.startsWith (same : SameTokens given others) (mark : Mark) :
    startsWith mark others = startsWith mark given := by
  have tokens := same.tokens
  cases given with
  | nil =>
      cases List.map_eq_nil_iff.mp tokens
      rfl
  | cons first rest =>
      obtain ⟨other, after, rfl, is, -⟩ := List.map_eq_cons_iff.mp tokens
      simp only [Declaration.startsWith, is]

end Moved

section Interfaces
variable {tokens others rest : List Located} {seen declared : List Interface} {depth : Nat}

-- Interfaces that have been seen stand before those that are read.
theorem interfacesAfter_seen (read : interfacesAfter seen depth tokens = .ok declared)
    (before : List Interface) :
    interfacesAfter (seen ++ before) depth tokens = .ok (before.reverse ++ declared) := by
  induction seen, depth, tokens using interfacesAfter.induct with
  | case1 seen depth =>
      rw [interfacesAfter] at read ⊢
      cases read
      rw [List.reverse_append]
  | case2 seen depth first rest opens ih =>
      rw [interfacesAfter, if_pos opens] at read ⊢
      exact ih read
  | case3 seen depth first rest opens closes ih =>
      rw [interfacesAfter, if_neg opens, if_pos closes] at read ⊢
      exact ih read
  | case4 seen depth first rest opens closes keyword ih =>
      rw [interfacesAfter, if_neg opens, if_neg closes, if_pos keyword] at read ⊢
      obtain ⟨declaration, readDeclaration, read⟩ := bind_eq_ok.mp read
      exact bind_eq_ok.mpr ⟨declaration, readDeclaration, ih declaration read⟩
  | case5 seen depth first rest opens closes other ih =>
      rw [interfacesAfter, if_neg opens, if_neg closes, if_neg other] at read ⊢
      exact ih read

-- At the top level nothing depends on what documents the first token.
theorem interfacesAfter_documented (token : Token) (position other : Nat) (doc otherDoc : Option String) :
    interfacesAfter seen depth (⟨token, position, doc⟩ :: rest) =
      interfacesAfter seen depth (⟨token, other, otherDoc⟩ :: rest) := by
  rw [interfacesAfter, interfacesAfter]

theorem interfacesAfter_sameTokens (same : SameTokens tokens others)
    (read : interfacesAfter seen 0 tokens = .ok declared) :
    interfacesAfter seen 0 others = .ok declared := by
  have finished : interfacesAfter declared.reverse 0 [] = .ok declared := by
    rw [interfacesAfter, List.reverse_reverse]
  cases tokens with
  | nil =>
      cases List.map_eq_nil_iff.mp same.tokens
      exact read
  | cons first rest =>
      obtain ⟨⟨token, position, doc⟩, after, rfl, rfl, -⟩ := List.map_eq_cons_iff.mp same.tokens
      have behind : after.map Located.content = rest.map Located.content := same.behind
      rw [interfacesAfter_documented first.token position position doc first.doc, ← finished]
      refine interfacesAfter_continued (continued_of_content ?_) read (.inl rfl)
      rw [List.map_cons, List.map_cons, behind]
      rfl

-- Nothing in brackets is read.
theorem interfacesAfter_inside {expected : List Mark} {inside : List Located}
    (balanced : Balanced expected inside) :
    interfacesAfter seen (expected.length + 1) (inside ++ rest) = interfacesAfter seen 1 rest := by
  induction inside generalizing expected with
  | nil => rw [balanced_nil.mp balanced, List.length_nil, Nat.zero_add, List.nil_append]
  | cons first inside ih =>
      obtain ⟨after, nests, balanced⟩ := balanced.cons
      have depth := length_of_nest? nests
      rw [← ih balanced, List.cons_append, interfacesAfter]
      split at depth
      · next opens => rw [if_pos opens, depth]
      next opens =>
      rw [if_neg opens]
      split at depth
      · next closes => rw [if_pos closes, ← depth, Nat.add_sub_cancel]
      next closes =>
      rw [if_neg closes, if_neg (by simp), depth]

-- A namespace is passed over.
theorem interfacesAfter_namespace {keyword name opening closing : Located} {inside : List Located}
    (opens : OpensNamespace keyword name opening) (closes : closing.token = .mark .closeBrace)
    (balanced : WellNested inside) :
    interfacesAfter seen 0 (keyword :: name :: opening :: (inside ++ closing :: rest)) =
      interfacesAfter seen 0 rest := by
  have enter : interfacesAfter seen 0 (keyword :: name :: opening :: (inside ++ closing :: rest)) =
      interfacesAfter seen 1 (inside ++ closing :: rest) := by
    simp [interfacesAfter, opens.keyword, opens.name, opens.opening, opensGroup, closesGroup]
  have leave : interfacesAfter seen 1 (closing :: rest) = interfacesAfter seen 0 rest := by
    simp [interfacesAfter, closes, opensGroup, closesGroup]
  exact enter.trans ((interfacesAfter_inside balanced).trans leave)

end Interfaces

section Sources
variable {first second joined : String} {stream secondStream : TokenStream} {file other : SourceFile}

/-- A source declares the interfaces of one source and then those of another one. An
interface is compiled as in the other one where that declares it, else as in the first one. -/
structure Joins (first second : String) (file other : SourceFile) (joined : String) : Prop where
  parse : SourceFile.parse joined = .ok ⟨file.interfaces ++ other.interfaces⟩
  compile : ∀ root, compile joined root =
    if root ∈ other.interfaces.map (·.name) then compile second root else compile first root

-- What is compiled is the last declaration of a name.
theorem joins_of_parse (parsed : SourceFile.parse first = .ok file)
    (parsedSecond : SourceFile.parse second = .ok other)
    (parsedJoined : SourceFile.parse joined = .ok ⟨file.interfaces ++ other.interfaces⟩) :
    Joins first second file other joined where
  parse := parsedJoined
  compile root := by
    have found : SourceFile.interface? ⟨file.interfaces ++ other.interfaces⟩ root =
        (other.interface? root).or (file.interface? root) := by
      simp [SourceFile.interface?]
    have declares : root ∈ other.interfaces.map (·.name) ↔ (other.interface? root).isSome := by
      simp [SourceFile.interface?]
    simp only [compile, parsed, parsedSecond, parsedJoined, found, declares]
    cases other.interface? root with
    | some declared => rfl
    | none => rfl

-- Behind the tokens of the first source those of the second one are read as they are alone.
theorem interfacesAfter_joined (parsed : SourceFile.parse first = .ok file)
    (parsedSecond : SourceFile.parse second = .ok other) (tokenized : tokenize first = .ok stream)
    (tokenizedSecond : tokenize second = .ok secondStream) {following others : List Located}
    (within : Within following stream.tokens) (nested : WellNested stream.tokens)
    (passes : ∀ seen, interfacesAfter seen 0 following = interfacesAfter seen 0 others)
    (same : SameTokens secondStream.tokens others) :
    interfacesAfter [] 0 (stream.tokens ++ following) = .ok (file.interfaces ++ other.interfaces) := by
  obtain ⟨_, sameStream, read⟩ := interfaces_of_parse parsed
  cases tokenized.symm.trans sameStream
  obtain ⟨_, sameSecond, readSecond⟩ := interfaces_of_parse parsedSecond
  cases tokenizedSecond.symm.trans sameSecond
  rw [interfacesAfter_continued within.continued read (.inr ⟨[], nested, Nat.le_refl 0⟩), passes]
  have both := interfacesAfter_sameTokens same (interfacesAfter_seen readSecond file.interfaces.reverse)
  rwa [List.nil_append, List.reverse_reverse] at both

/-- Declarations do not depend on what stands around them: a source with closed brackets,
whose last token is not the keyword of an interface, declares the same in front of another
source. An arrow may not stand behind parentheses that it ends with. A namespace between
the two sources changes nothing, whatever it contains. -/
theorem joins_of_wellNested (tokenized : tokenize first = .ok stream)
    (tokenizedSecond : tokenize second = .ok secondStream) (nested : WellNested stream.tokens)
    (ended : lastToken? stream.tokens ≠ some (.word "interface"))
    (parsed : SourceFile.parse first = .ok file)
    (parsedSecond : SourceFile.parse second = .ok other) :
    ((first ++ "\n" ++ second).utf8ByteSize ≤ maximumSourceSize →
      (lastToken? stream.tokens = some (.mark .closeParen) →
        startsWith .arrow secondStream.tokens = false) →
      Joins first second file other (first ++ "\n" ++ second)) ∧
    ∀ {inner innerStream}, tokenize inner = .ok innerStream → WellNested innerStream.tokens →
      (enclosing first inner second).utf8ByteSize ≤ maximumSourceSize →
      Joins first second file other (enclosing first inner second) := by
  have within {following : List Located} (arrow : lastToken? stream.tokens = some (.mark .closeParen) →
      startsWith .arrow following = false) : Within following stream.tokens :=
    ⟨.inr ⟨[], nested⟩, arrow, fun keyword => absurd keyword ended⟩
  constructor
  · intro size arrow
    obtain ⟨joined, others, tokenizedJoined, tokens, same⟩ :=
      tokenize_append tokenized tokenizedSecond size
    refine joins_of_parse parsed parsedSecond ?_
    rw [SourceFile.parse, tokenizedJoined]
    refine ofTokens_eq_ok (tokens ▸ ?_)
    refine interfacesAfter_joined parsed parsedSecond tokenized tokenizedSecond (within ?_) nested
      (fun _ => rfl) same
    rwa [same.startsWith]
  · intro inner innerStream tokenizedInner nestedInner size
    obtain ⟨joined, keyword, name, opening, inside, closing, others, tokenizedJoined, tokens, opens,
      closes, sameInside, same⟩ := tokenize_enclosing tokenized tokenizedInner tokenizedSecond size
    refine joins_of_parse parsed parsedSecond ?_
    rw [SourceFile.parse, tokenizedJoined]
    refine ofTokens_eq_ok (tokens ▸ ?_)
    refine interfacesAfter_joined parsed parsedSecond tokenized tokenizedSecond (within fun _ => ?_)
      nested (fun _ => interfacesAfter_namespace opens closes (sameInside.balanced nestedInner)) same
    simp [startsWith, opens.keyword]

def sampleDeclaring : String := "interface A\x7bx:null\x7d(0)"

def sampleDeclared : Interface :=
  ⟨"A", [⟨"x", false, none, .keyword .null⟩]⟩

theorem joins_of_wellNested_sample :
    Joins sampleDeclaring "interface A\x7b\x7d" ⟨[sampleDeclared]⟩ ⟨[⟨"A", []⟩]⟩
        (sampleDeclaring ++ "\n" ++ "interface A\x7b\x7d") ∧
      Joins sampleDeclaring "interface A\x7b\x7d" ⟨[sampleDeclared]⟩ ⟨[⟨"A", []⟩]⟩
        (enclosing sampleDeclaring "interface [B]" "interface A\x7b\x7d") := by
  have tokenized : tokenize sampleDeclaring = .ok ⟨[⟨.word "interface", 0, none⟩,
      ⟨.word "A", 10, none⟩, ⟨.mark .openBrace, 11, none⟩, ⟨.word "x", 12, none⟩,
      ⟨.mark .colon, 13, none⟩, ⟨.word "null", 14, none⟩, ⟨.mark .closeBrace, 18, none⟩,
      ⟨.mark .openParen, 19, none⟩, ⟨.number "0", 20, none⟩, ⟨.mark .closeParen, 21, none⟩],
      22, none⟩ := by
    decide +kernel
  have tokenizedSecond : tokenize "interface A\x7b\x7d" = .ok ⟨[⟨.word "interface", 0, none⟩,
      ⟨.word "A", 10, none⟩, ⟨.mark .openBrace, 11, none⟩, ⟨.mark .closeBrace, 12, none⟩], 13, none⟩ := by
    decide +kernel
  have tokenizedInner : tokenize "interface [B]" = .ok ⟨[⟨.word "interface", 0, none⟩,
      ⟨.mark .openBracket, 10, none⟩, ⟨.word "B", 11, none⟩, ⟨.mark .closeBracket, 12, none⟩],
      13, none⟩ := by
    decide +kernel
  have parsed : SourceFile.parse sampleDeclaring = .ok ⟨[sampleDeclared]⟩ := by
    rw [SourceFile.parse, tokenized]
    refine ofTokens_eq_ok ?_
    with_unfolding_all rfl
  have parsedSecond : SourceFile.parse "interface A\x7b\x7d" = .ok ⟨[⟨"A", []⟩]⟩ := by
    rw [SourceFile.parse, tokenizedSecond]
    refine ofTokens_eq_ok ?_
    with_unfolding_all rfl
  have joins := joins_of_wellNested tokenized tokenizedSecond (by decide) (by decide) parsed parsedSecond
  exact ⟨joins.1 (by decide +kernel) (fun _ => rfl),
    joins.2 tokenizedInner (by decide) (by decide +kernel)⟩

/-- A source whose interface ends before the parentheses do that it opens last. -/
def overlapping : String := "interface A\x7by:<\x7d>()=>B;z:(<\x7b(>()=>B)\x7d)"

def overlappingTokens : List Located :=
  [⟨.word "interface", 0, none⟩, ⟨.word "A", 10, none⟩, ⟨.mark .openBrace, 11, none⟩,
    ⟨.word "y", 12, none⟩, ⟨.mark .colon, 13, none⟩, ⟨.mark .openAngle, 14, none⟩,
    ⟨.mark .closeBrace, 15, none⟩, ⟨.mark .closeAngle, 16, none⟩, ⟨.mark .openParen, 17, none⟩,
    ⟨.mark .closeParen, 18, none⟩, ⟨.mark .arrow, 19, none⟩, ⟨.word "B", 21, none⟩,
    ⟨.mark .semicolon, 22, none⟩, ⟨.word "z", 23, none⟩, ⟨.mark .colon, 24, none⟩,
    ⟨.mark .openParen, 25, none⟩, ⟨.mark .openAngle, 26, none⟩, ⟨.mark .openBrace, 27, none⟩,
    ⟨.mark .openParen, 28, none⟩, ⟨.mark .closeAngle, 29, none⟩, ⟨.mark .openParen, 30, none⟩,
    ⟨.mark .closeParen, 31, none⟩, ⟨.mark .arrow, 32, none⟩, ⟨.word "B", 34, none⟩,
    ⟨.mark .closeParen, 35, none⟩, ⟨.mark .closeBrace, 36, none⟩, ⟨.mark .closeParen, 37, none⟩]

/-- Behind an arrow the parentheses are those of a function, which takes the brace that has
ended the interface. Both sources are accepted alone. -/
theorem refused_of_overlapping :
    tokenize overlapping = .ok ⟨overlappingTokens, 38, none⟩ ∧ WellNested overlappingTokens ∧
      lastToken? overlappingTokens ≠ some (.word "interface") ∧
      SourceFile.parse overlapping =
        .ok ⟨[⟨"A", [⟨"y", false, none, .uninterpreted⟩, ⟨"z", false, none, .uninterpreted⟩]⟩]⟩ ∧
      SourceFile.parse "=>B" = .ok ⟨[]⟩ ∧
      (overlapping ++ "\n" ++ "=>B").utf8ByteSize ≤ maximumSourceSize ∧
      SourceFile.parse (overlapping ++ "\n" ++ "=>B") =
        .error (.unexpectedToken "`\x7d` closing the object type" endOfInput 42) := by
  have tokenized : tokenize overlapping = .ok ⟨overlappingTokens, 38, none⟩ := by decide +kernel
  have tokenizedArrow : tokenize "=>B" = .ok ⟨[⟨.mark .arrow, 0, none⟩, ⟨.word "B", 2, none⟩], 3, none⟩ := by
    decide +kernel
  have tokenizedBoth : tokenize (overlapping ++ "\n" ++ "=>B") =
      .ok ⟨overlappingTokens ++ [⟨.mark .arrow, 39, none⟩, ⟨.word "B", 41, none⟩], 42, none⟩ := by
    decide +kernel
  refine ⟨tokenized, by decide, by decide, ?_, ?_, by decide +kernel, ?_⟩
  · rw [SourceFile.parse, tokenized]
    refine ofTokens_eq_ok ?_
    with_unfolding_all rfl
  · rw [SourceFile.parse, tokenizedArrow]
    refine ofTokens_eq_ok ?_
    with_unfolding_all rfl
  · rw [SourceFile.parse, tokenizedBoth]
    with_unfolding_all rfl

end Sources

end Toggles.Declaration
