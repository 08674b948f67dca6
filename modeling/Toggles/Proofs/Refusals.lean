import Mathlib.Data.List.Nodup
import Toggles.Proofs.Redocumented
import Toggles.Proofs.Spans

/-! Where a refusal points.

A reader that refuses its tokens names the first of those it did not take, or their end. It
stays within its tokens, so an error is about a token of the source at the position of that
token, or about the end of the source at its size. A group of brackets that is not closed is
the exception: its error names the end of the source, and has the position of the bracket.
-/

set_option autoImplicit false

namespace Toggles.Declaration

def Mark.closer? : Mark → Option Mark
  | .openParen => some .closeParen
  | .openBracket => some .closeBracket
  | .openAngle => some .closeAngle
  | _ => none

def OpensUnclosed (first : Located) (rest : List Located) : Prop :=
  ∃ opening closing, first.token = .mark opening ∧ opening.closer? = some closing ∧
    afterGroup? opening closing 1 rest = none

def closingBracket : String :=
  "closing bracket"

/-- A refusal names one of these tokens, or an opening bracket among them that is not closed. -/
def Refusal.About (tokens : List Located) : Refusal → Prop
  | .unexpected expected found => expected ≠ closingBracket ∧ ∀ located ∈ found, located ∈ tokens
  | .unclosed opening => ∃ first rest, first :: rest <:+ tokens ∧ first.position = opening ∧
      OpensUnclosed first rest
  | .invalidNumber _ _ | .tooDeep _ => True

section Outcomes
variable {α β : Type} {small large : Nat} {tokens : List Located}

/-- A reading of these tokens leaves the last of them, and a refusal is about them. -/
inductive Confined (tokens : List Located) : Outcome α small → Prop where
  | ok {value : α} {rest : List Located} {within : rest.length < small} (behind : rest <:+ tokens) :
      Confined tokens (.ok ⟨value, rest, within⟩)
  | error {refusal : Refusal} (about : refusal.About tokens) : Confined tokens (.error refusal)

theorem Refusal.About.of_suffix {rest : List Located} {refusal : Refusal}
    (about : refusal.About rest) (behind : rest <:+ tokens) : refusal.About tokens := by
  cases refusal with
  | unexpected expected found =>
      exact ⟨about.1, fun located here => behind.subset (about.2 located here)⟩
  | unclosed opening =>
      obtain ⟨first, others, within, unclosed⟩ := about
      exact ⟨first, others, within.trans behind, unclosed⟩
  | invalidNumber | tooDeep => trivial

theorem Confined.of_suffix {rest : List Located} {outcome : Outcome α small}
    (confined : Confined rest outcome) (behind : rest <:+ tokens) : Confined tokens outcome := by
  cases confined with
  | ok further => exact .ok (further.trans behind)
  | error about => exact .error (about.of_suffix behind)

theorem Confined.bind {first : Outcome α small} {next : Reading Located α small → Outcome β large}
    (confined : Confined tokens first)
    (continues : ∀ value rest within, Confined rest (next ⟨value, rest, within⟩)) :
    Confined tokens (first >>= next) := by
  cases confined with
  | ok behind => exact (continues _ _ _).of_suffix behind
  | error about => exact .error about

theorem Confined.ite {condition : Prop} [Decidable condition] {yes no : Outcome α small}
    (whenTrue : condition → Confined tokens yes) (whenFalse : ¬condition → Confined tokens no) :
    Confined tokens (if condition then yes else no) := by
  split
  · next holds => exact whenTrue holds
  · next fails => exact whenFalse fails

theorem refuse_confined {expected : String} (named : expected ≠ closingBracket)
    (tokens : List Located) : Confined tokens (refuse expected tokens : Outcome α small) := by
  refine .error ⟨named, fun located here => ?_⟩
  exact List.mem_of_mem_head? here

end Outcomes

section Places
variable {tokens : List Located}

theorem skip_suffix (mark : Mark) (tokens : List Located) : skip mark tokens <:+ tokens := by
  unfold skip
  split
  · exact List.tail_suffix tokens
  · exact List.suffix_refl tokens

theorem expect_confined (mark : Mark) {expected : String} (named : expected ≠ closingBracket) :
    Confined tokens (expect mark expected tokens) := by
  cases tokens with
  | nil => exact refuse_confined named []
  | cons first rest =>
      exact .ite (fun _ => .ok (List.suffix_cons first rest)) fun _ => refuse_confined named _

theorem expectWord_confined {expected : String} (named : expected ≠ closingBracket) :
    Confined tokens (expectWord expected tokens) := by
  unfold expectWord
  split
  · exact .ok (List.suffix_cons _ _)
  · exact refuse_confined named _

theorem afterGroup?_suffix {opening closing : Mark} {depth : Nat} {rest : List Located}
    (found : afterGroup? opening closing depth tokens = some rest) : rest <:+ tokens := by
  induction tokens generalizing depth with
  | nil => contradiction
  | cons first others ih =>
      rw [afterGroup?] at found
      split at found
      · exact (ih found).trans (List.suffix_cons first others)
      split at found
      · split at found
        · cases found
          exact List.suffix_cons first _
        · exact (ih found).trans (List.suffix_cons first others)
      · exact (ih found).trans (List.suffix_cons first others)

theorem skipGroup_confined {opening closing : Mark} (pair : opening.closer? = some closing) :
    Confined tokens (skipGroup opening closing tokens) := by
  cases tokens with
  | nil => exact refuse_confined (by decide) []
  | cons first rest =>
      refine .ite (fun opens => ?_) fun _ => refuse_confined (by decide) _
      split
      · next found => exact .ok ((afterGroup?_suffix found).trans (List.suffix_cons first rest))
      · next unclosed =>
          exact .error ⟨first, rest, List.suffix_refl _, rfl, opening, closing, opens, pair, unclosed⟩

end Places

namespace Level

structure Confining (inner : Level) : Prop where
  type : ∀ tokens, Confined tokens (inner.type tokens)
  body : ∀ tokens, Confined tokens (inner.body tokens)

variable {inner : Level} {tokens : List Located} {size : Nat}

section Primaries

theorem dottedAfter_confined {name : String} {within : tokens.length < size} :
    Confined tokens (dottedAfter name size tokens within) := by
  induction name, tokens, within using dottedAfter.induct with
  | case1 name => exact .ok (List.suffix_refl [])
  | case2 name first dot part position doc rest within ih =>
      rw [dottedAfter, if_pos dot]
      exact ih.of_suffix ((List.suffix_cons _ rest).trans (List.suffix_cons first _))
  | case3 name first dot rest within noWord =>
      unfold dottedAfter
      rw [if_pos dot]
      split
      · exact (noWord _ _ _ _ _ rfl HEq.rfl).elim
      · exact (refuse_confined (by decide) rest).of_suffix (List.suffix_cons first rest)
  | case4 name first rest within other =>
      unfold dottedAfter
      rw [if_neg other]
      exact .ok (List.suffix_refl _)

theorem dottedName_confined : Confined tokens (dottedName tokens) :=
  (expectWord_confined (by decide)).bind fun _ _ _ => dottedAfter_confined

theorem skipLabel_suffix (tokens : List Located) : skipLabel tokens <:+ tokens := by
  unfold skipLabel
  split
  · next rest =>
      split
      · exact (List.tail_suffix rest).trans (List.suffix_cons _ rest)
      · split
        · exact ((List.tail_suffix _).trans (List.tail_suffix rest)).trans (List.suffix_cons _ rest)
        · exact List.suffix_refl _
  · exact List.suffix_refl tokens

theorem skipTypeParameters_confined : Confined tokens (skipTypeParameters tokens) := by
  refine .ite (fun _ => ?_) fun _ => .ok (List.suffix_refl tokens)
  exact (skipGroup_confined rfl).bind fun _ rest _ => .ok (List.suffix_refl rest)

theorem numeral_confined {negative : Bool} {raw : String} {position : Nat}
    {within : tokens.length < size} :
    Confined tokens (numeral negative raw position >>= fun type => .ok ⟨type, tokens, within⟩) := by
  unfold numeral
  split
  · exact .ok (List.suffix_refl tokens)
  · exact .error trivial

variable (confining : inner.Confining)
include confining

theorem argumentsAfter_confined {seen : List TypeExpr} {within : tokens.length ≤ size} :
    Confined tokens (inner.argumentsAfter seen size tokens within) := by
  induction seen, tokens, within using argumentsAfter.induct with
  | case1 seen tokens within ih =>
      rw [argumentsAfter]
      refine (confining.type tokens).bind fun argument rest within => .ite (fun _ => ?_) fun _ => ?_
      · exact (ih ⟨argument, rest, within⟩).of_suffix (List.tail_suffix rest)
      · exact (expect_confined _ (by decide)).bind fun _ rest _ => .ok (List.suffix_refl rest)

theorem reference_confined : Confined tokens (inner.reference tokens) := by
  refine dottedName_confined.bind fun name rest _ => .ite (fun _ => ?_) fun _ => .ok (List.suffix_refl rest)
  refine Confined.of_suffix ?_ (List.tail_suffix rest)
  exact (argumentsAfter_confined confining).bind fun _ rest _ => .ok (List.suffix_refl rest)

theorem itemsAfter_confined {seen : List TypeExpr} {within : tokens.length ≤ size} :
    Confined tokens (inner.itemsAfter seen size tokens within) := by
  induction seen, tokens, within using itemsAfter.induct with
  | case1 seen tokens within closed =>
      rw [itemsAfter, dif_pos closed]
      exact .ok (List.tail_suffix tokens)
  | case2 seen tokens within opened =>
      rename_i ih
      rw [itemsAfter, dif_neg opened]
      refine Confined.of_suffix ?_ ((skipLabel_suffix _).trans (skip_suffix .ellipsis tokens))
      refine (confining.type _).bind fun item rest within => ?_
      refine Confined.of_suffix (.ite (fun _ => ?_) fun _ => ?_) (skip_suffix .question rest)
      · exact (ih ⟨item, rest, within⟩).of_suffix (List.tail_suffix _)
      · exact (expect_confined _ (by decide)).bind fun _ rest _ => .ok (List.suffix_refl rest)

theorem tuple_confined : Confined tokens (inner.tuple tokens) := by
  refine (expect_confined _ (by decide)).bind fun _ _ _ => ?_
  exact (itemsAfter_confined confining).bind fun _ rest _ => .ok (List.suffix_refl rest)

theorem function_confined : Confined tokens (inner.function tokens) := by
  refine skipTypeParameters_confined.bind fun _ _ _ => ?_
  refine (skipGroup_confined rfl).bind fun _ _ _ => ?_
  refine (expect_confined _ (by decide)).bind fun _ rest _ => ?_
  exact (confining.type rest).bind fun _ rest _ => .ok (List.suffix_refl rest)

theorem parenthesized_confined : Confined tokens (inner.parenthesized tokens) := by
  refine (expect_confined _ (by decide)).bind fun _ rest _ => ?_
  refine (confining.type rest).bind fun _ _ _ => ?_
  exact (expect_confined _ (by decide)).bind fun _ rest _ => .ok (List.suffix_refl rest)

theorem worded_confined {word : String} {first : Located} :
    Confined (first :: tokens) (inner.worded word first tokens) := by
  have behind := List.suffix_cons first tokens
  unfold worded
  refine .ite (fun _ => .ok behind) fun _ => .ite (fun _ => .ok behind) fun _ => ?_
  refine .ite (fun _ => ?_) fun _ => ?_
  · refine Confined.of_suffix ?_ behind
    exact dottedName_confined.bind fun _ rest _ => .ok (List.suffix_refl rest)
  refine .ite (fun _ => .ok ((List.tail_suffix tokens).trans behind)) fun _ => ?_
  refine .ite (fun _ => ?_) fun _ => ?_
  · refine Confined.of_suffix ?_ behind
    exact (function_confined confining).bind fun _ rest _ => .ok (List.suffix_refl rest)
  cases Keyword.ofWord? word with
  | some keyword => exact .ok behind
  | none => exact reference_confined confining

theorem marked_confined {mark : Mark} {first : Located} :
    Confined (first :: tokens) (inner.marked mark first tokens) := by
  have behind := List.suffix_cons first tokens
  unfold marked
  cases mark with
  | minus =>
      refine Confined.of_suffix ?_ behind
      simp only
      split
      · exact numeral_confined.of_suffix (List.suffix_cons _ _)
      · exact refuse_confined (by decide) tokens
  | openBrace => exact (confining.body _).bind fun _ rest _ => .ok (List.suffix_refl rest)
  | openBracket => exact tuple_confined confining
  | openParen =>
      exact .ite (fun _ => function_confined confining) fun _ => parenthesized_confined confining
  | openAngle => exact function_confined confining
  | _ => exact refuse_confined (by decide) _

theorem primary_confined : Confined tokens (inner.primary tokens) := by
  cases tokens with
  | nil => exact refuse_confined (by decide) []
  | cons first rest =>
      have behind := List.suffix_cons first rest
      obtain ⟨token, position, doc⟩ := first
      cases token with
      | word word => exact worded_confined confining
      | quoted | template => exact .ok behind
      | number raw => exact numeral_confined.of_suffix behind
      | mark mark => exact marked_confined confining
      | symbol c => exact refuse_confined (by decide) _

end Primaries

section Types

theorem skipOperators_suffix (hidden : Bool) (tokens : List Located) :
    (skipOperators hidden tokens).2 <:+ tokens := by
  induction tokens generalizing hidden with
  | nil => exact List.suffix_refl []
  | cons first rest ih =>
      rw [skipOperators]
      split
      · exact (ih true).trans (List.suffix_cons first rest)
      split
      · exact (ih hidden).trans (List.suffix_cons first rest)
      · exact List.suffix_refl _

theorem suffixes_confined {type : TypeExpr} {within : tokens.length < size} :
    Confined tokens (suffixes type size tokens within) := by
  induction type, tokens, within using suffixes.induct with
  | case1 type tokens within opened closed ih =>
      rw [suffixes, if_pos opened, if_pos closed]
      exact ih.of_suffix ((List.tail_suffix _).trans (List.tail_suffix tokens))
  | case2 type tokens within opened further ih =>
      rw [suffixes, if_pos opened, if_neg further]
      exact (skipGroup_confined rfl).bind fun _ rest within => ih ⟨(), rest, within⟩
  | case3 type tokens within plain =>
      rw [suffixes, if_neg plain]
      exact .ok (List.suffix_refl tokens)

variable (confining : inner.Confining)
include confining

theorem suffixed_confined : Confined tokens (inner.suffixed tokens) := by
  refine Confined.of_suffix ?_ (skipOperators_suffix false tokens)
  refine (primary_confined confining).bind fun _ _ _ => ?_
  exact suffixes_confined.bind fun _ rest _ => .ok (List.suffix_refl rest)

theorem intersectionAfter_confined {within : tokens.length < size} :
    Confined tokens (inner.intersectionAfter size tokens within) := by
  induction tokens, within using intersectionAfter.induct with
  | case1 tokens within further ih =>
      rw [intersectionAfter, if_pos further]
      refine Confined.of_suffix ?_ (List.tail_suffix tokens)
      exact (suffixed_confined confining).bind fun next rest within => ih ⟨next, rest, within⟩
  | case2 tokens within last =>
      rw [intersectionAfter, if_neg last]
      exact .ok (List.suffix_refl tokens)

theorem intersection_confined : Confined tokens (inner.intersection tokens) := by
  refine Confined.of_suffix ?_ (skip_suffix .ampersand tokens)
  refine (suffixed_confined confining).bind fun _ rest _ => ?_
  exact .ite (fun _ => intersectionAfter_confined confining) fun _ => .ok (List.suffix_refl rest)

theorem unionAfter_confined {seen : List TypeExpr} {within : tokens.length < size} :
    Confined tokens (inner.unionAfter seen size tokens within) := by
  induction seen, tokens, within using unionAfter.induct with
  | case1 seen tokens within further ih =>
      rw [unionAfter, if_pos further]
      refine Confined.of_suffix ?_ (List.tail_suffix tokens)
      exact (intersection_confined confining).bind fun next rest within => ih ⟨next, rest, within⟩
  | case2 seen tokens within last =>
      rw [unionAfter, if_neg last]
      exact .ok (List.suffix_refl tokens)

theorem union_confined : Confined tokens (inner.union tokens) := by
  refine Confined.of_suffix ?_ (skip_suffix .pipe tokens)
  refine (intersection_confined confining).bind fun _ _ _ => ?_
  exact (unionAfter_confined confining).bind fun _ rest _ => .ok (List.suffix_refl rest)

theorem conditional_confined : Confined tokens (inner.conditional tokens) := by
  refine (union_confined confining).bind fun check rest _ => ?_
  refine .ite (fun _ => ?_) fun _ => .ok (List.suffix_refl rest)
  refine Confined.of_suffix ?_ (List.tail_suffix rest)
  refine (union_confined confining).bind fun _ _ _ => ?_
  refine (expect_confined _ (by decide)).bind fun _ rest _ => ?_
  refine (confining.type rest).bind fun _ _ _ => ?_
  refine (expect_confined _ (by decide)).bind fun _ rest _ => ?_
  exact (confining.type rest).bind fun _ rest _ => .ok (List.suffix_refl rest)

end Types

section Members

theorem skipReadonly_suffix (tokens : List Located) : skipReadonly tokens <:+ tokens := by
  induction tokens with
  | nil => exact List.suffix_refl []
  | cons first rest ih =>
      rw [skipReadonly]
      split
      · exact ih.trans (List.suffix_cons first rest)
      · exact List.suffix_refl _

theorem skipSeparators_suffix (tokens : List Located) : skipSeparators tokens <:+ tokens :=
  List.dropWhile_suffix _

variable (confining : inner.Confining)
include confining

theorem skipAnnotation_confined : Confined tokens (inner.skipAnnotation tokens) := by
  refine .ite (fun _ => ?_) fun _ => .ok (List.suffix_refl tokens)
  refine Confined.of_suffix ?_ (List.tail_suffix tokens)
  exact (confining.type _).bind fun _ rest _ => .ok (List.suffix_refl rest)

theorem skipSignature_confined : Confined tokens (inner.skipSignature tokens) := by
  refine skipTypeParameters_confined.bind fun _ _ _ => ?_
  refine (skipGroup_confined rfl).bind fun _ _ _ => ?_
  exact (skipAnnotation_confined confining).bind fun _ rest _ => .ok (List.suffix_refl rest)

theorem skipIndexSignature_confined : Confined tokens (inner.skipIndexSignature tokens) := by
  refine (skipGroup_confined rfl).bind fun _ rest _ => ?_
  refine Confined.of_suffix ?_ (skip_suffix .question rest)
  exact (skipAnnotation_confined confining).bind fun _ rest _ => .ok (List.suffix_refl rest)

theorem memberAfter_confined {doc : Option String} {name : String} :
    Confined tokens (inner.memberAfter doc name tokens) := by
  refine Confined.of_suffix (.ite (fun _ => ?_) fun _ => .ite (fun _ => ?_) fun _ => ?_)
    (skip_suffix .question tokens)
  · refine Confined.of_suffix ?_ (List.tail_suffix _)
    exact (confining.type _).bind fun _ rest _ => .ok (List.suffix_refl rest)
  · exact (skipSignature_confined confining).bind fun _ rest _ => .ok (List.suffix_refl rest)
  · exact .ite (fun _ => .ok (List.suffix_refl _)) fun _ => refuse_confined (by decide) _

theorem namedMember_confined {doc : Option String} :
    Confined tokens (inner.namedMember doc tokens) := by
  unfold namedMember
  split
  · exact refuse_confined (by decide) []
  next first rest =>
  have behind := List.suffix_cons first rest
  split
  · refine Confined.of_suffix (.ite (fun _ => ?_) fun _ => memberAfter_confined confining) behind
    exact (skipSignature_confined confining).bind fun _ rest _ => .ok (List.suffix_refl rest)
  · exact (memberAfter_confined confining).of_suffix behind
  · exact (memberAfter_confined confining).of_suffix behind
  · exact (skipIndexSignature_confined confining).bind fun _ rest _ => .ok (List.suffix_refl rest)
  · exact (skipSignature_confined confining).bind fun _ rest _ => .ok (List.suffix_refl rest)
  · exact (skipSignature_confined confining).bind fun _ rest _ => .ok (List.suffix_refl rest)
  · exact refuse_confined (by decide) _

theorem member_confined : Confined tokens (inner.member tokens) := by
  refine Confined.of_suffix ?_ (skipReadonly_suffix tokens)
  exact (namedMember_confined confining).bind fun _ rest _ => .ok (List.suffix_refl rest)

theorem membersAfter_confined {seen : List Member} {within : tokens.length ≤ size} :
    Confined tokens (inner.membersAfter seen size tokens within) := by
  have behind := skipSeparators_suffix tokens
  induction seen, tokens, within using membersAfter.induct with
  | case1 seen tokens within _ start =>
      rw [membersAfter_ended inner start seen within]
      exact (refuse_confined (by decide) []).of_suffix (List.nil_suffix)
  | case2 seen tokens within _ first rest start closed =>
      obtain ⟨_, _, same⟩ := membersAfter_of_start inner start seen within
      rw [same, if_pos closed]
      exact .ok ((List.suffix_cons first rest).trans (start ▸ behind))
  | case3 seen tokens within _ first rest start opened ih =>
      obtain ⟨_, _, same⟩ := membersAfter_of_start inner start seen within
      rw [same, if_neg opened]
      refine Confined.of_suffix ?_ (start ▸ behind)
      exact (member_confined confining).bind fun next rest within =>
        ih ⟨next, rest, within⟩ (skipSeparators_suffix rest)

theorem objectBody_confined : Confined tokens (inner.objectBody tokens) := by
  refine (expect_confined _ (by decide)).bind fun _ _ _ => ?_
  exact (membersAfter_confined confining).bind fun _ rest _ => .ok (List.suffix_refl rest)

end Members

theorem ofNesting_confining (units : Nat) : (ofNesting units).Confining := by
  induction units with
  | zero => exact ⟨fun _ => .error trivial, fun _ => .error trivial⟩
  | succ units ih => exact ⟨fun _ => conditional_confined ih, fun _ => objectBody_confined ih⟩

end Level

section Interfaces
variable {tokens : List Located}

theorem bodyOnward_suffix (angles : Nat) (tokens : List Located) :
    bodyOnward angles tokens <:+ tokens := by
  induction tokens generalizing angles with
  | nil => exact List.suffix_refl []
  | cons first rest ih =>
      have behind := List.suffix_cons first rest
      rw [bodyOnward]
      split
      · exact List.suffix_refl _
      split
      · exact (ih _).trans behind
      split
      · exact (ih _).trans behind
      · exact (ih _).trans behind

theorem readInterface_confined : Confined tokens (readInterface tokens) := by
  refine (expectWord_confined (by decide)).bind fun name rest _ => ?_
  refine Confined.of_suffix (.ite (fun _ => refuse_confined (by decide) _) fun _ => ?_)
    (bodyOnward_suffix 0 rest)
  exact ((Level.ofNesting_confining maximumNesting).body _).bind
    fun _ rest _ => .ok (List.suffix_refl rest)

theorem interfacesAfter_about {seen : List Interface} {depth : Nat} {refusal : Refusal}
    (refused : interfacesAfter seen depth tokens = .error refusal) : refusal.About tokens := by
  induction seen, depth, tokens using interfacesAfter.induct with
  | case1 seen depth => rw [interfacesAfter] at refused; contradiction
  | case2 seen depth first rest opens ih =>
      rw [interfacesAfter, if_pos opens] at refused
      exact (ih refused).of_suffix (List.suffix_cons first rest)
  | case3 seen depth first rest opens closes ih =>
      rw [interfacesAfter, if_neg opens, if_pos closes] at refused
      exact (ih refused).of_suffix (List.suffix_cons first rest)
  | case4 seen depth first rest opens closes keyword ih =>
      rw [interfacesAfter, if_neg opens, if_neg closes, if_pos keyword] at refused
      refine Refusal.About.of_suffix ?_ (List.suffix_cons first rest)
      have confined : Confined rest (readInterface rest) := readInterface_confined
      generalize readInterface rest = outcome at refused confined ih
      cases confined with
      | ok behind => exact (ih _ refused).of_suffix behind
      | error about => cases refused; exact about
  | case5 seen depth first rest opens closes passed ih =>
      rw [interfacesAfter, if_neg opens, if_neg closes, if_neg passed] at refused
      exact (ih refused).of_suffix (List.suffix_cons first rest)

end Interfaces

section Sources
variable {source expected found : String} {position : Nat} {stream : TokenStream}

theorem tokenize_ne_unexpectedToken :
    tokenize source ≠ .error (.unexpectedToken expected found position) := by
  have after : ∀ seen pending start text,
      tokensAfter seen pending start text ≠ .error (.unexpectedToken expected found position) := by
    intro seen pending start text refused
    induction seen, pending, start, text using tokensAfter.induct with
    | case1 seen pending start => cases tokensAfter_nil.symm.trans refused
    | case2 seen pending start c rest unclosed cuts =>
        have same := (tokensAfter_unclosed cuts).symm.trans refused
        cases unclosed <;> cases same
    | case3 seen pending start c rest result cuts _ kind ih =>
        rw [tokensAfter_cons cuts, kind] at refused
        exact ih refused
    | case4 seen pending start c rest result cuts _ body kind ih =>
        rw [tokensAfter_cons cuts, kind] at refused
        exact ih refused
    | case5 seen pending start c rest result cuts _ token kind ih =>
        rw [tokensAfter_cons cuts, kind] at refused
        exact ih refused
  unfold tokenize
  split
  · intro refused
    cases refused
  · exact after _ _ _ _

/-- What an error found is a token at its position, or the end of the source. -/
def TokenStream.Finds (stream : TokenStream) (found : String) (position : Nat) : Prop :=
  (∃ located ∈ stream.tokens, located.position = position ∧ located.token.describe = found) ∨
    (found = endOfInput ∧ position = stream.stop)

theorem finds_of_unexpected {among : Option Located}
    (about : ∀ located ∈ among, located ∈ stream.tokens)
    (same : Refusal.toError stream.stop (.unexpected expected among) =
      .unexpectedToken expected found position) : stream.Finds found position := by
  cases among with
  | none =>
      cases same
      exact .inr ⟨rfl, rfl⟩
  | some located =>
      cases same
      exact .inl ⟨located, about located rfl, rfl, rfl⟩

-- Each token has a position of its own, before the end of the source.
theorem not_finds_of_opening {opening closing : Mark} {first : Located}
    (increasing : (stream.tokens.map Located.position ++ [stream.stop]).Pairwise (· < ·))
    (here : first ∈ stream.tokens) (opens : first.token = .mark opening)
    (pair : opening.closer? = some closing) : ¬stream.Finds endOfInput first.position := by
  obtain ⟨inOrder, -, before⟩ := List.pairwise_append.mp increasing
  rintro (⟨located, member, same, described⟩ | ⟨-, atEnd⟩)
  · obtain rfl : located = first :=
      List.inj_on_of_nodup_map (inOrder.imp Nat.ne_of_lt) member here same
    rw [opens] at described
    cases opening <;> contradiction
  · have earlier := before _ (List.mem_map_of_mem here) _ (List.mem_singleton_self _)
    omega

/-- An error about an unexpected token found a token at its position, or the end of the source,
unless it misses a closing bracket. Then it found the end of the source, and its position is
that of the bracket which is not closed. -/
theorem SourceFile.unexpectedToken_position
    (refused : SourceFile.parse source = .error (.unexpectedToken expected found position)) :
    ∃ stream, tokenize source = .ok stream ∧ stream.stop = source.utf8ByteSize ∧
      (stream.Finds found position ↔ expected ≠ closingBracket) ∧
      (expected = closingBracket → found = endOfInput ∧ ∃ opening behind,
        opening :: behind <:+ stream.tokens ∧ opening.position = position ∧
          OpensUnclosed opening behind) := by
  rcases bind_eq_error.mp refused with refused | ⟨stream, tokenized, refused⟩
  · exact absurd refused tokenize_ne_unexpectedToken
  obtain ⟨ends, divides⟩ := exists_divides tokenized
  refine ⟨stream, tokenized, divides.stop_eq.trans (Text.utf8Size_toList source), ?_⟩
  unfold SourceFile.ofTokens at refused
  split at refused
  · contradiction
  next refusal read =>
  have about := interfacesAfter_about read
  cases refusal with
  | unexpected expected' among =>
      obtain ⟨named, about⟩ := about
      obtain rfl : expected' = expected := by cases among <;> cases refused <;> rfl
      have finds := finds_of_unexpected about (Except.error.inj refused)
      exact ⟨iff_of_true finds named, fun missing => absurd missing named⟩
  | unclosed opening =>
      cases refused
      obtain ⟨first, behind, within, rfl, unclosed⟩ := about
      obtain ⟨mark, closing, opens, pair, -⟩ := id unclosed
      have none := not_finds_of_opening divides.increasing (within.subset List.mem_cons_self) opens pair
      exact ⟨iff_of_false none (absurd rfl), fun _ => ⟨rfl, first, behind, within, rfl, unclosed⟩⟩
  | invalidNumber | tooDeep => cases refused

def untyped : String := "interface A\x7bx:\x7d"

def untypedTokens : List Located :=
  [⟨.word "interface", 0, none⟩, ⟨.word "A", 10, none⟩, ⟨.mark .openBrace, 11, none⟩,
    ⟨.word "x", 12, none⟩, ⟨.mark .colon, 13, none⟩, ⟨.mark .closeBrace, 14, none⟩]

theorem SourceFile.unexpectedToken_position_untyped :
    tokenize untyped = .ok ⟨untypedTokens, 15, none⟩ ∧
      SourceFile.parse untyped = .error (.unexpectedToken "type" "\x7d" 14) ∧
      TokenStream.Finds ⟨untypedTokens, 15, none⟩ "\x7d" 14 := by
  have tokenized : tokenize untyped = .ok ⟨untypedTokens, 15, none⟩ := by decide +kernel
  have refused : SourceFile.parse untyped = .error (.unexpectedToken "type" "\x7d" 14) := by
    rw [SourceFile.parse, tokenized]
    with_unfolding_all rfl
  obtain ⟨stream, same, -, finds, -⟩ := SourceFile.unexpectedToken_position refused
  cases tokenized.symm.trans same
  exact ⟨tokenized, refused, finds.mpr (by decide)⟩

def unclosedMethod : String := "interface A \x7b m(x: string \x7d"

def unclosedMethodTokens : List Located :=
  [⟨.word "interface", 0, none⟩, ⟨.word "A", 10, none⟩, ⟨.mark .openBrace, 12, none⟩,
    ⟨.word "m", 14, none⟩, ⟨.mark .openParen, 15, none⟩, ⟨.word "x", 16, none⟩,
    ⟨.mark .colon, 17, none⟩, ⟨.word "string", 19, none⟩, ⟨.mark .closeBrace, 26, none⟩]

/-- The error found the end of the source and has the position of a parenthesis. -/
theorem unclosedMethod_misplaced :
    tokenize unclosedMethod = .ok ⟨unclosedMethodTokens, 27, none⟩ ∧
      SourceFile.parse unclosedMethod =
        .error (.unexpectedToken closingBracket endOfInput 15) ∧
      ¬TokenStream.Finds ⟨unclosedMethodTokens, 27, none⟩ endOfInput 15 := by
  have tokenized : tokenize unclosedMethod = .ok ⟨unclosedMethodTokens, 27, none⟩ := by
    decide +kernel
  refine ⟨tokenized, ?_, ?_⟩
  · rw [SourceFile.parse, tokenized]
    with_unfolding_all rfl
  · unfold TokenStream.Finds
    decide

end Sources

end Toggles.Declaration
