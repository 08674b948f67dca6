import Toggles.Proofs.CursorReading
import Toggles.Proofs.Redocumented

/-! Each rule reads what its reader reads.

The readers of a level are followed at a depth of nested calls: what is left of the nesting and what
is open of it make up the maximum. A rule that is followed inside a call is followed around it, so
by induction over the levels a whole source is read alike, and the steps for it come to an end.
-/

set_option autoImplicit false

namespace Toggles.Declaration

namespace Rule

open Program

section Groups
variable {stream : TokenStream} {index nesting size : Nat} {tokens : List Located}

theorem group_follows (here : stream.At tokens index) (opening closing : Mark) :
    Follows stream (bodies .group (opening, closing)) index nesting
      (skipGroup opening closing tokens) := by
  cases tokens with
  | nil =>
      refine .after (evaluates_look here.sight_nil) (.after (evaluates_isAt here opening) ?_)
      exact .unexpected here _
  | cons first rest =>
      refine .after (evaluates_look here.sight_cons) (.after (evaluates_isAt here opening) ?_)
      simp only [startsWith_cons]
      refine .ite (fun opens => ?_) fun _ => .unexpected here _
      have seeks : Seeks stream (bodies .groupEnd ((opening, closing), first.position, 0)) index
        nesting _ _ _ := groupEnd_seeks here 0
      rw [afterGroup?, if_pos opens] at seeks
      split
      · next found =>
          rw [found] at seeks
          obtain ⟨behind, after, evaluates⟩ := seeks
          exact .ok after evaluates.call
      · next unclosed =>
          rw [unclosed] at seeks
          obtain ⟨behind, evaluates⟩ := seeks
          exact .error evaluates.call

theorem typeParameters_follows (here : stream.At tokens index) :
    Follows stream typeParameters index nesting (Level.skipTypeParameters tokens) :=
  .isAt here _ (fun _ => (group_follows here _ _).call.widen fun _ _ _ => ⟨_, rfl⟩) fun _ => .done here

theorem dottedParts_follows {name : String} {within : tokens.length < size}
    (here : stream.At tokens index) :
    Follows stream (bodies .dottedParts name) index nesting
      (Level.dottedAfter name size tokens within) := by
  induction name, tokens, within using Level.dottedAfter.induct generalizing index with
  | case1 name => exact .after (evaluates_isAt here .dot) (.done here)
  | case2 name first dot part position doc rest within ih =>
      rw [Level.dottedAfter, if_pos dot]
      refine .after (evaluates_isAt here .dot) ?_
      rw [if_pos (startsWith_cons.mpr dot)]
      exact .move here fun behind => .after (evaluates_takeWord behind) (ih behind.behind).call
  | case3 name first dot rest within noWord =>
      unfold Level.dottedAfter
      rw [if_pos dot]
      refine .after (evaluates_isAt here .dot) ?_
      rw [if_pos (startsWith_cons.mpr dot)]
      refine .move here fun behind => ?_
      have follows : Follows stream (takeWord "type name after `.`") (index + 1) nesting _ :=
        takeWord_follows behind _
      unfold expectWord at follows
      split
      · exact (noWord _ _ _ _ _ rfl HEq.rfl).elim
      · split at follows
        · exact (noWord _ _ _ _ _ rfl HEq.rfl).elim
        · cases follows with
          | error evaluates => exact .error (evaluates.bind_error _)
  | case4 name first rest within other =>
      unfold Level.dottedAfter
      rw [if_neg other]
      refine .after (evaluates_isAt here .dot) ?_
      rw [if_neg (mt startsWith_cons.mp other)]
      exact .done here

theorem dottedName_follows (here : stream.At tokens index) :
    Follows stream (bodies .dottedName ()) index nesting (Level.dottedName tokens) :=
  (takeWord_follows here _).bind fun _ _ _ _ here => (dottedParts_follows here).call

theorem numeral_follows {negative : Bool} {raw : String} {position : Nat}
    {within : tokens.length < size} (here : stream.At tokens index) :
    Follows stream (numeral negative raw position) index nesting
      (Level.numeral negative raw position >>= fun type => .ok ⟨type, tokens, within⟩) := by
  unfold numeral Level.numeral
  cases numeralType? negative raw.toList with
  | some type => exact .done here
  | none => exact .error (.fail _)

end Groups

end Rule

namespace Level

open Rule

/-- The readers of a level are followed where this many calls that count as nested are open. -/
structure Followed (inner : Level) (stream : TokenStream) (nesting : Nat) : Prop where
  type : ∀ {tokens index}, stream.At tokens index →
    Follows stream (bodies .type ()) index nesting (inner.type tokens)
  body : ∀ {first rest index}, stream.At (first :: rest) index → first.token = .mark .openBrace →
    Follows stream (bodies .objectBody ()) index nesting (inner.body (first :: rest))

variable {inner : Level} {stream : TokenStream} {index nesting size : Nat} {first : Located}
  {tokens rest : List Located}

section Primaries
variable (followed : inner.Followed stream nesting)
include followed

theorem argumentsAfter_followed {seen : List TypeExpr} {within : tokens.length ≤ size}
    (here : stream.At tokens index) :
    Follows stream (bodies .arguments seen) index nesting
      (inner.argumentsAfter seen size tokens within) := by
  induction seen, tokens, within using argumentsAfter.induct generalizing index with
  | case1 seen tokens within ih =>
      rw [argumentsAfter]
      refine (followed.type here).call.bind fun argument rest within behind here => ?_
      refine .take here .comma (fun _ after => (ih ⟨argument, rest, within⟩ after).call) fun _ => ?_
      exact (takeMark_follows here _ _).map fun _ _ _ => ⟨_, rfl⟩

theorem reference_followed (here : stream.At tokens index) :
    Follows stream (bodies .reference ()) index nesting (inner.reference tokens) := by
  refine (dottedName_follows here).call.bind fun name rest within behind here => ?_
  refine .take here .openAngle (fun _ after => ?_) fun _ => .done here
  exact (argumentsAfter_followed followed after).call.map fun _ _ _ => ⟨_, rfl⟩

theorem itemsAfter_followed {seen : List TypeExpr} {within : tokens.length ≤ size}
    (here : stream.At tokens index) :
    Follows stream (bodies .items seen) index nesting (inner.itemsAfter seen size tokens within) := by
  induction seen, tokens, within using itemsAfter.induct generalizing index with
  | case1 seen tokens within closed =>
      obtain ⟨behind, evaluates⟩ := evaluates_take_true here closed
      rw [itemsAfter, dif_pos closed]
      exact .after evaluates (.done behind)
  | case2 seen tokens within opened =>
      rename_i ih
      rw [itemsAfter, dif_neg opened]
      refine .after (evaluates_take_false here (Bool.eq_false_iff.mpr opened)) ?_
      refine .passing (take_passes here .ellipsis) fun _ here => ?_
      refine .passing (label_passes here) fun _ here => ?_
      refine (followed.type here).call.bind fun item rest within _ here => ?_
      refine .passing (take_passes here .question) fun _ here => ?_
      refine .take here .comma (fun _ after => (ih ⟨item, rest, within⟩ after).call) fun _ => ?_
      exact (takeMark_follows here _ _).map fun _ _ _ => ⟨_, rfl⟩

-- A tuple is only read at its bracket.
theorem tuple_followed (here : stream.At (first :: rest) index)
    (opens : first.token = .mark .openBracket) :
    Follows stream (bodies .tuple ()) index nesting (inner.tuple (first :: rest)) := by
  have taken : expect .openBracket "`[`" (first :: rest) =
      .ok ⟨(), rest, Reading.length_lt_cons first rest⟩ := if_pos opens
  rw [tuple, taken]
  refine .move here fun behind => ?_
  exact (itemsAfter_followed followed behind).call.map fun _ _ _ => ⟨_, rfl⟩

theorem function_followed (here : stream.At tokens index) :
    Follows stream (bodies .function ()) index nesting (inner.function tokens) := by
  refine (typeParameters_follows here).bind fun _ _ _ _ here => ?_
  refine (group_follows here _ _).call.bind fun _ _ _ _ here => ?_
  refine (takeMark_follows here _ _).bind fun _ _ _ _ here => ?_
  exact (followed.type here).call.map fun _ _ _ => ⟨_, rfl⟩

theorem worded_followed {word : String} (here : stream.At (first :: rest) index) :
    Follows stream (Rule.worded word) index nesting (inner.worded word first rest) := by
  have behind := here.behind
  refine .ite (fun _ => .move here .done) fun _ => .ite (fun _ => .move here .done) fun _ => ?_
  refine .ite (fun _ => .move here fun behind => ?_) fun _ => ?_
  · exact (dottedName_follows behind).call.map fun _ _ _ => ⟨_, rfl⟩
  refine .after (Evaluates.look 1) ?_
  rw [behind.isAnyWord_sight]
  refine .ite (fun infers => .move here fun behind => ?_) fun _ => ?_
  · cases rest with
    | nil => simp [startsWithAnyWord] at infers
    | cons second others => exact .move behind .done
  refine .ite (fun _ => .move here fun behind => ?_) fun _ => ?_
  · exact (function_followed followed behind).call.widen fun _ _ _ => ⟨_, rfl⟩
  unfold plainWord
  cases Keyword.ofWord? word with
  | some keyword => exact .move here .done
  | none => exact (reference_followed followed here).call

theorem parenthesized_followed (here : stream.At (first :: rest) index)
    (opens : first.token = .mark .openParen) :
    Follows stream (do
      Program.move
      let content ← Rule.call .type ()
      Program.takeMark .closeParen "`)`"
      return content) index nesting (inner.parenthesized (first :: rest)) := by
  have taken : expect .openParen "`(`" (first :: rest) =
      .ok ⟨(), rest, Reading.length_lt_cons first rest⟩ := if_pos opens
  rw [parenthesized, taken]
  refine .move here fun behind => ?_
  refine (followed.type behind).call.bind fun _ _ _ _ here => ?_
  exact (takeMark_follows here _ _).map fun _ _ _ => ⟨_, rfl⟩

theorem marked_followed {mark : Mark} (here : stream.At (first :: rest) index)
    (begins : first.token = .mark mark) :
    Follows stream (Rule.marked mark first.position) index nesting (inner.marked mark first rest) := by
  cases mark with
  | minus =>
      refine .move here fun behind => ?_
      rcases rest with - | ⟨⟨token, position, doc⟩, others⟩
      · exact .after (evaluates_look behind.sight_nil) (.unexpected behind _)
      refine .after (evaluates_look behind.sight_cons) ?_
      cases token with
      | number raw => exact .move behind numeral_follows
      | word | quoted | template | mark | symbol => exact .unexpected behind _
  | openBrace => exact (followed.body here begins).call.map fun _ _ _ => ⟨_, rfl⟩
  | openBracket => exact (tuple_followed followed here begins).call
  | openParen =>
      have ahead : Evaluates stream bodies (bodies .arrowAhead (0, 0)) ⟨index, nesting⟩ _ _ :=
        arrowAhead_evaluates here 0
      rw [arrowAfterGroup, if_pos begins] at ahead
      refine .after ahead.call (.ite (fun _ => ?_) fun _ => parenthesized_followed followed here begins)
      exact (function_followed followed here).call
  | openAngle => exact (function_followed followed here).call
  | _ => exact .unexpected here _

theorem primary_followed (here : stream.At tokens index) :
    Follows stream (bodies .primary ()) index nesting (inner.primary tokens) := by
  rcases tokens with - | ⟨first, rest⟩
  · exact .after (evaluates_look here.sight_nil) (.unexpected here _)
  refine .after (evaluates_look here.sight_cons) ?_
  obtain ⟨token, position, doc⟩ := first
  cases token with
  | word word => exact worded_followed followed here
  | quoted | template => exact .move here .done
  | number raw => exact .move here numeral_follows
  | mark mark => exact marked_followed followed here rfl
  | symbol c => exact .unexpected here _

end Primaries

section Types

theorem suffixes_followed {type : TypeExpr} {within : tokens.length < size}
    (here : stream.At tokens index) :
    Follows stream (bodies .suffixes type) index nesting (suffixes type size tokens within) := by
  induction type, tokens, within using suffixes.induct generalizing index with
  | case1 type tokens within opened closed ih =>
      have filled := ne_nil_of_startsWith opened
      rw [suffixes, if_pos opened, if_pos closed]
      refine .after (evaluates_isAt here .openBracket) ?_
      rw [if_pos opened]
      refine .after (Evaluates.look 1) ?_
      rw [(here.tail filled).isMark_sight, if_pos closed]
      refine .moveTail here filled fun behind => ?_
      exact .moveTail behind (ne_nil_of_startsWith closed) fun further => (ih further).call
  | case2 type tokens within opened further ih =>
      have filled := ne_nil_of_startsWith opened
      rw [suffixes, if_pos opened, if_neg further]
      refine .after (evaluates_isAt here .openBracket) ?_
      rw [if_pos opened]
      refine .after (Evaluates.look 1) ?_
      rw [(here.tail filled).isMark_sight, if_neg further]
      exact (group_follows here _ _).call.bind fun _ rest within _ here => (ih ⟨(), rest, within⟩ here).call
  | case3 type tokens within plain =>
      rw [suffixes, if_neg plain]
      refine .after (evaluates_isAt here .openBracket) ?_
      rw [if_neg plain]
      exact .done here

variable (followed : inner.Followed stream nesting)
include followed

theorem suffixed_followed (here : stream.At tokens index) :
    Follows stream (bodies .suffixed ()) index nesting (inner.suffixed tokens) := by
  refine .passing (operators_passes here false).call fun _ here => ?_
  refine (primary_followed followed here).call.bind fun _ _ _ _ here => ?_
  exact (suffixes_followed here).call.map fun _ _ _ => ⟨_, rfl⟩

theorem intersectionAfter_followed {within : tokens.length < size} (here : stream.At tokens index) :
    Follows stream (bodies .intersectionMembers ()) index nesting
      (inner.intersectionAfter size tokens within) := by
  induction tokens, within using intersectionAfter.induct generalizing index with
  | case1 tokens within further ih =>
      obtain ⟨behind, evaluates⟩ := evaluates_take_true here further
      rw [intersectionAfter, if_pos further]
      refine .after evaluates ?_
      exact (suffixed_followed followed behind).call.bind fun next rest within _ here =>
        (ih ⟨next, rest, within⟩ here).call
  | case2 tokens within last =>
      rw [intersectionAfter, if_neg last]
      exact .after (evaluates_take_false here (Bool.eq_false_iff.mpr last)) (.done here)

theorem intersection_followed (here : stream.At tokens index) :
    Follows stream (bodies .intersection ()) index nesting (inner.intersection tokens) := by
  refine .passing (take_passes here .ampersand) fun _ here => ?_
  refine (suffixed_followed followed here).call.bind fun _ _ _ _ here => ?_
  exact .isAt here .ampersand (fun _ => (intersectionAfter_followed followed here).call) fun _ => .done here

theorem unionAfter_followed {seen : List TypeExpr} {within : tokens.length < size}
    (here : stream.At tokens index) :
    Follows stream (bodies .unionMembers seen) index nesting
      (inner.unionAfter seen size tokens within) := by
  induction seen, tokens, within using unionAfter.induct generalizing index with
  | case1 seen tokens within further ih =>
      obtain ⟨behind, evaluates⟩ := evaluates_take_true here further
      rw [unionAfter, if_pos further]
      refine .after evaluates ?_
      exact (intersection_followed followed behind).call.bind fun next rest within _ here =>
        (ih ⟨next, rest, within⟩ here).call
  | case2 seen tokens within last =>
      rw [unionAfter, if_neg last]
      exact .after (evaluates_take_false here (Bool.eq_false_iff.mpr last)) (.done here)

theorem union_followed (here : stream.At tokens index) :
    Follows stream (bodies .union ()) index nesting (inner.union tokens) := by
  refine .passing (take_passes here .pipe) fun _ here => ?_
  refine (intersection_followed followed here).call.bind fun _ _ _ _ here => ?_
  exact (unionAfter_followed followed here).call.map fun _ _ _ => ⟨_, rfl⟩

theorem conditional_followed (here : stream.At tokens index) :
    Follows stream (bodies .conditional ()) index nesting (inner.conditional tokens) := by
  refine (union_followed followed here).call.bind fun check rest within _ here => ?_
  refine .after (Evaluates.look 0) ?_
  rw [Nat.add_zero, here.isWord_sight]
  refine .ite (fun extending => ?_) fun _ => .done here
  rcases rest with - | ⟨first, rest⟩
  · contradiction
  refine .move here fun behind => ?_
  refine (union_followed followed behind).call.bind fun _ _ _ _ here => ?_
  refine (takeMark_follows here _ _).bind fun _ _ _ _ here => ?_
  refine (followed.type here).call.bind fun _ _ _ _ here => ?_
  refine (takeMark_follows here _ _).bind fun _ _ _ _ here => ?_
  exact (followed.type here).call.map fun _ _ _ => ⟨_, rfl⟩

end Types

section Members

variable (followed : inner.Followed stream nesting)
include followed

theorem skipAnnotation_followed (here : stream.At tokens index) :
    Follows stream Rule.annotation index nesting (inner.skipAnnotation tokens) := by
  refine .take here .colon (fun _ after => ?_) fun _ => .done here
  exact (followed.type after).call.map fun _ _ _ => ⟨_, rfl⟩

theorem skipSignature_followed (here : stream.At tokens index) :
    Follows stream (bodies .signature ()) index nesting (inner.skipSignature tokens) := by
  refine (typeParameters_follows here).bind fun _ _ _ _ here => ?_
  refine (group_follows here _ _).call.bind fun _ _ _ _ here => ?_
  exact (skipAnnotation_followed followed here).widen fun _ _ _ => ⟨_, rfl⟩

theorem skipIndexSignature_followed (here : stream.At tokens index) :
    Follows stream Rule.indexSignature index nesting (inner.skipIndexSignature tokens) := by
  refine (group_follows here _ _).call.bind fun _ _ _ _ here => ?_
  refine .passing (take_passes here .question) fun _ here => ?_
  exact (skipAnnotation_followed followed here).widen fun _ _ _ => ⟨_, rfl⟩

theorem memberAfter_followed {doc : Option String} {name : String}
    (here : stream.At (first :: rest) index) :
    Follows stream (Rule.property doc name) index nesting (inner.memberAfter doc name rest) := by
  refine .move here fun behind => ?_
  refine .passing (take_passes behind .question) fun place here => ?_
  refine .after (Evaluates.look 0) ?_
  simp only [Nat.add_zero, here.isMark_sight]
  refine .ite (fun typed => ?_) fun _ => .ite (fun _ => ?_) fun _ => .ite (fun _ => .done here)
    fun _ => .unexpected here _
  · refine .moveTail here (ne_nil_of_startsWith typed) fun behind => ?_
    exact (followed.type behind).call.map fun _ _ _ => ⟨_, rfl⟩
  · exact (skipSignature_followed followed here).call.map fun _ _ _ => ⟨_, rfl⟩

theorem namedMember_followed {doc : Option String} (here : stream.At tokens index) :
    Follows stream (Rule.named doc) index nesting (inner.namedMember doc tokens) := by
  rcases tokens with - | ⟨⟨token, position, comment⟩, rest⟩
  · exact .after (evaluates_look here.sight_nil) (.unexpected here _)
  refine .after (evaluates_look here.sight_cons) ?_
  cases token with
  | word name =>
      refine .after (Evaluates.look 1) ?_
      simp only [here.behind.isMark_sight]
      refine .ite (fun _ => .move here fun behind => ?_) fun _ => memberAfter_followed followed here
      exact (skipSignature_followed followed behind).call.map fun _ _ _ => ⟨_, rfl⟩
  | number name | quoted name => exact memberAfter_followed followed here
  | mark mark =>
      cases mark with
      | openBracket => exact (skipIndexSignature_followed followed here).map fun _ _ _ => ⟨_, rfl⟩
      | openParen | openAngle =>
          exact (skipSignature_followed followed here).call.map fun _ _ _ => ⟨_, rfl⟩
      | _ => exact .unexpected here _
  | template | symbol => exact .unexpected here _

theorem member_followed (here : stream.At tokens index) :
    Follows stream (bodies .member ()) index nesting (inner.member tokens) := by
  -- At the end of the source there is a documentation, but no member that has it.
  cases tokens with
  | nil =>
      refine .after (evaluates_look here.sight_nil) ?_
      refine .passing (modifiers_passes here).call fun _ here => ?_
      exact (namedMember_followed followed here).widen fun _ _ _ => ⟨_, rfl⟩
  | cons first rest =>
      refine .after (evaluates_look here.sight_cons) ?_
      refine .passing (modifiers_passes here).call fun _ here => ?_
      exact (namedMember_followed followed here).widen fun _ _ _ => ⟨_, rfl⟩

theorem membersAfter_followed {seen : List Member} {within : tokens.length ≤ size}
    (here : stream.At tokens index) :
    Follows stream (bodies .members seen) index nesting
      (inner.membersAfter seen size tokens within) := by
  induction seen, tokens, within using membersAfter.induct generalizing index with
  | case1 seen tokens within _ start =>
      rw [membersAfter_ended inner start seen within]
      refine .passing (separators_passes here).call fun _ here => ?_
      rw [start] at here
      exact .after (evaluates_look here.sight_nil) (.unexpected here _)
  | case2 seen tokens within _ first rest start closed =>
      obtain ⟨_, _, same⟩ := membersAfter_of_start inner start seen within
      rw [same, if_pos closed]
      refine .passing (separators_passes here).call fun _ here => ?_
      rw [start] at here
      refine .after (evaluates_look here.sight_cons) ?_
      simp only [if_pos closed]
      exact .move here .done
  | case3 seen tokens within _ first rest start opened ih =>
      obtain ⟨_, _, same⟩ := membersAfter_of_start inner start seen within
      rw [same, if_neg opened]
      refine .passing (separators_passes here).call fun _ here => ?_
      rw [start] at here
      refine .after (evaluates_look here.sight_cons) ?_
      simp only [if_neg opened]
      exact (member_followed followed here).call.bind fun next rest within _ here =>
        (ih ⟨next, rest, within⟩ here).call

end Members

section Nesting

theorem nest_follows {rule : Rule} {argument : rule.Argument} {position : Nat}
    {outcome : Outcome rule.Result size} (room : nesting + 1 ≤ maximumNesting)
    (follows : Follows stream (bodies rule argument) index (nesting + 1) outcome) :
    Follows stream (Rule.nest position rule argument) index nesting outcome := by
  cases follows with
  | ok here evaluates => exact .ok here (.nest room evaluates)
  | error evaluates => exact .error (.nest room evaluates)

-- The position is that of the place where what is nested begins, and the cursor may be behind it.
theorem nest_refused {rule : Rule} {argument : rule.Argument} {place : Nat}
    (full : nesting = maximumNesting) (begins : stream.At tokens place) :
    Follows stream (Rule.nest (stream.sight place).position rule argument) index nesting
      (.error (.tooDeep tokens.head?) : Outcome rule.Result size) := by
  have shown : Refusal.toError stream.stop (.tooDeep tokens.head?) =
      .nestingTooDeep maximumNesting (nesting + 1) (stream.sight place).position := by
    subst full
    cases tokens with
    | nil => rw [begins.sight_nil]; rfl
    | cons first rest => rw [begins.sight_cons]; rfl
  have evaluates : Evaluates stream bodies
      (Rule.nest (stream.sight place).position rule argument) ⟨index, nesting⟩ _ _ :=
    .nest_tooDeep (full ▸ Nat.lt_succ_self _)
  exact .error (shown ▸ evaluates)

theorem ofNesting_followed {units : Nat} (left : units + nesting = maximumNesting) :
    (ofNesting units).Followed stream nesting := by
  induction units generalizing nesting with
  | zero =>
      have full : nesting = maximumNesting := (Nat.zero_add nesting).symm.trans left
      refine ⟨fun here => .after (Evaluates.look 0) (nest_refused full here), @fun _ _ index here opens => ?_⟩
      have taken : Evaluates stream bodies (Program.take .openBrace) ⟨index, nesting⟩ _ _ :=
        (evaluates_take_true here (startsWith_cons.mpr opens)).2
      exact .after (Evaluates.look 0) (.after (taken.bind (.done ())) (nest_refused full here))
  | succ units ih =>
      have followed : (ofNesting units).Followed stream (nesting + 1) := ih (by omega)
      have room : nesting + 1 ≤ maximumNesting := by omega
      refine ⟨fun here => ?_, fun here opens => ?_⟩
      · exact .after (Evaluates.look 0) (nest_follows room (conditional_followed followed here))
      · refine .after (Evaluates.look 0) ?_
        refine (takeMark_follows here _ _).bind fun _ _ _ _ here => ?_
        exact (nest_follows room (membersAfter_followed followed here)).widen fun _ _ _ => ⟨_, rfl⟩

end Nesting

end Level

section Sources
variable {stream : TokenStream} {index : Nat} {first : Located} {tokens rest : List Located}

open Rule

theorem readInterface_follows (here : stream.At (first :: rest) index) :
    Follows stream (bodies .interface ()) index 0 (readInterface rest) := by
  refine .move here fun behind => ?_
  refine (takeWord_follows behind _).bind fun name after _ place here => ?_
  have heading : Seeks stream (Rule.call .heading 0) place 0 _ _ _ := (heading_seeks here 0).call
  simp only
  split at heading
  · next none =>
      obtain ⟨final, evaluates⟩ := heading
      rw [if_pos none, List.isEmpty_iff.mp none]
      exact .error (evaluates.bind_error _)
  · next some =>
      have filled : bodyOnward 0 after ≠ [] := fun none => some (List.isEmpty_iff.mpr none)
      obtain ⟨brace, others, found⟩ := List.exists_cons_of_ne_nil filled
      rw [if_neg some]
      refine .passing heading fun behind here => ?_
      have body : Follows stream (bodies .objectBody ()) behind 0
          (topLevel.body (bodyOnward 0 after)) := by
        rw [found] at here ⊢
        exact (Level.ofNesting_followed rfl).body here (opens_of_bodyOnward found)
      exact body.call.map fun _ _ _ => ⟨_, rfl⟩

theorem file_evaluates {seen : List Interface} {depth : Nat} (here : stream.At tokens index) :
    ∃ behind, Evaluates stream bodies (bodies .file (seen, depth)) ⟨index, 0⟩
      (match interfacesAfter seen depth tokens with
        | .ok interfaces => .ok ⟨interfaces⟩
        | .error refusal => .error (refusal.toError stream.stop)) ⟨behind, 0⟩ := by
  induction seen, depth, tokens using interfacesAfter.induct generalizing index with
  | case1 seen depth =>
      rw [interfacesAfter]
      exact ⟨index, (evaluates_look here.sight_nil).bind (.done _)⟩
  | case2 seen depth first rest opens ih =>
      obtain ⟨behind, evaluates⟩ := ih here.behind
      rw [interfacesAfter, if_pos opens]
      refine ⟨behind, (evaluates_look here.sight_cons).bind ?_⟩
      simp only [if_pos opens]
      exact (evaluates_move here).bind evaluates.call
  | case3 seen depth first rest opens closes ih =>
      obtain ⟨behind, evaluates⟩ := ih here.behind
      rw [interfacesAfter, if_neg opens, if_pos closes]
      refine ⟨behind, (evaluates_look here.sight_cons).bind ?_⟩
      simp only [if_neg opens, if_pos closes]
      exact (evaluates_move here).bind evaluates.call
  | case4 seen depth first rest opens closes keyword ih =>
      have follows := readInterface_follows here
      rw [interfacesAfter, if_neg opens, if_neg closes, if_pos keyword]
      generalize readInterface rest = outcome at follows ih
      have reads : ∀ {final outcome}, Evaluates stream bodies (do
          let declared ← Rule.call .interface ()
          Rule.call .file (declared :: seen, depth)) ⟨index, 0⟩ outcome final →
          Evaluates stream bodies (bodies .file (seen, depth)) ⟨index, 0⟩ outcome final := by
        intro final outcome evaluates
        refine (evaluates_look here.sight_cons).bind ?_
        simp only [if_neg opens, if_neg closes]
        refine (evaluates_look rfl).bind ?_
        rwa [here.behind.isAnyWord_sight, if_pos keyword]
      cases follows with
      | @ok declared after within behind here evaluates =>
          obtain ⟨final, evaluation⟩ := ih ⟨declared, after, within⟩ here
          exact ⟨final, reads (evaluates.call.bind evaluation.call)⟩
      | @error refusal behind evaluates =>
          exact ⟨behind, reads (evaluates.call.bind_error _)⟩
  | case5 seen depth first rest opens closes passed ih =>
      obtain ⟨behind, evaluates⟩ := ih here.behind
      rw [interfacesAfter, if_neg opens, if_neg closes, if_neg passed]
      refine ⟨behind, (evaluates_look here.sight_cons).bind ?_⟩
      simp only [if_neg opens, if_neg closes]
      refine (evaluates_look rfl).bind ?_
      rw [here.behind.isAnyWord_sight, if_neg passed]
      exact (evaluates_move here).bind evaluates.call

/-- The steps for the tokens of a source end with what the readers give. -/
theorem reaches_ofTokens (stream : TokenStream) : ∃ behind,
    Reaches stream bodies start (.finished (SourceFile.ofTokens stream) ⟨behind, 0⟩) := by
  obtain ⟨behind, evaluates⟩ := file_evaluates stream.at_start
  exact ⟨behind, evaluates.returns .bottom⟩

end Sources

end Toggles.Declaration
