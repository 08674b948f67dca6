import Toggles.Proofs.Continuation
import Toggles.Proofs.CursorGrammar

/-! The routines read what the readers read.

A reader takes a list of tokens and gives what is left of it; a routine finds the same tokens behind
the cursor and moves it on. Level by level each routine evaluates to what its reader gives, with the
cursor in front of what is left and the counter as it was, or with the same error.
-/

set_option autoImplicit false

namespace Toggles.Declaration

/-- These are the tokens of a source from a place on. -/
def TokenStream.At (stream : TokenStream) (tokens : List Located) (index : Nat) : Prop :=
  ∃ front, stream.tokens = front ++ tokens ∧ front.length = index

section Places
variable {stream : TokenStream} {first : Located} {tokens rest : List Located} {index : Nat}

theorem TokenStream.at_start (stream : TokenStream) : stream.At stream.tokens 0 :=
  ⟨[], rfl, rfl⟩

namespace TokenStream.At

theorem behind (here : stream.At (first :: rest) index) : stream.At rest (index + 1) := by
  obtain ⟨front, cut, rfl⟩ := here
  exact ⟨front ++ [first], by simp [cut], by simp⟩

theorem tail (here : stream.At tokens index) (filled : tokens ≠ []) :
    stream.At tokens.tail (index + 1) := by
  obtain ⟨first, rest, rfl⟩ := List.exists_cons_of_ne_nil filled
  exact here.behind

theorem sight_cons (here : stream.At (first :: rest) index) :
    stream.sight index = .token first := by
  obtain ⟨front, cut, rfl⟩ := here
  simp [sight, cut]

theorem sight_nil (here : stream.At [] index) :
    stream.sight index = .stop stream.stop stream.trailingDoc := by
  obtain ⟨front, cut, rfl⟩ := here
  simp [sight, cut]

theorem placeAfter_cons (here : stream.At (first :: rest) index) :
    stream.placeAfter index = index + 1 := by
  obtain ⟨front, cut, rfl⟩ := here
  simp [placeAfter, cut]

theorem isMark_sight (here : stream.At tokens index) (mark : Mark) :
    (stream.sight index).isMark mark = startsWith mark tokens := by
  cases tokens with
  | nil => rw [here.sight_nil]; rfl
  | cons first rest => rw [here.sight_cons]; rfl

theorem isWord_sight (here : stream.At tokens index) (word : String) :
    (stream.sight index).isWord word = startsWithWord word tokens := by
  cases tokens with
  | nil => rw [here.sight_nil]; rfl
  | cons first rest => rw [here.sight_cons]; rfl

theorem isAnyWord_sight (here : stream.At tokens index) :
    (stream.sight index).isAnyWord = startsWithAnyWord tokens := by
  cases tokens with
  | nil => rw [here.sight_nil]; rfl
  | cons first rest =>
      rw [here.sight_cons]
      obtain ⟨token, position, doc⟩ := first
      cases token <;> rfl

end TokenStream.At

end Places

section Following
variable {stream : TokenStream} {α β : Type} {size large index behind nesting : Nat}
  {first : Located} {tokens rest : List Located} {program : Program grammar α}
  {further : α → Program grammar β} {outcome : Outcome α size}

/-- A program does behind a place what a reader does with the tokens there. -/
inductive Follows (stream : TokenStream) (program : Program grammar α) (index nesting : Nat) :
    Outcome α size → Prop where
  | ok {value : α} {rest : List Located} {within : rest.length < size} {behind : Nat}
      (here : stream.At rest behind)
      (evaluates : Evaluates stream Rule.bodies program ⟨index, nesting⟩ (.ok value)
        ⟨behind, nesting⟩) : Follows stream program index nesting (.ok ⟨value, rest, within⟩)
  | error {refusal : Refusal} {behind : Nat}
      (evaluates : Evaluates stream Rule.bodies program ⟨index, nesting⟩
        (.error (refusal.toError stream.stop)) ⟨behind, nesting⟩) :
      Follows stream program index nesting (.error refusal)

/-- A program passes over tokens, which it cannot refuse. -/
def PassesOver (stream : TokenStream) (program : Program grammar α) (index nesting : Nat) (value : α)
    (rest : List Located) : Prop :=
  ∃ behind, stream.At rest behind ∧
    Evaluates stream Rule.bodies program ⟨index, nesting⟩ (.ok value) ⟨behind, nesting⟩

theorem PassesOver.call {rule : Rule} {argument : rule.Argument} {value : rule.Result}
    (passes : PassesOver stream (Rule.bodies rule argument) index nesting value rest) :
    PassesOver stream (Rule.call rule argument) index nesting value rest := by
  obtain ⟨behind, here, evaluates⟩ := passes
  exact ⟨behind, here, evaluates.call⟩

theorem PassesOver.done {value : α} (here : stream.At rest index) :
    PassesOver stream (pure value) index nesting value rest :=
  ⟨index, here, .done value⟩

theorem PassesOver.after {value : α} {result : β}
    (evaluates : Evaluates stream Rule.bodies program ⟨index, nesting⟩ (.ok value) ⟨behind, nesting⟩)
    (passes : PassesOver stream (further value) behind nesting result rest) :
    PassesOver stream (program >>= further) index nesting result rest := by
  obtain ⟨final, here, evaluation⟩ := passes
  exact ⟨final, here, evaluates.bind evaluation⟩

/-- A program passes over tokens up to those that it looks for, or else it fails. -/
def Seeks (stream : TokenStream) (program : Program grammar α) (index nesting : Nat) (value : α)
    (error : SourceError) : Option (List Located) → Prop
  | some rest => PassesOver stream program index nesting value rest
  | none => ∃ behind,
      Evaluates stream Rule.bodies program ⟨index, nesting⟩ (.error error) ⟨behind, nesting⟩

theorem Seeks.call {rule : Rule} {argument : rule.Argument} {value : rule.Result}
    {error : SourceError} {found : Option (List Located)}
    (seeks : Seeks stream (Rule.bodies rule argument) index nesting value error found) :
    Seeks stream (Rule.call rule argument) index nesting value error found := by
  cases found with
  | some rest => exact PassesOver.call seeks
  | none =>
      obtain ⟨behind, evaluates⟩ := seeks
      exact ⟨behind, evaluates.call⟩

theorem Seeks.after {value : α} {result : β} {error : SourceError}
    {found : Option (List Located)}
    (evaluates : Evaluates stream Rule.bodies program ⟨index, nesting⟩ (.ok value) ⟨behind, nesting⟩)
    (seeks : Seeks stream (further value) behind nesting result error found) :
    Seeks stream (program >>= further) index nesting result error found := by
  cases found with
  | some rest => exact PassesOver.after evaluates seeks
  | none =>
      obtain ⟨final, evaluation⟩ := seeks
      exact ⟨final, evaluates.bind evaluation⟩

theorem startsWith_cons {mark : Mark} :
    startsWith mark (first :: rest) = true ↔ first.token = .mark mark :=
  decide_eq_true_iff

theorem evaluates_look {ahead : Nat} {sight : Sight} (seen : stream.sight (index + ahead) = sight) :
    Evaluates stream Rule.bodies (Program.look ahead) ⟨index, nesting⟩ (.ok sight)
      ⟨index, nesting⟩ :=
  seen ▸ .look ahead

theorem evaluates_isAt (here : stream.At tokens index) (mark : Mark) :
    Evaluates stream Rule.bodies (Program.isAt mark) ⟨index, nesting⟩
      (.ok (startsWith mark tokens)) ⟨index, nesting⟩ := by
  rw [← here.isMark_sight mark]
  exact (Evaluates.look 0).bind (.done _)

theorem evaluates_move (here : stream.At (first :: rest) index) :
    Evaluates stream Rule.bodies Program.move ⟨index, nesting⟩ (.ok ()) ⟨index + 1, nesting⟩ := by
  have moves := @Evaluates.move grammar stream Rule.bodies ⟨index, nesting⟩
  rwa [here.placeAfter_cons] at moves

theorem evaluates_take_true {mark : Mark} (here : stream.At tokens index)
    (starts : startsWith mark tokens = true) : stream.At tokens.tail (index + 1) ∧
      Evaluates stream Rule.bodies (Program.take mark) ⟨index, nesting⟩ (.ok true)
        ⟨index + 1, nesting⟩ := by
  have isAt : Evaluates stream Rule.bodies (Program.isAt mark) ⟨index, nesting⟩ _ _ :=
    evaluates_isAt here mark
  obtain ⟨first, rest, rfl⟩ := List.exists_cons_of_ne_nil (ne_nil_of_startsWith starts)
  rw [starts] at isAt
  exact ⟨here.behind, isAt.bind ((evaluates_move here).bind (.done true))⟩

theorem evaluates_take_false {mark : Mark} (here : stream.At tokens index)
    (other : startsWith mark tokens = false) :
    Evaluates stream Rule.bodies (Program.take mark) ⟨index, nesting⟩ (.ok false)
      ⟨index, nesting⟩ := by
  have isAt : Evaluates stream Rule.bodies (Program.isAt mark) ⟨index, nesting⟩ _ _ :=
    evaluates_isAt here mark
  rw [other] at isAt
  exact isAt.bind (.done false)

theorem take_passes (here : stream.At tokens index) (mark : Mark) :
    PassesOver stream (Program.take mark) index nesting (startsWith mark tokens) (skip mark tokens) := by
  unfold skip
  cases starts : startsWith mark tokens with
  | true =>
      obtain ⟨behind, evaluates⟩ := evaluates_take_true here starts
      exact ⟨_, behind, evaluates⟩
  | false => exact ⟨index, here, evaluates_take_false here starts⟩

namespace Follows

theorem done {value : α} {within : rest.length < size} (here : stream.At rest index) :
    Follows stream (pure value) index nesting (.ok ⟨value, rest, within⟩ : Outcome α size) :=
  .ok here (Evaluates.done value)

theorem call {rule : Rule} {argument : rule.Argument} {outcome : Outcome rule.Result size}
    (follows : Follows stream (Rule.bodies rule argument) index nesting outcome) :
    Follows stream (Rule.call rule argument) index nesting outcome := by
  cases follows with
  | ok here evaluates => exact .ok here evaluates.call
  | error evaluates => exact .error evaluates.call

theorem after {value : α} {outcome : Outcome β size}
    (evaluates : Evaluates stream Rule.bodies program ⟨index, nesting⟩ (.ok value) ⟨behind, nesting⟩)
    (follows : Follows stream (further value) behind nesting outcome) :
    Follows stream (program >>= further) index nesting outcome := by
  cases follows with
  | ok here evaluation => exact .ok here (evaluates.bind evaluation)
  | error evaluation => exact .error (evaluates.bind evaluation)

theorem passing {value : α} {outcome : Outcome β size}
    (passes : PassesOver stream program index nesting value rest)
    (follows : ∀ behind, stream.At rest behind →
      Follows stream (further value) behind nesting outcome) :
    Follows stream (program >>= further) index nesting outcome := by
  obtain ⟨behind, here, evaluates⟩ := passes
  exact after evaluates (follows behind here)

theorem bind {first : Outcome α size} {next : Reading Located α size → Outcome β large}
    (follows : Follows stream program index nesting first)
    (continues : ∀ value rest within behind, stream.At rest behind →
      Follows stream (further value) behind nesting (next ⟨value, rest, within⟩)) :
    Follows stream (program >>= further) index nesting (first >>= next) := by
  cases follows with
  | ok here evaluates => exact after evaluates (continues _ _ _ _ here)
  | error evaluates => exact .error (evaluates.bind_error further)

-- What has been read is only changed.
theorem map {first : Outcome α size} {f : α → β}
    {next : Reading Located α size → Outcome β large}
    (follows : Follows stream program index nesting first)
    (maps : ∀ value rest within,
      ∃ withinOther, next ⟨value, rest, within⟩ = .ok ⟨f value, rest, withinOther⟩) :
    Follows stream (program >>= fun value => pure (f value)) index nesting (first >>= next) := by
  refine follows.bind fun value rest within behind here => ?_
  obtain ⟨withinOther, same⟩ := maps value rest within
  rw [same]
  exact done here

-- The bound of a reading is no part of what a routine gives.
theorem widen {first : Outcome α size} {next : Reading Located α size → Outcome α large}
    (follows : Follows stream program index nesting first)
    (keeps : ∀ value rest within,
      ∃ withinOther, next ⟨value, rest, within⟩ = .ok ⟨value, rest, withinOther⟩) :
    Follows stream program index nesting (first >>= next) := by
  cases follows with
  | @ok value rest within behind here evaluates =>
      obtain ⟨withinOther, same⟩ := keeps value rest within
      change Follows stream program index nesting (next ⟨value, rest, within⟩)
      rw [same]
      exact .ok here evaluates
  | error evaluates => exact .error evaluates

theorem unexpected (here : stream.At tokens index) (expected : String) :
    Follows stream (Program.unexpected expected : Program grammar α) index nesting
      (refuse expected tokens : Outcome α size) := by
  have shown : Refusal.toError stream.stop (.unexpected expected tokens.head?) =
      .unexpectedToken expected (stream.sight index).describe (stream.sight index).position := by
    cases tokens with
    | nil => rw [here.sight_nil]; rfl
    | cons first rest => rw [here.sight_cons]; rfl
  have evaluates : Evaluates stream Rule.bodies (Program.unexpected expected : Program grammar α)
      ⟨index, nesting⟩ _ _ := (Evaluates.look 0).bind (.fail _)
  exact .error (shown ▸ evaluates)

theorem move {further : Unit → Program grammar β} {outcome : Outcome β size}
    (here : stream.At (first :: rest) index)
    (follows : stream.At rest (index + 1) → Follows stream (further ()) (index + 1) nesting outcome) :
    Follows stream (Program.move >>= further) index nesting outcome :=
  after (evaluates_move here) (follows here.behind)

theorem moveTail {further : Unit → Program grammar β} {outcome : Outcome β size}
    (here : stream.At tokens index) (filled : tokens ≠ [])
    (follows : stream.At tokens.tail (index + 1) →
      Follows stream (further ()) (index + 1) nesting outcome) :
    Follows stream (Program.move >>= further) index nesting outcome := by
  obtain ⟨first, rest, rfl⟩ := List.exists_cons_of_ne_nil filled
  exact move here follows

theorem ite {condition : Prop} [Decidable condition] {yes no : Program grammar α}
    {whenTrue whenFalse : Outcome α size}
    (followsTrue : condition → Follows stream yes index nesting whenTrue)
    (followsFalse : ¬condition → Follows stream no index nesting whenFalse) :
    Follows stream (if condition then yes else no) index nesting
      (if condition then whenTrue else whenFalse) := by
  split
  · next holds => exact followsTrue holds
  · next fails => exact followsFalse fails

theorem isAt {yes no : Program grammar β} {whenTrue whenFalse : Outcome β size}
    (here : stream.At tokens index) (mark : Mark)
    (followsTrue : startsWith mark tokens = true → Follows stream yes index nesting whenTrue)
    (followsFalse : ¬startsWith mark tokens = true → Follows stream no index nesting whenFalse) :
    Follows stream (do if ← Program.isAt mark then yes else no) index nesting
      (if startsWith mark tokens then whenTrue else whenFalse) :=
  after (evaluates_isAt here mark) (ite followsTrue followsFalse)

theorem take {yes no : Program grammar β} {whenTrue whenFalse : Outcome β size}
    (here : stream.At tokens index) (mark : Mark)
    (followsTrue : startsWith mark tokens = true → stream.At tokens.tail (index + 1) →
      Follows stream yes (index + 1) nesting whenTrue)
    (followsFalse : ¬startsWith mark tokens = true → Follows stream no index nesting whenFalse) :
    Follows stream (do if ← Program.take mark then yes else no) index nesting
      (if startsWith mark tokens then whenTrue else whenFalse) := by
  cases starts : startsWith mark tokens with
  | true =>
      obtain ⟨behind, evaluates⟩ := evaluates_take_true here starts
      exact after evaluates (followsTrue starts behind)
  | false =>
      have other := Bool.eq_false_iff.mp starts
      exact after (evaluates_take_false here starts) (followsFalse other)

end Follows

theorem takeMark_follows (here : stream.At tokens index) (mark : Mark) (expected : String) :
    Follows stream (Program.takeMark mark expected) index nesting (expect mark expected tokens) := by
  cases tokens with
  | nil => exact .after (evaluates_take_false here rfl) (.unexpected here expected)
  | cons first rest =>
      have same : (expect mark expected (first :: rest)) = if startsWith mark (first :: rest) then
          .ok ⟨(), rest, Reading.length_lt_cons first rest⟩
        else refuse expected (first :: rest) := by
        simp only [expect, startsWith_cons]
      rw [same]
      exact .take here mark (fun _ behind => .done behind) fun _ => .unexpected here expected

theorem evaluates_takeWord {name expected : String} {position : Nat} {doc : Option String}
    (here : stream.At (⟨.word name, position, doc⟩ :: rest) index) :
    Evaluates stream Rule.bodies (Program.takeWord expected) ⟨index, nesting⟩ (.ok name)
      ⟨index + 1, nesting⟩ :=
  (evaluates_look here.sight_cons).bind ((evaluates_move here).bind (.done name))

theorem takeWord_follows (here : stream.At tokens index) (expected : String) :
    Follows stream (Program.takeWord expected) index nesting (expectWord expected tokens) := by
  cases tokens with
  | nil => exact .after (evaluates_look here.sight_nil) (.unexpected here expected)
  | cons first rest =>
      obtain ⟨token, position, doc⟩ := first
      cases token with
      | word name => exact .ok here.behind (evaluates_takeWord here)
      | quoted | template | number | mark | symbol =>
          exact .after (evaluates_look here.sight_cons) (.unexpected here expected)

end Following

namespace Rule

section Loops
variable {stream : TokenStream} {index nesting : Nat} {first : Located} {tokens rest : List Located}

-- A loop goes on with the tokens behind the first one.
theorem passes_further {rule : Rule} {argument : rule.Argument} {value : rule.Result}
    (here : stream.At (first :: tokens) index)
    (passes : PassesOver stream (bodies rule argument) (index + 1) nesting value rest) :
    PassesOver stream (do Program.move; call rule argument) index nesting value rest :=
  .after (evaluates_move here) passes.call

theorem operators_passes (here : stream.At tokens index) (hidden : Bool) :
    PassesOver stream (bodies .operators hidden) index nesting (Level.skipOperators hidden tokens).1
      (Level.skipOperators hidden tokens).2 := by
  induction tokens generalizing index hidden with
  | nil => exact .after (evaluates_look here.sight_nil) (.done here)
  | cons first rest ih =>
      refine .after (evaluates_look here.sight_cons) ?_
      simp only [Sight.isWord, Level.skipOperators, Bool.or_eq_true, decide_eq_true_eq]
      split
      · exact passes_further here (ih here.behind true)
      split
      · exact passes_further here (ih here.behind hidden)
      · exact .done here

theorem startsMember_sight (here : stream.At tokens index) :
    startsMember (stream.sight index) = Level.startsMember tokens := by
  cases tokens with
  | nil => rw [here.sight_nil]; rfl
  | cons first rest =>
      rw [here.sight_cons]
      obtain ⟨token, position, doc⟩ := first
      cases token <;> rfl

theorem modifiers_passes (here : stream.At tokens index) :
    PassesOver stream (bodies .modifiers ()) index nesting () (Level.skipReadonly tokens) := by
  induction tokens generalizing index with
  | nil => exact .after (evaluates_look here.sight_nil) (.after (Evaluates.look 1) (.done here))
  | cons first rest ih =>
      refine .after (evaluates_look here.sight_cons) (.after (Evaluates.look 1) ?_)
      simp only [startsMember_sight here.behind, Sight.isWord, Level.skipReadonly]
      split
      · exact passes_further here (ih here.behind)
      · exact .done here

theorem separators_passes (here : stream.At tokens index) :
    PassesOver stream (bodies .separators ()) index nesting () (Level.skipSeparators tokens) := by
  induction tokens generalizing index with
  | nil =>
      refine .after (evaluates_take_false here rfl) ?_
      exact .after (evaluates_take_false here rfl) (.done here)
  | cons first rest ih =>
      have skips : Level.skipSeparators (first :: rest) =
          if startsWith .semicolon (first :: rest) || startsWith .comma (first :: rest) then
            Level.skipSeparators rest else first :: rest := List.dropWhile_cons
      rw [skips]
      cases semicolon : startsWith .semicolon (first :: rest) with
      | true =>
          obtain ⟨behind, evaluates⟩ := evaluates_take_true here semicolon
          exact .after evaluates (ih behind).call
      | false =>
          refine .after (evaluates_take_false here semicolon) ?_
          cases comma : startsWith .comma (first :: rest) with
          | true =>
              obtain ⟨behind, evaluates⟩ := evaluates_take_true here comma
              exact .after evaluates (ih behind).call
          | false => exact .after (evaluates_take_false here comma) (.done here)

theorem startsWith_unique {mark other : Mark} (starts : startsWith mark tokens = true)
    (apart : mark ≠ other) : startsWith other tokens = false := by
  obtain ⟨first, rest, rfl⟩ := List.exists_cons_of_ne_nil (ne_nil_of_startsWith starts)
  rw [startsWith_cons] at starts
  simpa [startsWith, starts] using apart

theorem label_passes (here : stream.At tokens index) :
    PassesOver stream label index nesting () (Level.skipLabel tokens) := by
  rcases tokens with - | ⟨⟨token, position, doc⟩, rest⟩
  · exact .after (evaluates_look here.sight_nil)
      (.after (Evaluates.look 1) (.after (Evaluates.look 2) (.done here)))
  refine .after (evaluates_look here.sight_cons)
    (.after (Evaluates.look 1) (.after (Evaluates.look 2) ?_))
  cases token with
  | quoted | template | number | mark | symbol => exact .done here
  | word name =>
      have behind := here.behind
      simp only [Sight.isAnyWord, Bool.true_and, behind.isMark_sight, Level.skipLabel]
      rcases rest with - | ⟨second, others⟩
      · exact .done here
      have further : stream.At others (index + 2) := behind.behind
      have after : PassesOver stream Program.move (index + 1) nesting () others :=
        ⟨index + 2, further, evaluates_move behind⟩
      simp only [further.isMark_sight, List.tail_cons]
      cases colon : startsWith .colon (second :: others) with
      | true =>
          refine .after (evaluates_move here) ?_
          exact .after (evaluates_take_false behind (startsWith_unique colon (by decide))) after
      | false =>
          simp only [Bool.false_or, Bool.and_eq_true, Bool.false_eq_true, if_false]
          split
          · next both =>
              obtain ⟨question, colon⟩ := both
              obtain ⟨third, more, rfl⟩ := List.exists_cons_of_ne_nil (ne_nil_of_startsWith colon)
              refine .after (evaluates_move here) ?_
              refine .after (evaluates_take_true behind question).2 ?_
              exact ⟨_, further.behind, evaluates_move further⟩
          · exact .done here

theorem arrowAhead_evaluates {ahead : Nat} (here : stream.At tokens (index + ahead)) (depth : Nat) :
    Evaluates stream bodies (bodies .arrowAhead (ahead, depth)) ⟨index, nesting⟩
      (.ok (Level.arrowAfterGroup depth tokens)) ⟨index, nesting⟩ := by
  induction tokens generalizing ahead depth with
  | nil => exact (evaluates_look here.sight_nil).bind (.done _)
  | cons first rest ih =>
      refine (evaluates_look here.sight_cons).bind ?_
      simp only [Level.arrowAfterGroup]
      split
      · exact (ih here.behind _).call
      split
      · simp only [Nat.sub_eq_zero_iff_le]
        split
        · refine (Evaluates.look (ahead + 1)).bind ?_
          rw [← Nat.add_assoc, here.behind.isMark_sight]
          exact .done _
        · exact (ih here.behind _).call
      · exact (ih here.behind _).call

-- The tokens of a body begin with its brace.
theorem opens_of_bodyOnward {angles : Nat} (found : bodyOnward angles tokens = first :: rest) :
    first.token = .mark .openBrace := by
  induction tokens generalizing angles with
  | nil => contradiction
  | cons next others ih =>
      rw [bodyOnward] at found
      split at found
      · next opens => cases found; exact opens.1
      split at found
      · exact ih found
      split at found
      · exact ih found
      · exact ih found

theorem seeks_further {rule : Rule} {argument : rule.Argument} {value : rule.Result}
    {error : SourceError} {found : Option (List Located)}
    (here : stream.At (first :: rest) index)
    (seeks : Seeks stream (bodies rule argument) (index + 1) nesting value error found) :
    Seeks stream (do Program.move; call rule argument) index nesting value error found :=
  .after (evaluates_move here) seeks.call

theorem heading_seeks (here : stream.At tokens index) (angles : Nat) :
    Seeks stream (bodies .heading angles) index nesting ()
      (.unexpectedToken "`\x7b` opening the interface body" endOfInput stream.stop)
      (if (bodyOnward angles tokens).isEmpty then none else some (bodyOnward angles tokens)) := by
  induction tokens generalizing index angles with
  | nil =>
      refine ⟨index, (evaluates_look here.sight_nil).bind ?_⟩
      exact (evaluates_look here.sight_nil).bind (.fail _)
  | cons first rest ih =>
      refine .after (evaluates_look here.sight_cons) ?_
      simp only [bodyOnward]
      split
      · exact .done here
      split
      · exact seeks_further here (ih here.behind _)
      split
      · exact seeks_further here (ih here.behind _)
      · exact seeks_further here (ih here.behind _)

theorem groupEnd_seeks {opening closing : Mark} {start : Nat} (here : stream.At tokens index)
    (depth : Nat) :
    Seeks stream (bodies .groupEnd ((opening, closing), start, depth)) index nesting ()
      (.unexpectedToken "closing bracket" endOfInput start)
      (afterGroup? opening closing depth tokens) := by
  induction tokens generalizing index depth with
  | nil => exact ⟨index, (evaluates_look here.sight_nil).bind (.fail _)⟩
  | cons first rest ih =>
      refine .after (evaluates_look here.sight_cons) ?_
      simp only [Sight.isMark, decide_eq_true_eq, afterGroup?]
      split
      · exact seeks_further here (ih here.behind _)
      split
      · simp only [Nat.sub_eq_zero_iff_le]
        split
        · exact ⟨_, here.behind, evaluates_move here⟩
        · exact seeks_further here (ih here.behind _)
      · exact seeks_further here (ih here.behind _)

end Loops

end Rule

end Toggles.Declaration
