import Toggles.Proofs.Parsing
import Toggles.Proofs.Success

/-! Reading tokens in front of other tokens.

A reader that stops before the end of its tokens does not look at what follows them, with one
exception: whether parentheses hold the parameters of a function is decided by the token
behind them. What it reads is read again at other positions, and in front of other tokens.
-/

set_option autoImplicit false

namespace Toggles.Declaration

/-- Tokens at other positions with more of them behind. What holds along the tokens holds of
those that are left at every place. -/
inductive Continued (along : List Located → Prop) (following : List Located) :
    List Located → List Located → Prop where
  | stop : Continued along following [] following
  | token {token : Token} {position other : Nat} {doc : Option String} {rest others : List Located}
      (here : along (⟨token, position, doc⟩ :: rest))
      (behind : Continued along following rest others) :
      Continued along following (⟨token, position, doc⟩ :: rest) (⟨token, other, doc⟩ :: others)

section Outcomes
variable (along : List Located → Prop) (following : List Located) {α β : Type}
  {small large smallOther largeOther : Nat}

/-- What is read before more tokens is what is read without them. -/
def Finishes (outcome : Outcome α small) (other : Outcome α large) : Prop :=
  ∀ reading, outcome = .ok reading →
    ∃ rest, Reads other reading.value rest ∧ Continued along following reading.rest rest

/-- What is read before more tokens is what is read without them, unless no token is left. -/
def Resumes (outcome : Outcome α small) (other : Outcome α large) : Prop :=
  ∀ reading, outcome = .ok reading → reading.rest ≠ [] →
    ∃ rest, Reads other reading.value rest ∧ Continued along following reading.rest rest

variable {along following}

theorem Finishes.resumes {outcome : Outcome α small} {other : Outcome α large}
    (finishes : Finishes along following outcome other) : Resumes along following outcome other :=
  fun reading done _ => finishes reading done

theorem finishes_error {refusal : Refusal} {other : Outcome α large} :
    Finishes along following (.error refusal : Outcome α small) other :=
  nofun

theorem resumes_error {refusal : Refusal} {other : Outcome α large} :
    Resumes along following (.error refusal : Outcome α small) other :=
  nofun

theorem finishes_ok {value : α} {rest others : List Located} {within : rest.length < small}
    {withinOther : others.length < large} (continued : Continued along following rest others) :
    Finishes along following (.ok ⟨value, rest, within⟩) (.ok ⟨value, others, withinOther⟩) := by
  rintro _ ⟨⟩
  exact ⟨others, reads_ok withinOther, continued⟩

theorem resumes_ok {value : α} {rest others : List Located} {within : rest.length < small}
    {withinOther : others.length < large} (continued : Continued along following rest others) :
    Resumes along following (.ok ⟨value, rest, within⟩) (.ok ⟨value, others, withinOther⟩) :=
  (finishes_ok continued).resumes

-- A reading that leaves no token says nothing.
theorem resumes_ended {value : α} {within : [].length < small} {other : Outcome α large} :
    Resumes along following (.ok ⟨value, [], within⟩) other := by
  rintro _ ⟨⟩ left
  exact absurd rfl left

-- What a reading says about the tokens may be used for what follows.
theorem resumes_of_done {outcome : Outcome α small} {other : Outcome α large}
    (resumes : ∀ final, outcome = .ok final → final.rest ≠ [] → Resumes along following outcome other) :
    Resumes along following outcome other :=
  fun final done left => resumes final done left final done left

theorem Resumes.ite {condition other : Prop} [Decidable condition] [Decidable other]
    {yes no : Outcome α small} {yesOther noOther : Outcome α large} (same : other ↔ condition)
    (whenTrue : condition → Resumes along following yes yesOther)
    (whenFalse : ¬condition → Resumes along following no noOther) :
    Resumes along following (if condition then yes else no) (if other then yesOther else noOther) := by
  by_cases holds : condition
  · rw [if_pos holds, if_pos (same.mpr holds)]
    exact whenTrue holds
  · rw [if_neg holds, if_neg fun there => holds (same.mp there)]
    exact whenFalse holds

-- What is read next has to leave no token where none is left before it.
theorem Resumes.bind {first : Outcome α small} {other : Outcome α smallOther}
    {next : Reading Located α small → Outcome β large}
    {nextOther : Reading Located α smallOther → Outcome β largeOther}
    (read : Resumes along following first other)
    (spent : ∀ reading final, next reading = .ok final → final.rest ≠ [] → reading.rest ≠ [])
    (continues : ∀ reading others within, reading.rest ≠ [] →
      Continued along following reading.rest others →
        Resumes along following (next reading) (nextOther ⟨reading.value, others, within⟩)) :
    Resumes along following (first >>= next) (other >>= nextOther) := by
  intro final done left
  obtain ⟨reading, readFirst, readNext⟩ := bind_eq_ok.mp done
  have filled := spent reading final readNext left
  obtain ⟨others, ⟨within, same⟩, continued⟩ := read reading readFirst filled
  obtain ⟨rest, reads, stops⟩ := continues reading others within filled continued final readNext left
  exact ⟨rest, Reads.bind ⟨within, same⟩ fun _ => reads, stops⟩

-- What is read next cannot begin at the end of the tokens.
theorem Resumes.bind_finishes {first : Outcome α small} {other : Outcome α smallOther}
    {next : Reading Located α small → Outcome β large}
    {nextOther : Reading Located α smallOther → Outcome β largeOther}
    (read : Resumes along following first other)
    (spent : ∀ reading final, next reading = .ok final → reading.rest ≠ [])
    (continues : ∀ reading others within, reading.rest ≠ [] →
      Continued along following reading.rest others →
        Finishes along following (next reading) (nextOther ⟨reading.value, others, within⟩)) :
    Finishes along following (first >>= next) (other >>= nextOther) := by
  intro final done
  obtain ⟨reading, readFirst, readNext⟩ := bind_eq_ok.mp done
  have filled := spent reading final readNext
  obtain ⟨others, ⟨within, same⟩, continued⟩ := read reading readFirst filled
  obtain ⟨rest, reads, stops⟩ := continues reading others within filled continued final readNext
  exact ⟨rest, Reads.bind ⟨within, same⟩ fun _ => reads, stops⟩

theorem Finishes.map {first : Outcome α small} {other : Outcome α smallOther}
    {next : Reading Located α small → Outcome β large}
    {nextOther : Reading Located α smallOther → Outcome β largeOther}
    (read : Finishes along following first other)
    (alike : ∀ reading, ∃ value within, next reading = .ok ⟨value, reading.rest, within⟩ ∧
      ∀ others behind, ∃ withinOther,
        nextOther ⟨reading.value, others, behind⟩ = .ok ⟨value, others, withinOther⟩) :
    Finishes along following (first >>= next) (other >>= nextOther) := by
  intro final done
  obtain ⟨reading, readFirst, readNext⟩ := bind_eq_ok.mp done
  obtain ⟨others, ⟨within, same⟩, continued⟩ := read reading readFirst
  obtain ⟨_, _, here, there⟩ := alike reading
  cases here.symm.trans readNext
  exact ⟨others, Reads.bind ⟨within, same⟩ fun _ => there others _, continued⟩

-- What has been read is only changed.
theorem Resumes.map {first : Outcome α small} {other : Outcome α smallOther}
    {next : Reading Located α small → Outcome β large}
    {nextOther : Reading Located α smallOther → Outcome β largeOther}
    (read : Resumes along following first other)
    (alike : ∀ reading, ∃ value within, next reading = .ok ⟨value, reading.rest, within⟩ ∧
      ∀ others behind, ∃ withinOther,
        nextOther ⟨reading.value, others, behind⟩ = .ok ⟨value, others, withinOther⟩) :
    Resumes along following (first >>= next) (other >>= nextOther) := by
  refine read.bind (fun reading final done left => ?_) fun reading others within filled continued => ?_
  · obtain ⟨_, _, same, -⟩ := alike reading
    cases same.symm.trans done
    exact left
  · obtain ⟨_, _, same, there⟩ := alike reading
    obtain ⟨_, sameOther⟩ := there others within
    rw [same, sameOther]
    exact resumes_ok continued

-- A reader takes a token, so there is one.
theorem ne_nil_of_reading {tokens : List Located} (final : Reading Located α tokens.length) :
    tokens ≠ [] := by
  rintro rfl
  exact absurd final.within (Nat.not_lt_zero _)

-- A reading that may leave all of its tokens leaves one of them.
theorem ne_nil_of_left {tokens : List Located} {final : Reading Located α (tokens.length + 1)}
    (left : final.rest ≠ []) : tokens ≠ [] := by
  have shorter := final.within
  have longer := List.length_pos_iff.mpr left
  exact List.length_pos_iff.mp (by omega)

theorem ne_nil_of_bind {γ : Type} {tokens : List Located} {first : Outcome α tokens.length}
    {next : Reading Located α tokens.length → Except Refusal γ} {result : γ}
    (done : (first >>= next) = .ok result) : tokens ≠ [] := by
  obtain ⟨reading, -, -⟩ := bind_eq_ok.mp done
  exact ne_nil_of_reading reading

theorem ne_nil_of_ite {γ : Type} {mark : Mark} {tokens : List Located} {yes no : Except Refusal γ}
    {result : γ} (done : (if startsWith mark tokens then yes else no) = .ok result)
    (otherwise : no = .ok result → tokens ≠ []) : tokens ≠ [] := by
  by_cases starts : startsWith mark tokens = true
  · rintro rfl
    contradiction
  · rw [if_neg starts] at done
    exact otherwise done

-- Behind what a comma or a closing mark ends stand this mark and what is left.
theorem two_le_of_listed {close : Mark} {expected : String} {tokens : List Located}
    {again : Outcome β large} {next : Reading Located Unit tokens.length → Outcome β large}
    {final : Reading Located β large}
    (done : (if startsWith .comma tokens then again else expect close expected tokens >>= next) =
      .ok final) (left : final.rest ≠ []) (further : again = .ok final → tokens.tail ≠ [])
    (kept : ∀ closing, next closing = .ok final → final.rest = closing.rest) : 2 ≤ tokens.length := by
  split at done
  · have filled := List.length_pos_iff.mpr (further done)
    rw [List.length_tail] at filled
    omega
  · obtain ⟨closing, -, done⟩ := bind_eq_ok.mp done
    rw [kept closing done] at left
    have filled := List.length_pos_iff.mpr left
    have shorter := closing.within
    omega

end Outcomes

section Places
variable {along : List Located → Prop} {following tokens others : List Located}

theorem Continued.ne_nil (continued : Continued along following tokens others)
    (filled : tokens ≠ []) : others ≠ [] := by
  cases continued with
  | stop => contradiction
  | token here behind => exact List.cons_ne_nil _ _

theorem Continued.startsWith (continued : Continued along following tokens others)
    (filled : tokens ≠ []) (mark : Mark) : startsWith mark others = startsWith mark tokens := by
  cases continued with
  | stop => contradiction
  | token here behind => rfl

theorem Continued.not_startsWith {mark : Mark} (continued : Continued along following tokens others)
    (filled : tokens ≠ []) (other : ¬Declaration.startsWith mark tokens = true) :
    ¬Declaration.startsWith mark others = true := by
  rwa [continued.startsWith filled]

theorem ne_nil_of_startsWith {mark : Mark} (starts : startsWith mark tokens = true) : tokens ≠ [] := by
  rintro rfl
  contradiction

theorem Continued.startsWithWord (continued : Continued along following tokens others)
    (filled : tokens ≠ []) (word : String) :
    startsWithWord word others = startsWithWord word tokens := by
  cases continued with
  | stop => contradiction
  | token here behind => rfl

theorem Continued.startsWithAnyWord (continued : Continued along following tokens others)
    (filled : tokens ≠ []) : startsWithAnyWord others = startsWithAnyWord tokens := by
  cases continued with
  | stop => contradiction
  | @token token position other doc rest others here behind => cases token <;> rfl

theorem Continued.tail (continued : Continued along following tokens others) (filled : tokens ≠ []) :
    Continued along following tokens.tail others.tail := by
  cases continued with
  | stop => contradiction
  | token here behind => exact behind

theorem Continued.skip (continued : Continued along following tokens others) (filled : tokens ≠ [])
    (mark : Mark) : Continued along following (skip mark tokens) (skip mark others) := by
  unfold Declaration.skip
  rw [continued.startsWith filled]
  split
  · exact continued.tail filled
  · exact continued

theorem expect_finishes (continued : Continued along following tokens others) (mark : Mark)
    (expected : String) :
    Finishes along following (expect mark expected tokens) (expect mark expected others) := by
  cases continued with
  | stop => exact finishes_error
  | @token token position other doc rest others here behind =>
      by_cases same : token = .mark mark
      · simp only [expect, same, ↓reduceIte]
        exact finishes_ok behind
      · simp only [expect, same, ↓reduceIte]
        exact finishes_error

theorem expectWord_finishes (continued : Continued along following tokens others)
    (expected : String) :
    Finishes along following (expectWord expected tokens) (expectWord expected others) := by
  cases continued with
  | stop => exact finishes_error
  | @token token position other doc rest others here behind =>
      cases token with
      | word name => exact finishes_ok behind
      | quoted | template | number | mark | symbol => exact finishes_error

theorem afterGroup?_continued {opening closing : Mark} {depth : Nat} {rest : List Located}
    (continued : Continued along following tokens others)
    (found : afterGroup? opening closing depth tokens = some rest) :
    ∃ restOther, afterGroup? opening closing depth others = some restOther ∧
      Continued along following rest restOther := by
  induction continued generalizing depth with
  | stop => contradiction
  | token here behind ih =>
      rw [afterGroup?] at found ⊢
      split at found
      · next opens => rw [if_pos opens]; exact ih found
      next other =>
      rw [if_neg other]
      split at found
      · next closes =>
          rw [if_pos closes]
          split at found
          · next last => cases found; rw [if_pos last]; exact ⟨_, rfl, behind⟩
          · next deeper => rw [if_neg deeper]; exact ih found
      · next inside => rw [if_neg inside]; exact ih found

theorem reads_skipGroup {opening closing : Mark} {first : Located} {rest after : List Located}
    (opens : first.token = .mark opening) (found : afterGroup? opening closing 1 rest = some after) :
    Reads (skipGroup opening closing (first :: rest)) () after := by
  rw [skipGroup, if_pos opens]
  split
  · next same =>
      cases found.symm.trans same
      exact reads_ok _
  · next same => cases found.symm.trans same

theorem skipGroup_finishes (continued : Continued along following tokens others)
    (opening closing : Mark) :
    Finishes along following (skipGroup opening closing tokens) (skipGroup opening closing others) := by
  cases continued with
  | stop => exact finishes_error
  | token here behind =>
      intro reading done
      rw [skipGroup] at done
      split at done
      · next opens =>
          split at done
          · next found =>
              cases done
              obtain ⟨rest, foundOther, continued⟩ := afterGroup?_continued behind found
              exact ⟨rest, reads_skipGroup opens foundOther, continued⟩
          · contradiction
      · contradiction

end Places

namespace Level

/-- The readers of a level do not look at what follows. -/
structure Resuming (along : List Located → Prop) (following : List Located) (inner : Level) : Prop where
  type : ∀ {tokens others}, Continued along following tokens others →
    Resumes along following (inner.type tokens) (inner.type others)
  body : ∀ {tokens others}, Continued along following tokens others →
    Finishes along following (inner.body tokens) (inner.body others)

/-- Whether an arrow follows the parentheses at a place is known from what holds there. -/
def Settled (along : List Located → Prop) (following : List Located) : Prop :=
  ∀ {position doc rest others}, along (⟨.mark .openParen, position, doc⟩ :: rest) →
    Continued along following rest others → arrowAfterGroup 1 others = arrowAfterGroup 1 rest

variable {along : List Located → Prop} {following tokens others : List Located} {inner : Level}
  {size sizeOther : Nat}

section Names

theorem dottedAfter_resumes {name : String} {within : tokens.length < size}
    {withinOther : others.length < sizeOther} (continued : Continued along following tokens others) :
    Resumes along following (dottedAfter name size tokens within)
      (dottedAfter name sizeOther others withinOther) := by
  induction name, tokens, within using dottedAfter.induct generalizing others with
  | case1 name => exact resumes_ended
  | case2 name first dot part position doc rest within ih =>
      cases continued with
      | token here behind =>
          cases behind with
          | token here behind =>
              rw [dottedAfter, if_pos dot, dottedAfter, if_pos dot]
              exact ih behind
  | case3 name first dot rest within noWord =>
      rw [dottedAfter.eq_3 _ _ _ _ _ noWord, if_pos dot]
      exact resumes_error
  | case4 name first rest within other =>
      cases continued with
      | token here behind =>
          unfold dottedAfter
          simp only [other, ↓reduceIte]
          exact resumes_ok (.token here behind)

-- Where no token is left, a name goes on with none.
theorem dottedAfter_spent {name : String} {within : tokens.length < size}
    {final : Reading Located String size} (done : dottedAfter name size tokens within = .ok final)
    (left : final.rest ≠ []) : tokens ≠ [] := by
  rintro rfl
  cases done
  exact left rfl

theorem dottedName_resumes (continued : Continued along following tokens others) :
    Resumes along following (dottedName tokens) (dottedName others) :=
  (expectWord_finishes continued _).resumes.bind (fun _ _ done left => dottedAfter_spent done left)
    fun _ _ _ _ continued => dottedAfter_resumes continued

end Names

section Primaries

theorem skipLabel_continued (continued : Continued along following tokens others)
    (longer : 3 ≤ (skipLabel tokens).length) :
    Continued along following (skipLabel tokens) (skipLabel others) := by
  have bound := length_skipLabel_le tokens
  cases continued with
  | stop => simp [skipLabel] at longer
  | @token token position other doc rest others here behind =>
      cases token with
      | word name =>
          cases behind with
          | stop => simp at bound; omega
          | @token second position other doc rest others hereSecond behind =>
              cases behind with
              | stop => simp at bound; omega
              | @token third position other doc rest others hereThird behind =>
                  by_cases colon : second = .mark .colon
                  · simp only [skipLabel, startsWith, colon, decide_true, ↓reduceIte]
                    exact .token hereThird behind
                  · by_cases both : second = .mark .question ∧ third = .mark .colon
                    · simp only [skipLabel, startsWith, both, List.tail_cons, decide_true]
                      exact behind
                    · have none : (decide (second = .mark .question) && decide (third = .mark .colon)) =
                          false := by simpa using both
                      simp only [skipLabel, startsWith, colon, none, List.tail_cons, decide_false,
                        Bool.false_eq_true, ↓reduceIte]
                      exact .token here (.token hereSecond (.token hereThird behind))
      | quoted | template | number | mark | symbol => exact .token here behind

theorem itemsAfter_ne_nil {seen : List TypeExpr} {within : tokens.length ≤ size}
    {final : Reading Located (List TypeExpr) size}
    (done : inner.itemsAfter seen size tokens within = .ok final) : tokens ≠ [] := by
  rintro rfl
  have opened : ¬startsWith .closeBracket [] = true := Bool.false_ne_true
  rw [itemsAfter, dif_neg opened] at done
  obtain ⟨item, -, -⟩ := bind_eq_ok.mp done
  exact absurd item.within (Nat.not_lt_zero _)

theorem skipTypeParameters_resumes (continued : Continued along following tokens others) :
    Resumes along following (skipTypeParameters tokens) (skipTypeParameters others) := by
  refine resumes_of_done fun final _ left => ?_
  have filled := ne_nil_of_left left
  unfold skipTypeParameters
  refine Resumes.ite (by rw [continued.startsWith filled]) (fun opens => ?_) fun _ => resumes_ok continued
  exact (skipGroup_finishes continued _ _).resumes.map fun _ => ⟨_, _, rfl, fun _ _ => ⟨_, rfl⟩⟩

theorem numeral_finishes {negative : Bool} {raw : String} {position other : Nat}
    {within : tokens.length < size} {withinOther : others.length < sizeOther}
    (continued : Continued along following tokens others) :
    Finishes along following
      (numeral negative raw position >>= fun type => .ok ⟨type, tokens, within⟩)
      (numeral negative raw other >>= fun type => .ok ⟨type, others, withinOther⟩) := by
  unfold numeral
  cases numeralType? negative raw.toList with
  | some type => exact finishes_ok continued
  | none => exact finishes_error

variable (resuming : inner.Resuming along following)
include resuming

theorem argumentsAfter_resumes {seen : List TypeExpr} {within : tokens.length ≤ size}
    {withinOther : others.length ≤ sizeOther} (continued : Continued along following tokens others) :
    Resumes along following (inner.argumentsAfter seen size tokens within)
      (inner.argumentsAfter seen sizeOther others withinOther) := by
  induction seen, tokens, within using argumentsAfter.induct generalizing others with
  | case1 seen tokens within ih =>
      rw [argumentsAfter, argumentsAfter]
      refine (resuming.type continued).bind
        (fun argument final done _ => ne_nil_of_ite done ne_nil_of_bind)
        fun argument rest _ filled continued => ?_
      refine Resumes.ite (by rw [continued.startsWith filled]) (fun _ => ?_) fun _ => ?_
      · exact ih argument (continued.tail filled)
      · exact (expect_finishes continued _ _).resumes.map fun _ => ⟨_, _, rfl, fun _ _ => ⟨_, rfl⟩⟩

theorem reference_resumes (continued : Continued along following tokens others) :
    Resumes along following (inner.reference tokens) (inner.reference others) := by
  refine (dottedName_resumes continued).bind (fun name final done left => ?_)
    fun name rest _ filled continued => ?_
  · refine ne_nil_of_ite done fun plain => ?_
    cases plain
    exact left
  · refine Resumes.ite (by rw [continued.startsWith filled]) (fun _ => ?_) fun _ => resumes_ok continued
    exact (argumentsAfter_resumes resuming (continued.tail filled)).map fun _ => ⟨_, _, rfl, fun _ _ => ⟨_, rfl⟩⟩

theorem itemsAfter_resumes {seen : List TypeExpr} {within : tokens.length ≤ size}
    {withinOther : others.length ≤ sizeOther} (continued : Continued along following tokens others) :
    Resumes along following (inner.itemsAfter seen size tokens within)
      (inner.itemsAfter seen sizeOther others withinOther) := by
  induction seen, tokens, within using itemsAfter.induct generalizing others with
  | case1 seen tokens within closed =>
      have filled : tokens ≠ [] := ne_nil_of_startsWith closed
      have closedOther := (continued.startsWith filled .closeBracket).trans closed
      rw [itemsAfter, dif_pos closed, itemsAfter, dif_pos closedOther]
      exact resumes_ok (continued.tail filled)
  | case2 seen tokens within opened =>
      rename_i ih
      refine resumes_of_done fun final done left => ?_
      have filled : tokens ≠ [] := itemsAfter_ne_nil done
      have openedOther := continued.not_startsWith filled opened
      rw [itemsAfter, dif_neg opened] at done
      rw [itemsAfter, dif_neg opened, itemsAfter, dif_neg openedOther]
      -- An item is longer than its label, as a mark and another token stand behind it.
      obtain ⟨item, readItem, ended⟩ := bind_eq_ok.mp done
      have listed := two_le_of_listed ended left itemsAfter_ne_nil (by rintro closing ⟨⟩; rfl)
      have long : 3 ≤ (skipLabel (skip .ellipsis tokens)).length := by
        have := item.within
        have := length_skip_le .question item.rest
        omega
      have labelled := skipLabel_continued (continued.skip filled .ellipsis) long
      refine (resuming.type labelled).bind (fun item final done left => ?_)
        fun item rest _ filled continued => ?_
      · have listed := two_le_of_listed done left itemsAfter_ne_nil (by rintro closing ⟨⟩; rfl)
        have := length_skip_le .question item.rest
        exact List.length_pos_iff.mp (by omega)
      · refine resumes_of_done fun final done left => ?_
        have listed := two_le_of_listed done left itemsAfter_ne_nil (by rintro closing ⟨⟩; rfl)
        have filledAfter : skip .question item.rest ≠ [] := List.length_pos_iff.mp (by omega)
        have after := continued.skip filled .question
        refine Resumes.ite (by rw [after.startsWith filledAfter]) (fun _ => ?_) fun _ => ?_
        · exact ih item (after.tail filledAfter)
        · exact (expect_finishes after _ _).resumes.map fun _ => ⟨_, _, rfl, fun _ _ => ⟨_, rfl⟩⟩

theorem tuple_resumes (continued : Continued along following tokens others) :
    Resumes along following (inner.tuple tokens) (inner.tuple others) := by
  refine (expect_finishes continued _ _).resumes.bind (fun opening final done _ => ?_)
    fun opening _ _ _ continued => ?_
  · obtain ⟨items, done, -⟩ := bind_eq_ok.mp done
    exact itemsAfter_ne_nil done
  · exact (itemsAfter_resumes resuming continued).map fun _ => ⟨_, _, rfl, fun _ _ => ⟨_, rfl⟩⟩

theorem function_resumes (continued : Continued along following tokens others) :
    Resumes along following (inner.function tokens) (inner.function others) := by
  refine (skipTypeParameters_resumes continued).bind (fun _ _ done _ => ne_nil_of_bind done)
    fun generics _ _ _ continued => ?_
  refine (skipGroup_finishes continued _ _).resumes.bind (fun _ _ done _ => ne_nil_of_bind done)
    fun parameters _ _ _ continued => ?_
  refine (expect_finishes continued _ _).resumes.bind (fun _ _ done _ => ne_nil_of_bind done)
    fun arrow _ _ _ continued => ?_
  exact (resuming.type continued).map fun _ => ⟨_, _, rfl, fun _ _ => ⟨_, rfl⟩⟩

theorem parenthesized_resumes (continued : Continued along following tokens others) :
    Resumes along following (inner.parenthesized tokens) (inner.parenthesized others) := by
  refine (expect_finishes continued _ _).resumes.bind (fun _ _ done _ => ne_nil_of_bind done)
    fun opening _ _ _ continued => ?_
  refine (resuming.type continued).bind (fun _ _ done _ => ne_nil_of_bind done)
    fun content _ _ _ continued => ?_
  exact (expect_finishes continued _ _).resumes.map fun _ => ⟨_, _, rfl, fun _ _ => ⟨_, rfl⟩⟩

theorem worded_resumes {word : String} {position other : Nat} {doc : Option String}
    (here : along (⟨.word word, position, doc⟩ :: tokens))
    (behind : Continued along following tokens others) :
    Resumes along following (inner.worded word ⟨.word word, position, doc⟩ tokens)
      (inner.worded word ⟨.word word, other, doc⟩ others) := by
  refine resumes_of_done fun final _ left => ?_
  have filled := ne_nil_of_left left
  unfold worded
  refine Resumes.ite Iff.rfl (fun _ => resumes_ok behind) fun _ => ?_
  refine Resumes.ite Iff.rfl (fun _ => resumes_ok behind) fun _ => ?_
  refine Resumes.ite Iff.rfl (fun _ => ?_) fun _ => ?_
  · exact (dottedName_resumes behind).map fun _ => ⟨_, _, rfl, fun _ _ => ⟨_, rfl⟩⟩
  refine Resumes.ite (by rw [behind.startsWithAnyWord filled])
    (fun _ => resumes_ok (behind.tail filled)) fun _ => ?_
  refine Resumes.ite Iff.rfl (fun _ => ?_) fun _ => ?_
  · exact (function_resumes resuming behind).map fun _ => ⟨_, _, rfl, fun _ _ => ⟨_, rfl⟩⟩
  cases Keyword.ofWord? word with
  | some keyword => exact resumes_ok behind
  | none => exact reference_resumes resuming (.token here behind)

variable (settled : Settled along following)
include settled

theorem marked_resumes {mark : Mark} {position other : Nat} {doc : Option String}
    (here : along (⟨.mark mark, position, doc⟩ :: tokens))
    (behind : Continued along following tokens others) :
    Resumes along following (inner.marked mark ⟨.mark mark, position, doc⟩ tokens)
      (inner.marked mark ⟨.mark mark, other, doc⟩ others) := by
  have continued : Continued along following (⟨.mark mark, position, doc⟩ :: tokens)
      (⟨.mark mark, other, doc⟩ :: others) := .token here behind
  cases mark with
  | minus =>
      cases behind with
      | stop => exact resumes_error
      | @token token _ _ _ _ _ _ further =>
          cases token with
          | number raw => exact (numeral_finishes further).resumes
          | word | quoted | template | mark | symbol => exact resumes_error
  | openBrace => exact (resuming.body continued).resumes.map fun _ => ⟨_, _, rfl, fun _ _ => ⟨_, rfl⟩⟩
  | openBracket => exact tuple_resumes resuming continued
  | openParen =>
      refine Resumes.ite (by rw [settled here behind]) (fun _ => ?_) fun _ => ?_
      · exact function_resumes resuming continued
      · exact parenthesized_resumes resuming continued
  | openAngle => exact function_resumes resuming continued
  | _ => exact resumes_error

theorem primary_resumes (continued : Continued along following tokens others) :
    Resumes along following (inner.primary tokens) (inner.primary others) := by
  cases continued with
  | stop => exact resumes_error
  | @token token position other doc rest others here behind =>
      cases token with
      | word word => exact worded_resumes resuming here behind
      | quoted value => exact resumes_ok behind
      | number raw => exact (numeral_finishes behind).resumes
      | template raw => exact resumes_ok behind
      | mark mark => exact marked_resumes resuming settled here behind
      | symbol c => exact resumes_error

end Primaries

section Types

theorem skipOperators_continued {hidden : Bool} (continued : Continued along following tokens others)
    (filled : (skipOperators hidden tokens).2 ≠ []) :
    (skipOperators hidden others).1 = (skipOperators hidden tokens).1 ∧
      Continued along following (skipOperators hidden tokens).2 (skipOperators hidden others).2 := by
  induction continued generalizing hidden with
  | stop => contradiction
  | token here behind ih =>
      rw [skipOperators] at filled ⊢
      rw [skipOperators]
      split at filled
      · next hides => rw [if_pos hides, if_pos hides]; exact ih filled
      next other =>
      rw [if_neg other, if_neg other]
      split at filled
      · next modifies => rw [if_pos modifies, if_pos modifies]; exact ih filled
      · next plain => rw [if_neg plain, if_neg plain]; exact ⟨rfl, .token here behind⟩

theorem suffixes_spent {type : TypeExpr} {within : tokens.length < size}
    {final : Reading Located TypeExpr size} (done : suffixes type size tokens within = .ok final)
    (left : final.rest ≠ []) : tokens ≠ [] := by
  rintro rfl
  rw [suffixes, if_neg (by simp [startsWith])] at done
  cases done
  exact left rfl

theorem suffixes_resumes {type : TypeExpr} {within : tokens.length < size}
    {withinOther : others.length < sizeOther} (continued : Continued along following tokens others) :
    Resumes along following (suffixes type size tokens within)
      (suffixes type sizeOther others withinOther) := by
  induction type, tokens, within using suffixes.induct generalizing others with
  | case1 type tokens within opened closed ih =>
      have filled : tokens ≠ [] := ne_nil_of_startsWith opened
      have filledTail : tokens.tail ≠ [] := ne_nil_of_startsWith closed
      have openedOther := (continued.startsWith filled .openBracket).trans opened
      have closedOther := ((continued.tail filled).startsWith filledTail .closeBracket).trans closed
      unfold suffixes
      simp only [opened, closed, openedOther, closedOther, ↓reduceIte]
      exact ih ((continued.tail filled).tail filledTail)
  | case2 type tokens within opened further ih =>
      refine resumes_of_done fun final done left => ?_
      have filled : tokens ≠ [] := ne_nil_of_startsWith opened
      have openedOther := (continued.startsWith filled .openBracket).trans opened
      -- An index type does not end with its opening mark.
      have filledTail : tokens.tail ≠ [] := by
        rw [suffixes, if_pos opened, if_neg further] at done
        obtain ⟨group, -, ended⟩ := bind_eq_ok.mp done
        have shorter := group.within
        have longer := List.length_pos_iff.mpr (suffixes_spent ended left)
        exact List.length_pos_iff.mp (by rw [List.length_tail]; omega)
      have furtherOther := (continued.tail filled).not_startsWith filledTail further
      unfold suffixes
      simp only [opened, further, openedOther, furtherOther, ↓reduceIte]
      exact (skipGroup_finishes continued _ _).resumes.bind
        (fun _ _ done left => suffixes_spent done left) fun group _ _ _ continued => ih group continued
  | case3 type tokens within plain =>
      refine resumes_of_done fun final done left => ?_
      have filled : tokens ≠ [] := suffixes_spent done left
      have plainOther := continued.not_startsWith filled plain
      rw [suffixes, if_neg plain, suffixes, if_neg plainOther]
      exact resumes_ok continued

theorem intersectionAfter_spent {within : tokens.length < size} {final : Reading Located TypeExpr size}
    (done : inner.intersectionAfter size tokens within = .ok final) (left : final.rest ≠ []) :
    tokens ≠ [] := by
  rintro rfl
  rw [intersectionAfter, if_neg (by simp [startsWith])] at done
  cases done
  exact left rfl

theorem unionAfter_spent {seen : List TypeExpr} {within : tokens.length < size}
    {final : Reading Located (List TypeExpr) size}
    (done : inner.unionAfter seen size tokens within = .ok final) (left : final.rest ≠ []) :
    tokens ≠ [] := by
  rintro rfl
  rw [unionAfter, if_neg (by simp [startsWith])] at done
  cases done
  exact left rfl

variable (resuming : inner.Resuming along following) (settled : Settled along following)
include resuming settled

theorem suffixed_resumes (continued : Continued along following tokens others) :
    Resumes along following (inner.suffixed tokens) (inner.suffixed others) := by
  refine resumes_of_done fun final done _ => ?_
  obtain ⟨same, start⟩ := skipOperators_continued continued (ne_nil_of_bind done)
  unfold suffixed
  simp only [same]
  refine (primary_resumes resuming settled start).bind (fun first final done left => ?_)
    fun first _ _ _ continued => ?_
  · obtain ⟨result, readSuffixes, done⟩ := bind_eq_ok.mp done
    cases done
    exact suffixes_spent readSuffixes left
  · exact (suffixes_resumes continued).map fun _ => ⟨_, _, rfl, fun _ _ => ⟨_, rfl⟩⟩

theorem intersectionAfter_resumes {within : tokens.length < size}
    {withinOther : others.length < sizeOther} (continued : Continued along following tokens others) :
    Resumes along following (inner.intersectionAfter size tokens within)
      (inner.intersectionAfter sizeOther others withinOther) := by
  induction tokens, within using intersectionAfter.induct generalizing others with
  | case1 tokens within further ih =>
      have filled : tokens ≠ [] := ne_nil_of_startsWith further
      have furtherOther := (continued.startsWith filled .ampersand).trans further
      rw [intersectionAfter, if_pos further, intersectionAfter, if_pos furtherOther]
      exact (suffixed_resumes resuming settled (continued.tail filled)).bind
        (fun _ _ done left => intersectionAfter_spent done left) fun next _ _ _ continued =>
          ih next continued
  | case2 tokens within last =>
      refine resumes_of_done fun final done left => ?_
      have filled : tokens ≠ [] := intersectionAfter_spent done left
      have lastOther := continued.not_startsWith filled last
      rw [intersectionAfter, if_neg last, intersectionAfter, if_neg lastOther]
      exact resumes_ok continued

theorem intersection_resumes (continued : Continued along following tokens others) :
    Resumes along following (inner.intersection tokens) (inner.intersection others) := by
  refine resumes_of_done fun final _ _ => ?_
  have filled := ne_nil_of_reading final
  refine (suffixed_resumes resuming settled (continued.skip filled .ampersand)).bind
    (fun first final done left => ?_) fun first _ _ filled continued => ?_
  · refine ne_nil_of_ite done fun single => ?_
    cases single
    exact left
  · refine Resumes.ite (by rw [continued.startsWith filled]) (fun _ => ?_) fun _ => resumes_ok continued
    exact intersectionAfter_resumes resuming settled continued

theorem unionAfter_resumes {seen : List TypeExpr} {within : tokens.length < size}
    {withinOther : others.length < sizeOther} (continued : Continued along following tokens others) :
    Resumes along following (inner.unionAfter seen size tokens within)
      (inner.unionAfter seen sizeOther others withinOther) := by
  induction seen, tokens, within using unionAfter.induct generalizing others with
  | case1 seen tokens within further ih =>
      have filled : tokens ≠ [] := ne_nil_of_startsWith further
      have furtherOther := (continued.startsWith filled .pipe).trans further
      rw [unionAfter, if_pos further, unionAfter, if_pos furtherOther]
      exact (intersection_resumes resuming settled (continued.tail filled)).bind
        (fun _ _ done left => unionAfter_spent done left) fun next _ _ _ continued => ih next continued
  | case2 seen tokens within last =>
      refine resumes_of_done fun final done left => ?_
      have filled : tokens ≠ [] := unionAfter_spent done left
      have lastOther := continued.not_startsWith filled last
      rw [unionAfter, if_neg last, unionAfter, if_neg lastOther]
      exact resumes_ok continued

theorem union_resumes (continued : Continued along following tokens others) :
    Resumes along following (inner.union tokens) (inner.union others) := by
  refine resumes_of_done fun final _ _ => ?_
  have filled := ne_nil_of_reading final
  refine (intersection_resumes resuming settled (continued.skip filled .pipe)).bind
    (fun first final done left => ?_) fun first _ _ _ continued => ?_
  · obtain ⟨members, readMembers, done⟩ := bind_eq_ok.mp done
    cases done
    exact unionAfter_spent readMembers left
  · exact (unionAfter_resumes resuming settled continued).map fun _ => ⟨_, _, rfl, fun _ _ => ⟨_, rfl⟩⟩

theorem conditional_resumes (continued : Continued along following tokens others) :
    Resumes along following (inner.conditional tokens) (inner.conditional others) := by
  refine (union_resumes resuming settled continued).bind (fun check final done left => ?_)
    fun check _ _ filled continued => ?_
  · by_cases extended : startsWithWord "extends" check.rest = true
    · intro none
      rw [none] at extended
      contradiction
    · rw [if_neg extended] at done
      cases done
      exact left
  refine Resumes.ite (by rw [continued.startsWithWord filled]) (fun _ => ?_) fun _ => resumes_ok continued
  refine (union_resumes resuming settled (continued.tail filled)).bind
    (fun _ _ done _ => ne_nil_of_bind done) fun constraint _ _ _ continued => ?_
  refine (expect_finishes continued _ _).resumes.bind (fun _ _ done _ => ne_nil_of_bind done)
    fun question _ _ _ continued => ?_
  refine (resuming.type continued).bind (fun _ _ done _ => ne_nil_of_bind done)
    fun whenTrue _ _ _ continued => ?_
  refine (expect_finishes continued _ _).resumes.bind (fun _ _ done _ => ne_nil_of_bind done)
    fun colon _ _ _ continued => ?_
  exact (resuming.type continued).map fun _ => ⟨_, _, rfl, fun _ _ => ⟨_, rfl⟩⟩

end Types

section Members

theorem startsSignature_continued (continued : Continued along following tokens others)
    (filled : tokens ≠ []) : startsSignature others = startsSignature tokens := by
  simp only [startsSignature, continued.startsWith filled]

theorem endsMember_continued (continued : Continued along following tokens others)
    (filled : tokens ≠ []) : endsMember others = endsMember tokens := by
  simp only [endsMember, continued.startsWith filled]

theorem startsMember_continued (continued : Continued along following tokens others)
    (filled : tokens ≠ []) : startsMember others = startsMember tokens := by
  cases continued with
  | stop => contradiction
  | @token token position other doc rest others here behind => cases token <;> rfl

theorem skipReadonly_continued (continued : Continued along following tokens others)
    (longer : 2 ≤ (skipReadonly tokens).length) :
    Continued along following (skipReadonly tokens) (skipReadonly others) := by
  induction continued with
  | stop => contradiction
  | @token token position other doc rest others here behind ih =>
      have filled : rest ≠ [] := by
        have bound := length_skipReadonly_le (⟨token, position, doc⟩ :: rest)
        exact List.length_pos_iff.mp (Nat.le_of_succ_le_succ (Nat.le_trans longer bound))
      rw [skipReadonly] at longer ⊢
      rw [skipReadonly, startsMember_continued behind filled]
      split at longer
      · next modifies => rw [if_pos modifies, if_pos modifies]; exact ih longer
      · next plain => rw [if_neg plain, if_neg plain]; exact .token here behind

theorem skipSeparators_continued (continued : Continued along following tokens others)
    (filled : skipSeparators tokens ≠ []) :
    Continued along following (skipSeparators tokens) (skipSeparators others) := by
  induction continued with
  | stop => contradiction
  | @token token position other doc rest others here behind ih =>
      unfold skipSeparators at filled ih ⊢
      rw [List.dropWhile_cons] at filled ⊢
      rw [List.dropWhile_cons]
      split at filled
      · next separates => rw [if_pos separates, if_pos separates]; exact ih filled
      · next plain => rw [if_neg plain, if_neg plain]; exact .token here behind

theorem membersAfter_ne_nil {seen : List Member} {within : tokens.length ≤ size}
    {final : Reading Located (List Member) size}
    (done : inner.membersAfter seen size tokens within = .ok final) : tokens ≠ [] := by
  rintro rfl
  rw [membersAfter] at done
  split at done
  · contradiction
  · next same => simp [skipSeparators] at same

-- What is done behind separators depends on the token there.
theorem membersAfter_of_start (inner : Level) {first : Located} {rest : List Located}
    (start : skipSeparators tokens = first :: rest) (seen : List Member)
    (within : tokens.length ≤ size) : ∃ (withinRest : rest.length < size)
      (withinNext : ∀ next : Reading Located (Option Member) (first :: rest).length,
        next.rest.length ≤ size),
      inner.membersAfter seen size tokens within =
        if first.token = .mark .closeBrace then .ok ⟨seen.reverse, rest, withinRest⟩
        else inner.member (first :: rest) >>= fun next =>
          inner.membersAfter (next.value.toList ++ seen) size next.rest (withinNext next) := by
  have shorter := length_skipSeparators_le tokens
  rw [start] at shorter
  have fits := Nat.le_trans shorter within
  refine ⟨fits, fun next => Nat.le_trans (Nat.le_of_lt next.within) fits, ?_⟩
  rw [membersAfter]
  split
  · next same => simp [start] at same
  · next same =>
      cases start.symm.trans same
      rfl

variable (resuming : inner.Resuming along following)
include resuming

theorem skipAnnotation_resumes (continued : Continued along following tokens others) :
    Resumes along following (inner.skipAnnotation tokens) (inner.skipAnnotation others) := by
  refine resumes_of_done fun final _ left => ?_
  have filled := ne_nil_of_left left
  refine Resumes.ite (by rw [continued.startsWith filled]) (fun _ => ?_) fun _ => resumes_ok continued
  exact (resuming.type (continued.tail filled)).map fun _ => ⟨_, _, rfl, fun _ _ => ⟨_, rfl⟩⟩

theorem skipSignature_resumes (continued : Continued along following tokens others) :
    Resumes along following (inner.skipSignature tokens) (inner.skipSignature others) := by
  refine (skipTypeParameters_resumes continued).bind (fun _ _ done _ => ne_nil_of_bind done)
    fun generics _ _ _ continued => ?_
  refine (skipGroup_finishes continued _ _).resumes.bind (fun parameters final done left => ?_)
    fun parameters _ _ _ continued => ?_
  · obtain ⟨result, -, done⟩ := bind_eq_ok.mp done
    cases done
    exact ne_nil_of_left left
  · exact (skipAnnotation_resumes resuming continued).map fun _ => ⟨_, _, rfl, fun _ _ => ⟨_, rfl⟩⟩

theorem skipIndexSignature_resumes (continued : Continued along following tokens others) :
    Resumes along following (inner.skipIndexSignature tokens) (inner.skipIndexSignature others) := by
  refine (skipGroup_finishes continued _ _).resumes.bind (fun index final done left => ?_)
    fun index _ _ filled continued => ?_
  · obtain ⟨type, -, done⟩ := bind_eq_ok.mp done
    cases done
    have filled := List.length_pos_iff.mpr (ne_nil_of_left left)
    exact List.length_pos_iff.mp (Nat.lt_of_lt_of_le filled (length_skip_le .question index.rest))
  · exact (skipAnnotation_resumes resuming (continued.skip filled .question)).map
      fun _ => ⟨_, _, rfl, fun _ _ => ⟨_, rfl⟩⟩

theorem memberAfter_resumes {doc : Option String} {name : String}
    (continued : Continued along following tokens others) :
    Resumes along following (inner.memberAfter doc name tokens) (inner.memberAfter doc name others) := by
  refine resumes_of_done fun final done left => ?_
  have filled := ne_nil_of_left left
  have start := continued.skip filled .question
  -- At the end of the tokens nothing ends a member.
  have filledStart : skip .question tokens ≠ [] := by
    intro none
    simp only [memberAfter, none, startsSignature, endsMember, startsWith] at done
    contradiction
  unfold memberAfter
  simp only [continued.startsWith filled, start.startsWith filledStart,
    startsSignature_continued start filledStart, endsMember_continued start filledStart]
  refine Resumes.ite Iff.rfl (fun _ => ?_) fun _ => ?_
  · exact (resuming.type (start.tail filledStart)).map fun _ => ⟨_, _, rfl, fun _ _ => ⟨_, rfl⟩⟩
  refine Resumes.ite Iff.rfl (fun _ => ?_) fun _ => ?_
  · exact (skipSignature_resumes resuming start).map fun _ => ⟨_, _, rfl, fun _ _ => ⟨_, rfl⟩⟩
  · exact Resumes.ite Iff.rfl (fun _ => resumes_ok start) fun _ => resumes_error

theorem namedMember_resumes {doc : Option String}
    (continued : Continued along following tokens others) :
    Resumes along following (inner.namedMember doc tokens) (inner.namedMember doc others) := by
  refine resumes_of_done fun final _ left => ?_
  cases continued with
  | stop => exact resumes_error
  | @token token position other doc rest others here behind =>
      have filled : rest ≠ [] := ne_nil_of_left left
      have continued : Continued along following (⟨token, position, doc⟩ :: rest)
        (⟨token, other, doc⟩ :: others) := .token here behind
      cases token with
      | word name =>
          refine Resumes.ite (by rw [startsSignature_continued behind filled]) (fun _ => ?_) fun _ => ?_
          · exact (skipSignature_resumes resuming behind).map fun _ => ⟨_, _, rfl, fun _ _ => ⟨_, rfl⟩⟩
          · exact memberAfter_resumes resuming behind
      | number | quoted => exact memberAfter_resumes resuming behind
      | mark mark =>
          cases mark with
          | openBracket =>
              exact (skipIndexSignature_resumes resuming continued).map
                fun _ => ⟨_, _, rfl, fun _ _ => ⟨_, rfl⟩⟩
          | openParen | openAngle =>
              exact (skipSignature_resumes resuming continued).map
                fun _ => ⟨_, _, rfl, fun _ _ => ⟨_, rfl⟩⟩
          | _ => exact resumes_error
      | template | symbol => exact resumes_error

theorem member_resumes (continued : Continued along following tokens others) :
    Resumes along following (inner.member tokens) (inner.member others) := by
  refine resumes_of_done fun final done left => ?_
  have documented : others.head?.bind (·.doc) = tokens.head?.bind (·.doc) := by
    cases continued with
    | stop => exact absurd rfl (ne_nil_of_reading final)
    | token here behind => rfl
  have longer : 2 ≤ (skipReadonly tokens).length := by
    obtain ⟨named, -, done⟩ := bind_eq_ok.mp done
    cases done
    have shorter := named.within
    have filled := List.length_pos_iff.mpr left
    change 0 < named.rest.length at filled
    omega
  unfold member
  rw [documented]
  exact (namedMember_resumes resuming (skipReadonly_continued continued longer)).map
    fun _ => ⟨_, _, rfl, fun _ _ => ⟨_, rfl⟩⟩

theorem membersAfter_finishes {seen : List Member} {within : tokens.length ≤ size}
    {withinOther : others.length ≤ sizeOther} (continued : Continued along following tokens others) :
    Finishes along following (inner.membersAfter seen size tokens within)
      (inner.membersAfter seen sizeOther others withinOther) := by
  induction seen, tokens, within using membersAfter.induct generalizing others with
  | case1 seen tokens within _ start =>
      rw [membersAfter]
      split
      · exact finishes_error
      · next same => simp [start] at same
  | case2 seen tokens within _ first rest start closed =>
      have after := skipSeparators_continued continued (by simp [start])
      generalize startOther : skipSeparators others = startOthers at after
      rw [start] at after
      cases after with
      | token here behind =>
          obtain ⟨_, _, same⟩ := membersAfter_of_start inner start seen within
          obtain ⟨_, _, sameOther⟩ := membersAfter_of_start inner startOther seen withinOther
          rw [same, if_pos closed, sameOther, if_pos closed]
          exact finishes_ok behind
  | case3 seen tokens within _ first rest start opened ih =>
      have after := skipSeparators_continued continued (by simp [start])
      generalize startOther : skipSeparators others = startOthers at after
      rw [start] at after
      have whole := after
      cases after with
      | token here behind =>
          obtain ⟨_, _, same⟩ := membersAfter_of_start inner start seen within
          obtain ⟨_, _, sameOther⟩ := membersAfter_of_start inner startOther seen withinOther
          rw [same, if_neg opened, sameOther, if_neg opened]
          exact (member_resumes resuming whole).bind_finishes
            (fun _ _ done => membersAfter_ne_nil done) fun next _ _ _ continued => ih next continued

theorem objectBody_finishes (continued : Continued along following tokens others) :
    Finishes along following (inner.objectBody tokens) (inner.objectBody others) := by
  refine (expect_finishes continued _ _).resumes.bind_finishes (fun opening final done => ?_)
    fun opening _ _ _ continued => ?_
  · obtain ⟨members, done, -⟩ := bind_eq_ok.mp done
    exact membersAfter_ne_nil done
  · exact (membersAfter_finishes resuming continued).map fun _ => ⟨_, _, rfl, fun _ _ => ⟨_, rfl⟩⟩

end Members

section Units

theorem ofNesting_resuming (settled : Settled along following) (units : Nat) :
    (ofNesting units).Resuming along following := by
  induction units with
  | zero => exact ⟨fun _ => resumes_error, fun _ => finishes_error⟩
  | succ units ih => exact ⟨conditional_resumes ih settled, objectBody_finishes ih⟩

end Units

end Level

section Interfaces
variable {along : List Located → Prop} {following tokens others : List Located}

theorem bodyOnward_continued {angles : Nat} (continued : Continued along following tokens others)
    (filled : bodyOnward angles tokens ≠ []) :
    Continued along following (bodyOnward angles tokens) (bodyOnward angles others) := by
  induction continued generalizing angles with
  | stop => contradiction
  | token here behind ih =>
      rw [bodyOnward] at filled ⊢
      rw [bodyOnward]
      split at filled
      · next opens => rw [if_pos opens, if_pos opens]; exact .token here behind
      next other =>
      rw [if_neg other, if_neg other]
      split at filled
      · next opens => rw [if_pos opens, if_pos opens]; exact ih filled
      next other =>
      rw [if_neg other, if_neg other]
      split at filled
      · next closes => rw [if_pos closes, if_pos closes]; exact ih filled
      · next inside => rw [if_neg inside, if_neg inside]; exact ih filled

theorem readInterface_finishes (settled : Level.Settled along following)
    (continued : Continued along following tokens others) :
    Finishes along following (readInterface tokens) (readInterface others) := by
  refine (expectWord_finishes continued _).resumes.bind_finishes (fun name final done => ?_)
    fun name rest _ _ continued => ?_
  · intro none
    simp only [none, bodyOnward, List.isEmpty_nil, ↓reduceIte] at done
    contradiction
  simp only
  by_cases none : bodyOnward 0 name.rest = []
  · simp only [none, List.isEmpty_nil, ↓reduceIte]
    exact finishes_error
  have start := bodyOnward_continued continued none
  have filled : ¬(bodyOnward 0 name.rest).isEmpty = true := by simpa using none
  have filledOther : ¬(bodyOnward 0 rest).isEmpty = true := by simpa using start.ne_nil none
  rw [if_neg filled, if_neg filledOther]
  exact ((Level.ofNesting_resuming settled maximumNesting).body start).map
    fun _ => ⟨_, _, rfl, fun _ _ => ⟨_, rfl⟩⟩

end Interfaces

end Toggles.Declaration
