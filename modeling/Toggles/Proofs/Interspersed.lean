import Toggles.Proofs.Refusals

/-! Reading tokens with items inserted between them.

Items are inserted where a member can begin. The groups of brackets in an item are closed in it,
so a group that is passed over around it ends where it did, and a reader that passes over the
items themselves reads what it read without them. Only units of nesting may be missing, for
what is read in an item or because there are fewer of them.
-/

set_option autoImplicit false

namespace Toggles.Declaration

/-- Groups of a kind that are open `depth` times before these tokens are closed in them, and so
are all that they open. -/
def evensOut (opening closing : Mark) (depth : Nat) : List Located → Bool
  | [] => depth == 0
  | first :: rest =>
      if first.token = .mark opening then evensOut opening closing (depth + 1) rest
      else if first.token = .mark closing then
        depth != 0 && evensOut opening closing (depth - 1) rest
      else evensOut opening closing depth rest

/-- The groups of each kind that is passed over are closed. -/
def Even (tokens : List Located) : Prop :=
  ∀ opening closing, Mark.closer? opening = some closing → evensOut opening closing 0 tokens = true

/-- The items that are inserted, and their places by the number of tokens behind them. -/
structure Insertion where
  item : List Located → Prop
  place : Nat → Prop
  even : ∀ {tokens}, item tokens → Even tokens

def Token.opensMember : Token → Bool
  | .mark .openBrace | .mark .semicolon => true
  | _ => false

/-- Tokens at other positions, with items inserted where a member can begin. -/
inductive Interspersed (insertion : Insertion) : Bool → List Located → List Located → Prop where
  | nil {opens : Bool} : Interspersed insertion opens [] []
  | token {opens : Bool} {token : Token} {position other : Nat} {doc : Option String}
      {rest others : List Located} (behind : Interspersed insertion token.opensMember rest others) :
      Interspersed insertion opens (⟨token, position, doc⟩ :: rest) (⟨token, other, doc⟩ :: others)
  | item {item tokens others : List Located} (place : insertion.place tokens.length)
      (here : insertion.item item) (behind : Interspersed insertion true tokens others) :
      Interspersed insertion true tokens (item ++ others)

section Outcomes
variable (insertion : Insertion) (deep : Prop) {α β : Type} {small large smallOther largeOther : Nat}

/-- What is read before items are inserted is read with them, unless units of nesting are
missing where they may be. -/
inductive Survives : Outcome α small → Outcome α large → Prop where
  | refused (refusal : Refusal) (other : Outcome α large) : Survives (.error refusal) other
  | ok {value : α} {rest others : List Located} {within : rest.length < small}
      {withinOther : others.length < large} (behind : Interspersed insertion false rest others) :
      Survives (.ok ⟨value, rest, within⟩) (.ok ⟨value, others, withinOther⟩)
  | tooDeep {outcome : Outcome α small} {found : Option Located} (allowed : deep) :
      Survives outcome (.error (.tooDeep found))

variable {insertion deep}

theorem Survives.bind {first : Outcome α small} {other : Outcome α smallOther}
    {next : Reading Located α small → Outcome β large}
    {nextOther : Reading Located α smallOther → Outcome β largeOther}
    (read : Survives insertion deep first other)
    (continues : ∀ value rest others within withinOther, Interspersed insertion false rest others →
      Survives insertion deep (next ⟨value, rest, within⟩) (nextOther ⟨value, others, withinOther⟩)) :
    Survives insertion deep (first >>= next) (other >>= nextOther) := by
  cases read with
  | refused refusal other => exact .refused refusal _
  | ok behind => exact continues _ _ _ _ _ behind
  | tooDeep allowed => exact .tooDeep allowed

/-- A reading gives this value and leaves these tokens, unless units of nesting are missing where
they may be. -/
def Passes (deep : Prop) (outcome : Outcome α small) (value : α) (rest : List Located) : Prop :=
  Reads outcome value rest ∨ (deep ∧ ∃ found, outcome = .error (.tooDeep found))

theorem Reads.passes {first : Outcome α small} {next : Reading Located α small → Outcome β large}
    {value : α} {result : β} {rest after : List Located} (read : Reads first value rest)
    (continues : ∀ within, Passes deep (next ⟨value, rest, within⟩) result after) :
    Passes deep (first >>= next) result after := by
  obtain ⟨within, rfl⟩ := read
  exact continues within

theorem Passes.bind {first : Outcome α small} {next : Reading Located α small → Outcome β large}
    {value : α} {result : β} {rest after : List Located} (passes : Passes deep first value rest)
    (continues : ∀ within, Reads (next ⟨value, rest, within⟩) result after) :
    Passes deep (first >>= next) result after := by
  rcases passes with read | ⟨allowed, found, rfl⟩
  · exact .inl (read.bind continues)
  · exact .inr ⟨allowed, found, rfl⟩

theorem Survives.ite {condition other : Prop} [Decidable condition] [Decidable other]
    {yes no : Outcome α small} {yesOther noOther : Outcome α large} (same : other ↔ condition)
    (whenTrue : condition → Survives insertion deep yes yesOther)
    (whenFalse : ¬condition → Survives insertion deep no noOther) :
    Survives insertion deep (if condition then yes else no) (if other then yesOther else noOther) := by
  by_cases holds : condition
  · rw [if_pos holds, if_pos (same.mpr holds)]
    exact whenTrue holds
  · rw [if_neg holds, if_neg fun there => holds (same.mp there)]
    exact whenFalse holds

end Outcomes

section Groups
variable {opening closing : Mark} {extra depth : Nat} {item others : List Located}

-- A group that is open around an item ends where it does without the item.
theorem afterGroup?_passes (even : evensOut opening closing extra item = true) (opened : 0 < depth) :
    afterGroup? opening closing (extra + depth) (item ++ others) =
      afterGroup? opening closing depth others := by
  induction item generalizing extra with
  | nil =>
      obtain rfl : extra = 0 := by simpa [evensOut] using even
      rw [Nat.zero_add, List.nil_append]
  | cons first rest ih =>
      rw [evensOut] at even
      rw [List.cons_append, afterGroup?]
      split at even
      · next opens =>
          rw [if_pos opens, ← ih even]
          congr 1
          omega
      next plain =>
      rw [if_neg plain]
      split at even
      · next closes =>
          obtain ⟨inside, even⟩ : extra ≠ 0 ∧ evensOut opening closing (extra - 1) rest = true := by
            simpa using even
          rw [if_pos closes, if_neg (by omega), ← ih even]
          congr 1
          omega
      · next other =>
          rw [if_neg other]
          exact ih even

-- What decides on a function stands behind its parameters.
theorem arrowAfterGroup_eq (depth : Nat) (tokens : List Located) :
    Level.arrowAfterGroup depth tokens =
      (afterGroup? .openParen .closeParen depth tokens).any (startsWith .arrow) := by
  induction tokens generalizing depth with
  | nil => rfl
  | cons first rest ih =>
      rw [Level.arrowAfterGroup, afterGroup?]
      split
      · exact ih _
      split
      · split
        · rfl
        · exact ih _
      · exact ih _

theorem closer?_opensMember (pair : opening.closer? = some closing) :
    (Token.mark closing).opensMember = false := by
  cases opening <;> cases pair <;> rfl

end Groups

section Places
variable {insertion : Insertion} {deep : Prop} {opens : Bool} {tokens others : List Located}

namespace Interspersed

theorem startsWith (interspersed : Interspersed insertion false tokens others) (mark : Mark) :
    startsWith mark others = startsWith mark tokens := by
  cases interspersed <;> rfl

theorem startsWithWord (interspersed : Interspersed insertion false tokens others) (word : String) :
    startsWithWord word others = startsWithWord word tokens := by
  cases interspersed <;> rfl

theorem startsWithAnyWord (interspersed : Interspersed insertion false tokens others) :
    startsWithAnyWord others = startsWithAnyWord tokens := by
  cases interspersed with
  | nil => rfl
  | @token _ token => cases token <;> rfl

theorem tail {mark : Mark} (interspersed : Interspersed insertion false tokens others)
    (starts : Declaration.startsWith mark tokens = true) :
    Interspersed insertion (Token.mark mark).opensMember tokens.tail others.tail := by
  cases interspersed with
  | nil => contradiction
  | token behind =>
      cases of_decide_eq_true starts
      exact behind

theorem tailOfWord {word : String} (interspersed : Interspersed insertion false tokens others)
    (starts : Declaration.startsWithWord word tokens = true) :
    Interspersed insertion false tokens.tail others.tail := by
  cases interspersed with
  | nil => contradiction
  | token behind =>
      cases of_decide_eq_true starts
      exact behind

theorem tailOfAnyWord (interspersed : Interspersed insertion false tokens others)
    (starts : Declaration.startsWithAnyWord tokens = true) :
    Interspersed insertion false tokens.tail others.tail := by
  cases interspersed with
  | nil => contradiction
  | @token _ token _ _ _ _ _ behind =>
      cases token with
      | word name => exact behind
      | quoted | template | number | mark | symbol => contradiction

theorem skip {mark : Mark} (inside : (Token.mark mark).opensMember = false)
    (interspersed : Interspersed insertion false tokens others) :
    Interspersed insertion false (skip mark tokens) (skip mark others) := by
  unfold Declaration.skip
  rw [interspersed.startsWith]
  split
  · next starts => exact inside ▸ interspersed.tail starts
  · exact interspersed

theorem isEmpty (interspersed : Interspersed insertion false tokens others) :
    others.isEmpty = tokens.isEmpty := by
  cases interspersed <;> rfl

theorem doc_head? (interspersed : Interspersed insertion false tokens others) :
    others.head?.bind (·.doc) = tokens.head?.bind (·.doc) := by
  cases interspersed <;> rfl

end Interspersed

theorem expect_survives {mark : Mark} (inside : (Token.mark mark).opensMember = false)
    (interspersed : Interspersed insertion false tokens others) (expected : String) :
    Survives insertion deep (expect mark expected tokens) (expect mark expected others) := by
  cases interspersed with
  | nil => exact .refused _ _
  | token behind =>
      refine .ite Iff.rfl (fun same => .ok ?_) fun _ => .refused _ _
      cases same
      exact inside ▸ behind

theorem expectWord_survives (interspersed : Interspersed insertion false tokens others)
    (expected : String) :
    Survives insertion deep (expectWord expected tokens) (expectWord expected others) := by
  cases interspersed with
  | nil => exact .refused _ _
  | @token _ token _ _ _ _ _ behind =>
      cases token with
      | word name => exact .ok behind
      | quoted | template | number | mark | symbol => exact .refused _ _

theorem afterGroup?_interspersed {opening closing : Mark} {depth : Nat}
    (pair : opening.closer? = some closing) (interspersed : Interspersed insertion opens tokens others)
    (opened : 0 < depth) : Option.Rel (Interspersed insertion false)
      (afterGroup? opening closing depth tokens) (afterGroup? opening closing depth others) := by
  induction interspersed generalizing depth with
  | nil => exact .none
  | token behind ih =>
      rw [afterGroup?, afterGroup?]
      split
      · exact ih (Nat.succ_pos depth)
      split
      · next isClosing =>
          split
          · cases isClosing
            exact .some (closer?_opensMember pair ▸ behind)
          · exact ih (by omega)
      · exact ih opened
  | @item item tokens others place here behind ih =>
      have passes : afterGroup? opening closing depth (item ++ others) =
          afterGroup? opening closing depth others := by
        simpa using afterGroup?_passes (insertion.even here _ _ pair) opened
      rw [passes]
      exact ih opened

theorem skipGroup_survives {opening closing : Mark} (pair : opening.closer? = some closing)
    (interspersed : Interspersed insertion false tokens others) :
    Survives insertion deep (skipGroup opening closing tokens) (skipGroup opening closing others) := by
  cases interspersed with
  | nil => exact .refused _ _
  | token behind =>
      refine .ite Iff.rfl (fun opens => ?_) fun _ => .refused _ _
      cases opens
      have related := afterGroup?_interspersed pair behind Nat.one_pos
      split <;> split <;> simp_all
      · exact .ok related
      · exact .refused _ _

end Places

namespace Level

/-- What the readers of a level read is read by those of another one with items inserted, and
these pass over the items. -/
structure Carrying (insertion : Insertion) (deep : Prop) (inner other : Level) : Prop where
  type : ∀ {tokens others}, Interspersed insertion false tokens others →
    Survives insertion deep (inner.type tokens) (other.type others)
  body : ∀ {tokens others}, Interspersed insertion false tokens others →
    Survives insertion deep (inner.body tokens) (other.body others)

variable {insertion : Insertion} {deep : Prop} {tokens others : List Located}
  {inner other : Level} {size sizeOther : Nat}

section Names

theorem arrowAfterGroup_interspersed {opens : Bool}
    (interspersed : Interspersed insertion opens tokens others) :
    arrowAfterGroup 1 others = arrowAfterGroup 1 tokens := by
  have pair : Mark.closer? .openParen = some .closeParen := rfl
  rw [arrowAfterGroup_eq, arrowAfterGroup_eq]
  have related := afterGroup?_interspersed pair interspersed Nat.one_pos
  generalize afterGroup? .openParen .closeParen 1 tokens = rest at related ⊢
  generalize afterGroup? .openParen .closeParen 1 others = restOther at related ⊢
  cases related with
  | none => rfl
  | some behind => exact behind.startsWith .arrow

theorem dottedAfter_survives {name : String} {within : tokens.length < size}
    {withinOther : others.length < sizeOther}
    (interspersed : Interspersed insertion false tokens others) :
    Survives insertion deep (dottedAfter name size tokens within)
      (dottedAfter name sizeOther others withinOther) := by
  induction name, tokens, within using dottedAfter.induct generalizing others with
  | case1 name =>
      cases interspersed
      exact .ok .nil
  | case2 name first dot part position doc rest within ih =>
      cases interspersed with
      | token behind =>
          cases dot
          cases behind with
          | token behind =>
              rw [dottedAfter, if_pos rfl, dottedAfter, if_pos rfl]
              exact ih behind
  | case3 name first dot rest within noWord =>
      rw [dottedAfter.eq_3 _ _ _ _ _ noWord, if_pos dot]
      exact .refused _ _
  | case4 name first rest within other =>
      cases interspersed with
      | token behind =>
          unfold dottedAfter
          simp only [other, ↓reduceIte]
          exact .ok (.token behind)

theorem dottedName_survives (interspersed : Interspersed insertion false tokens others) :
    Survives insertion deep (dottedName tokens) (dottedName others) :=
  (expectWord_survives interspersed _).bind fun _ _ _ _ _ behind => dottedAfter_survives behind

end Names

section Primaries

theorem skipLabel_interspersed (interspersed : Interspersed insertion false tokens others) :
    Interspersed insertion false (skipLabel tokens) (skipLabel others) := by
  cases interspersed with
  | nil => exact .nil
  | @token _ token _ _ _ rest _ behind =>
      cases token with
      | word name =>
          replace behind : Interspersed insertion false rest _ := behind
          simp only [skipLabel, behind.startsWith]
          split
          · next colon => exact behind.tail colon
          cases question : startsWith .question rest with
          | false => exact .token behind
          | true =>
              have further : Interspersed insertion false _ _ := behind.tail question
              simp only [further.startsWith, Bool.true_and]
              split
              · next colon => exact further.tail colon
              · exact .token behind
      | quoted | template | number | mark | symbol => exact .token behind

theorem skipTypeParameters_survives (interspersed : Interspersed insertion false tokens others) :
    Survives insertion deep (skipTypeParameters tokens) (skipTypeParameters others) := by
  refine .ite (by rw [interspersed.startsWith]) (fun _ => ?_) fun _ => .ok interspersed
  exact (skipGroup_survives rfl interspersed).bind fun _ _ _ _ _ behind => .ok behind

theorem numeral_survives {negative : Bool} {raw : String} {position other : Nat}
    {within : tokens.length < size} {withinOther : others.length < sizeOther}
    (interspersed : Interspersed insertion false tokens others) :
    Survives insertion deep
      (numeral negative raw position >>= fun type => .ok ⟨type, tokens, within⟩)
      (numeral negative raw other >>= fun type => .ok ⟨type, others, withinOther⟩) := by
  unfold numeral
  cases numeralType? negative raw.toList with
  | some type => exact .ok interspersed
  | none => exact .refused _ _

variable (carrying : Carrying insertion deep inner other)
include carrying

theorem argumentsAfter_survives {seen : List TypeExpr} {within : tokens.length ≤ size}
    {withinOther : others.length ≤ sizeOther}
    (interspersed : Interspersed insertion false tokens others) :
    Survives insertion deep (inner.argumentsAfter seen size tokens within)
      (other.argumentsAfter seen sizeOther others withinOther) := by
  induction seen, tokens, within using argumentsAfter.induct generalizing others with
  | case1 seen tokens within ih =>
      rw [argumentsAfter, argumentsAfter]
      refine (carrying.type interspersed).bind fun argument rest others within _ behind => ?_
      refine .ite (by rw [behind.startsWith]) (fun comma => ?_) fun _ => ?_
      · exact ih ⟨argument, rest, within⟩ (behind.tail comma)
      · exact (expect_survives rfl behind _).bind fun _ _ _ _ _ behind => .ok behind

theorem reference_survives (interspersed : Interspersed insertion false tokens others) :
    Survives insertion deep (inner.reference tokens) (other.reference others) := by
  refine (dottedName_survives interspersed).bind fun name rest others _ _ behind => ?_
  refine .ite (by rw [behind.startsWith]) (fun opening => ?_) fun _ => .ok behind
  exact (argumentsAfter_survives carrying (behind.tail opening)).bind fun _ _ _ _ _ behind => .ok behind

theorem itemsAfter_survives {seen : List TypeExpr} {within : tokens.length ≤ size}
    {withinOther : others.length ≤ sizeOther}
    (interspersed : Interspersed insertion false tokens others) :
    Survives insertion deep (inner.itemsAfter seen size tokens within)
      (other.itemsAfter seen sizeOther others withinOther) := by
  induction seen, tokens, within using itemsAfter.induct generalizing others with
  | case1 seen tokens within closed =>
      have closedOther := (interspersed.startsWith .closeBracket).trans closed
      rw [itemsAfter, dif_pos closed, itemsAfter, dif_pos closedOther]
      exact .ok (interspersed.tail closed)
  | case2 seen tokens within opened =>
      rename_i ih
      have openedOther : ¬startsWith .closeBracket others = true := by
        rwa [interspersed.startsWith]
      rw [itemsAfter, dif_neg opened, itemsAfter, dif_neg openedOther]
      refine (carrying.type (skipLabel_interspersed (interspersed.skip rfl))).bind
        fun item rest others within _ behind => ?_
      have after : Interspersed insertion false (skip .question rest) (skip .question others) :=
        behind.skip rfl
      refine .ite (by rw [after.startsWith]) (fun comma => ?_) fun _ => ?_
      · exact ih ⟨item, rest, within⟩ (after.tail comma)
      · exact (expect_survives rfl after _).bind fun _ _ _ _ _ behind => .ok behind

theorem tuple_survives (interspersed : Interspersed insertion false tokens others) :
    Survives insertion deep (inner.tuple tokens) (other.tuple others) := by
  refine (expect_survives rfl interspersed _).bind fun _ _ _ _ _ behind => ?_
  exact (itemsAfter_survives carrying behind).bind fun _ _ _ _ _ behind => .ok behind

theorem function_survives (interspersed : Interspersed insertion false tokens others) :
    Survives insertion deep (inner.function tokens) (other.function others) := by
  refine (skipTypeParameters_survives interspersed).bind fun _ _ _ _ _ behind => ?_
  refine (skipGroup_survives rfl behind).bind fun _ _ _ _ _ behind => ?_
  refine (expect_survives rfl behind _).bind fun _ _ _ _ _ behind => ?_
  exact (carrying.type behind).bind fun _ _ _ _ _ behind => .ok behind

theorem parenthesized_survives (interspersed : Interspersed insertion false tokens others) :
    Survives insertion deep (inner.parenthesized tokens) (other.parenthesized others) := by
  refine (expect_survives rfl interspersed _).bind fun _ _ _ _ _ behind => ?_
  refine (carrying.type behind).bind fun _ _ _ _ _ behind => ?_
  exact (expect_survives rfl behind _).bind fun _ _ _ _ _ behind => .ok behind

theorem worded_survives {word : String} {position positionOther : Nat} {doc : Option String}
    (behind : Interspersed insertion false tokens others) :
    Survives insertion deep (inner.worded word ⟨.word word, position, doc⟩ tokens)
      (other.worded word ⟨.word word, positionOther, doc⟩ others) := by
  unfold worded
  refine .ite Iff.rfl (fun _ => .ok behind) fun _ => ?_
  refine .ite Iff.rfl (fun _ => .ok behind) fun _ => ?_
  refine .ite Iff.rfl (fun _ => ?_) fun _ => ?_
  · exact (dottedName_survives behind).bind fun _ _ _ _ _ behind => .ok behind
  refine .ite (by rw [behind.startsWithAnyWord]) (fun inferred => ?_) fun _ => ?_
  · exact .ok (behind.tailOfAnyWord (Bool.and_eq_true_iff.mp inferred).2)
  refine .ite Iff.rfl (fun _ => ?_) fun _ => ?_
  · exact (function_survives carrying behind).bind fun _ _ _ _ _ behind => .ok behind
  cases Keyword.ofWord? word with
  | some keyword => exact .ok behind
  | none => exact reference_survives carrying (.token behind)

theorem marked_survives {mark : Mark} {position positionOther : Nat} {doc : Option String}
    (behind : Interspersed insertion (Token.mark mark).opensMember tokens others) :
    Survives insertion deep (inner.marked mark ⟨.mark mark, position, doc⟩ tokens)
      (other.marked mark ⟨.mark mark, positionOther, doc⟩ others) := by
  have interspersed : Interspersed insertion false (⟨.mark mark, position, doc⟩ :: tokens)
      (⟨.mark mark, positionOther, doc⟩ :: others) := .token behind
  cases mark with
  | minus =>
      replace behind : Interspersed insertion false tokens others := behind
      cases behind with
      | nil => exact .refused _ _
      | @token _ token _ _ _ _ _ further =>
          cases token with
          | number raw => exact numeral_survives further
          | word | quoted | template | mark | symbol => exact .refused _ _
  | openBrace =>
      exact (carrying.body interspersed).bind fun _ _ _ _ _ behind => .ok behind
  | openBracket => exact tuple_survives carrying interspersed
  | openParen =>
      refine .ite (by rw [arrowAfterGroup_interspersed behind]) (fun _ => ?_) fun _ => ?_
      · exact function_survives carrying interspersed
      · exact parenthesized_survives carrying interspersed
  | openAngle => exact function_survives carrying interspersed
  | _ => exact .refused _ _

theorem primary_survives (interspersed : Interspersed insertion false tokens others) :
    Survives insertion deep (inner.primary tokens) (other.primary others) := by
  cases interspersed with
  | nil => exact .refused _ _
  | @token _ token _ _ _ _ _ behind =>
      cases token with
      | word word => exact worded_survives carrying behind
      | quoted | template => exact .ok behind
      | number raw => exact numeral_survives behind
      | mark mark => exact marked_survives carrying behind
      | symbol c => exact .refused _ _

end Primaries

section Types

theorem skipOperators_interspersed (interspersed : Interspersed insertion false tokens others)
    (hidden : Bool) :
    (skipOperators hidden others).1 = (skipOperators hidden tokens).1 ∧
      Interspersed insertion false (skipOperators hidden tokens).2 (skipOperators hidden others).2 := by
  induction tokens generalizing hidden others with
  | nil => cases interspersed; exact ⟨rfl, .nil⟩
  | cons first rest ih =>
      cases interspersed with
      | token behind =>
          rw [skipOperators, skipOperators]
          split
          · next operator => exact ih (by rcases operator with ⟨⟨⟩⟩ | ⟨⟨⟩⟩ <;> exact behind) true
          split
          · next operator => cases operator; exact ih behind hidden
          · exact ⟨rfl, .token behind⟩

theorem suffixes_survives {type : TypeExpr} {within : tokens.length < size}
    {withinOther : others.length < sizeOther}
    (interspersed : Interspersed insertion false tokens others) :
    Survives insertion deep (suffixes type size tokens within)
      (suffixes type sizeOther others withinOther) := by
  induction type, tokens, within using suffixes.induct generalizing others with
  | case1 type tokens within opened closed ih =>
      have further : Interspersed insertion false tokens.tail others.tail := interspersed.tail opened
      have openedOther := (interspersed.startsWith .openBracket).trans opened
      have closedOther := (further.startsWith .closeBracket).trans closed
      unfold suffixes
      simp only [opened, closed, openedOther, closedOther, ↓reduceIte]
      exact ih (further.tail closed)
  | case2 type tokens within opened unclosed ih =>
      have further : Interspersed insertion false tokens.tail others.tail := interspersed.tail opened
      have openedOther := (interspersed.startsWith .openBracket).trans opened
      have unclosedOther : ¬startsWith .closeBracket others.tail = true := by
        rwa [further.startsWith]
      unfold suffixes
      simp only [opened, unclosed, openedOther, unclosedOther, ↓reduceIte]
      exact (skipGroup_survives rfl interspersed).bind fun _ rest _ within _ behind =>
        ih ⟨(), rest, within⟩ behind
  | case3 type tokens within plain =>
      have plainOther : ¬startsWith .openBracket others = true := by rwa [interspersed.startsWith]
      rw [suffixes, if_neg plain, suffixes, if_neg plainOther]
      exact .ok interspersed

variable (carrying : Carrying insertion deep inner other)
include carrying

theorem suffixed_survives (interspersed : Interspersed insertion false tokens others) :
    Survives insertion deep (inner.suffixed tokens) (other.suffixed others) := by
  obtain ⟨same, start⟩ := skipOperators_interspersed interspersed false
  unfold suffixed
  simp only [same]
  refine (primary_survives carrying start).bind fun _ _ _ _ _ behind => ?_
  exact (suffixes_survives behind).bind fun _ _ _ _ _ behind => .ok behind

theorem intersectionAfter_survives {within : tokens.length < size}
    {withinOther : others.length < sizeOther}
    (interspersed : Interspersed insertion false tokens others) :
    Survives insertion deep (inner.intersectionAfter size tokens within)
      (other.intersectionAfter sizeOther others withinOther) := by
  induction tokens, within using intersectionAfter.induct generalizing others with
  | case1 tokens within further ih =>
      have furtherOther := (interspersed.startsWith .ampersand).trans further
      rw [intersectionAfter, if_pos further, intersectionAfter, if_pos furtherOther]
      exact (suffixed_survives carrying (interspersed.tail further)).bind
        fun type rest _ within _ behind => ih ⟨type, rest, within⟩ behind
  | case2 tokens within last =>
      have lastOther : ¬startsWith .ampersand others = true := by rwa [interspersed.startsWith]
      rw [intersectionAfter, if_neg last, intersectionAfter, if_neg lastOther]
      exact .ok interspersed

theorem intersection_survives (interspersed : Interspersed insertion false tokens others) :
    Survives insertion deep (inner.intersection tokens) (other.intersection others) := by
  refine (suffixed_survives carrying (interspersed.skip rfl)).bind fun _ _ _ _ _ behind => ?_
  refine .ite (by rw [behind.startsWith]) (fun _ => ?_) fun _ => .ok behind
  exact intersectionAfter_survives carrying behind

theorem unionAfter_survives {seen : List TypeExpr} {within : tokens.length < size}
    {withinOther : others.length < sizeOther}
    (interspersed : Interspersed insertion false tokens others) :
    Survives insertion deep (inner.unionAfter seen size tokens within)
      (other.unionAfter seen sizeOther others withinOther) := by
  induction seen, tokens, within using unionAfter.induct generalizing others with
  | case1 seen tokens within further ih =>
      have furtherOther := (interspersed.startsWith .pipe).trans further
      rw [unionAfter, if_pos further, unionAfter, if_pos furtherOther]
      exact (intersection_survives carrying (interspersed.tail further)).bind
        fun type rest _ within _ behind => ih ⟨type, rest, within⟩ behind
  | case2 seen tokens within last =>
      have lastOther : ¬startsWith .pipe others = true := by rwa [interspersed.startsWith]
      rw [unionAfter, if_neg last, unionAfter, if_neg lastOther]
      exact .ok interspersed

theorem union_survives (interspersed : Interspersed insertion false tokens others) :
    Survives insertion deep (inner.union tokens) (other.union others) := by
  refine (intersection_survives carrying (interspersed.skip rfl)).bind fun _ _ _ _ _ behind => ?_
  exact (unionAfter_survives carrying behind).bind fun _ _ _ _ _ behind => .ok behind

theorem conditional_survives (interspersed : Interspersed insertion false tokens others) :
    Survives insertion deep (inner.conditional tokens) (other.conditional others) := by
  refine (union_survives carrying interspersed).bind fun _ _ _ _ _ behind => ?_
  refine .ite (by rw [behind.startsWithWord]) (fun condition => ?_) fun _ => .ok behind
  refine (union_survives carrying (behind.tailOfWord condition)).bind fun _ _ _ _ _ behind => ?_
  refine (expect_survives rfl behind _).bind fun _ _ _ _ _ behind => ?_
  refine (carrying.type behind).bind fun _ _ _ _ _ behind => ?_
  refine (expect_survives rfl behind _).bind fun _ _ _ _ _ behind => ?_
  exact (carrying.type behind).bind fun _ _ _ _ _ behind => .ok behind

end Types

section Members

theorem startsMember_interspersed (interspersed : Interspersed insertion false tokens others) :
    startsMember others = startsMember tokens := by
  cases interspersed with
  | nil => rfl
  | @token _ token => cases token <;> rfl

theorem skipReadonly_interspersed (interspersed : Interspersed insertion false tokens others) :
    Interspersed insertion false (skipReadonly tokens) (skipReadonly others) := by
  induction tokens generalizing others with
  | nil => cases interspersed; exact .nil
  | cons first rest ih =>
      cases interspersed with
      | @token _ token _ _ _ _ _ behind =>
          by_cases readonly : token = .word "readonly"
          · subst readonly
            have behind : Interspersed insertion false rest _ := behind
            rw [skipReadonly, skipReadonly, startsMember_interspersed behind]
            split
            · exact ih behind
            · exact .token behind
          · rw [skipReadonly, skipReadonly]
            simp only [readonly, decide_false, Bool.false_and, Bool.false_eq_true, ↓reduceIte]
            exact .token behind

theorem startsSignature_interspersed (interspersed : Interspersed insertion false tokens others) :
    startsSignature others = startsSignature tokens := by
  simp only [startsSignature, interspersed.startsWith]

theorem endsMember_interspersed (interspersed : Interspersed insertion false tokens others) :
    endsMember others = endsMember tokens := by
  simp only [endsMember, interspersed.startsWith]

variable (carrying : Carrying insertion deep inner other)
include carrying

theorem skipAnnotation_survives (interspersed : Interspersed insertion false tokens others) :
    Survives insertion deep (inner.skipAnnotation tokens) (other.skipAnnotation others) := by
  refine .ite (by rw [interspersed.startsWith]) (fun colon => ?_) fun _ => .ok interspersed
  exact (carrying.type (interspersed.tail colon)).bind fun _ _ _ _ _ behind => .ok behind

theorem skipSignature_survives (interspersed : Interspersed insertion false tokens others) :
    Survives insertion deep (inner.skipSignature tokens) (other.skipSignature others) := by
  refine (skipTypeParameters_survives interspersed).bind fun _ _ _ _ _ behind => ?_
  refine (skipGroup_survives rfl behind).bind fun _ _ _ _ _ behind => ?_
  exact (skipAnnotation_survives carrying behind).bind fun _ _ _ _ _ behind => .ok behind

theorem skipIndexSignature_survives (interspersed : Interspersed insertion false tokens others) :
    Survives insertion deep (inner.skipIndexSignature tokens) (other.skipIndexSignature others) := by
  refine (skipGroup_survives rfl interspersed).bind fun _ _ _ _ _ behind => ?_
  exact (skipAnnotation_survives carrying (behind.skip rfl)).bind fun _ _ _ _ _ behind => .ok behind

theorem memberAfter_survives {doc : Option String} {name : String}
    (interspersed : Interspersed insertion false tokens others) :
    Survives insertion deep (inner.memberAfter doc name tokens) (other.memberAfter doc name others) := by
  have start : Interspersed insertion false (skip .question tokens) (skip .question others) :=
    interspersed.skip rfl
  unfold memberAfter
  simp only [interspersed.startsWith, start.startsWith, startsSignature_interspersed start,
    endsMember_interspersed start]
  refine .ite Iff.rfl (fun colon => ?_) fun _ => ?_
  · exact (carrying.type (start.tail colon)).bind fun _ _ _ _ _ behind => .ok behind
  refine .ite Iff.rfl (fun _ => ?_) fun _ => ?_
  · exact (skipSignature_survives carrying start).bind fun _ _ _ _ _ behind => .ok behind
  · exact .ite Iff.rfl (fun _ => .ok start) fun _ => .refused _ _

theorem namedMember_survives {doc : Option String}
    (interspersed : Interspersed insertion false tokens others) :
    Survives insertion deep (inner.namedMember doc tokens) (other.namedMember doc others) := by
  cases interspersed with
  | nil => exact .refused _ _
  | @token _ token position positionOther doc rest others behind =>
      have interspersed : Interspersed insertion false (⟨token, position, doc⟩ :: rest)
        (⟨token, positionOther, doc⟩ :: others) := .token behind
      cases token with
      | word name =>
          replace behind : Interspersed insertion false rest others := behind
          refine .ite (by rw [startsSignature_interspersed behind]) (fun _ => ?_) fun _ => ?_
          · exact (skipSignature_survives carrying behind).bind fun _ _ _ _ _ behind => .ok behind
          · exact memberAfter_survives carrying behind
      | number | quoted => exact memberAfter_survives carrying behind
      | mark mark =>
          cases mark with
          | openBracket =>
              exact (skipIndexSignature_survives carrying interspersed).bind
                fun _ _ _ _ _ behind => .ok behind
          | openParen | openAngle =>
              exact (skipSignature_survives carrying interspersed).bind
                fun _ _ _ _ _ behind => .ok behind
          | _ => exact .refused _ _
      | template | symbol => exact .refused _ _

theorem member_survives (interspersed : Interspersed insertion false tokens others) :
    Survives insertion deep (inner.member tokens) (other.member others) := by
  unfold member
  rw [interspersed.doc_head?]
  exact (namedMember_survives carrying (skipReadonly_interspersed interspersed)).bind
    fun _ _ _ _ _ behind => .ok behind

end Members

section Bodies

def OpensMember (tokens : List Located) : Prop :=
  ∃ first rest, tokens = first :: rest ∧ skipSeparators (first :: rest) = first :: rest ∧
    first.token ≠ .mark .closeBrace

/-- An item is read as a member that is dropped, up to its semicolon. -/
def PassesOver (insertion : Insertion) (deep : Prop) (other : Level) : Prop :=
  ∀ item, insertion.item item → ∀ others, OpensMember (item ++ others) ∧ ∃ semicolon,
    semicolon.token = .mark .semicolon ∧
    Passes deep (other.member (item ++ others)) none (semicolon :: others)

-- Members are read from what stands behind separators.
theorem membersAfter_congr {seen : List Member} {within : tokens.length ≤ size}
    {withinOther : others.length ≤ size} (same : skipSeparators tokens = skipSeparators others) :
    inner.membersAfter seen size tokens within = inner.membersAfter seen size others withinOther := by
  cases start : skipSeparators others with
  | nil =>
      rw [membersAfter_ended inner start, membersAfter_ended inner (same.trans start)]
  | cons first rest =>
      obtain ⟨_, _, here⟩ := membersAfter_of_start inner (same.trans start) seen within
      obtain ⟨_, _, there⟩ := membersAfter_of_start inner start seen withinOther
      rw [here, there]

def Onward (other : Level) (tokens start : List Located) : Prop :=
  ∀ seen size within, ∃ withinStart,
    other.membersAfter seen size tokens within = other.membersAfter seen size start withinStart

theorem Onward.trans {start further : List Located} (first : Onward other tokens start)
    (second : Onward other start further) : Onward other tokens further := by
  intro seen size within
  obtain ⟨withinStart, same⟩ := first seen size within
  obtain ⟨withinFurther, again⟩ := second seen size withinStart
  exact ⟨withinFurther, same.trans again⟩

theorem onward_separator {first : Located} {rest : List Located}
    (separates : skipSeparators (first :: rest) = skipSeparators rest) :
    Onward other (first :: rest) rest :=
  fun _ _ within => ⟨Nat.le_of_succ_le within, membersAfter_congr separates⟩

theorem onward_dropped {after : List Located} (opens : OpensMember tokens)
    (dropped : Reads (other.member tokens) none after) : Onward other tokens after := by
  intro seen size within
  obtain ⟨first, rest, rfl, start, opened⟩ := opens
  obtain ⟨shorter, same⟩ := dropped
  obtain ⟨_, withinNext, unfolded⟩ := membersAfter_of_start other start seen within
  refine ⟨withinNext ⟨none, after, shorter⟩, ?_⟩
  rw [unfolded, if_neg opened, same]
  rfl

theorem membersAfter_tooDeep {found : Option Located} (opens : OpensMember tokens)
    (refused : other.member tokens = .error (.tooDeep found)) (seen : List Member)
    (within : tokens.length ≤ size) :
    other.membersAfter seen size tokens within = .error (.tooDeep found) := by
  obtain ⟨first, rest, rfl, start, opened⟩ := opens
  obtain ⟨_, _, unfolded⟩ := membersAfter_of_start other start seen within
  rw [unfolded, if_neg opened, refused]
  rfl

-- By the items and separators in front of a member: with each of them the members that are read
-- stay the same.
theorem onward_interspersed {opens : Bool} (passing : PassesOver insertion deep other)
    (interspersed : Interspersed insertion opens tokens others) :
    (∃ start, Interspersed insertion false (skipSeparators tokens) (skipSeparators start) ∧
      Onward other others start) ∨
    (deep ∧ ∀ seen size within, ∃ found,
      other.membersAfter seen size others within = .error (.tooDeep found)) := by
  have refused_of_onward : ∀ {others start}, Onward other others start →
      (∀ seen size within, ∃ found,
        other.membersAfter seen size start within = .error (.tooDeep found)) →
      ∀ seen size within, ∃ found,
        other.membersAfter seen size others within = .error (.tooDeep found) := by
    intro others start onward refused seen size within
    obtain ⟨withinStart, same⟩ := onward seen size within
    exact same ▸ refused seen size withinStart
  induction interspersed with
  | nil => exact .inl ⟨[], .nil, fun _ _ within => ⟨within, rfl⟩⟩
  | @token _ token position positionOther doc rest others behind ih =>
      by_cases separates : (token = .mark .semicolon || token = .mark .comma) = true
      · have same : skipSeparators (⟨token, position, doc⟩ :: rest) = skipSeparators rest :=
          List.dropWhile_cons_of_pos separates
        have onward : Onward other (⟨token, positionOther, doc⟩ :: others) others :=
          onward_separator (List.dropWhile_cons_of_pos separates)
        rw [same]
        exact ih.imp (fun ⟨start, further, reads⟩ => ⟨start, further, onward.trans reads⟩)
          fun ⟨allowed, refused⟩ => ⟨allowed, refused_of_onward onward refused⟩
      · refine .inl ⟨⟨token, positionOther, doc⟩ :: others, ?_, fun _ _ within => ⟨within, rfl⟩⟩
        have plain : ∀ position rest, skipSeparators (⟨token, position, doc⟩ :: rest) =
            ⟨token, position, doc⟩ :: rest := fun _ _ => List.dropWhile_cons_of_neg separates
        rw [plain, plain]
        exact .token behind
  | @item item tokens others place here behind ih =>
      obtain ⟨begins, semicolon, separates, passes⟩ := passing _ here others
      rcases passes with dropped | ⟨allowed, found, refused⟩
      · have same : skipSeparators (semicolon :: others) = skipSeparators others :=
          List.dropWhile_cons_of_pos (by rw [separates]; rfl)
        have onward : Onward other (item ++ others) others :=
          (onward_dropped begins dropped).trans (onward_separator same)
        exact ih.imp (fun ⟨start, further, reads⟩ => ⟨start, further, onward.trans reads⟩)
          fun ⟨allowed, refused⟩ => ⟨allowed, refused_of_onward onward refused⟩
      · exact .inr ⟨allowed, fun seen size within =>
          ⟨found, membersAfter_tooDeep begins refused seen within⟩⟩

theorem objectBody_opened (inner : Level) {position : Nat} {doc : Option String} {rest : List Located} :
    inner.objectBody (⟨.mark .openBrace, position, doc⟩ :: rest) =
      inner.membersAfter [] rest.length rest (Nat.le_refl _) >>= fun members =>
        .ok (members.widen (Nat.le_succ _)) :=
  rfl

variable (carrying : Carrying insertion deep inner other) (passing : PassesOver insertion deep other)
include carrying passing

theorem membersAfter_survives {opens : Bool} {seen : List Member} {within : tokens.length ≤ size}
    {withinOther : others.length ≤ sizeOther}
    (interspersed : Interspersed insertion opens tokens others) :
    Survives insertion deep (inner.membersAfter seen size tokens within)
      (other.membersAfter seen sizeOther others withinOther) := by
  induction seen, tokens, within using membersAfter.induct generalizing others opens with
  | case1 seen tokens within _ start =>
      rw [membersAfter_ended inner start]
      exact .refused _ _
  | case2 seen tokens within _ first rest start closed =>
      rcases onward_interspersed passing interspersed with ⟨begin, further, onward⟩ | ⟨allowed, refused⟩
      · obtain ⟨_, _, same⟩ := membersAfter_of_start inner start seen within
        obtain ⟨withinBegin, sameOther⟩ := onward seen sizeOther withinOther
        rw [start] at further
        generalize startOther : skipSeparators begin = others at further
        cases further with
        | token behind =>
            cases closed
            obtain ⟨_, _, sameBegin⟩ := membersAfter_of_start other startOther seen withinBegin
            rw [same, if_pos rfl, sameOther, sameBegin, if_pos rfl]
            exact .ok behind
      · obtain ⟨found, refused⟩ := refused seen sizeOther withinOther
        rw [refused]
        exact .tooDeep allowed
  | case3 seen tokens within _ first rest start opened ih =>
      rcases onward_interspersed passing interspersed with ⟨begin, further, onward⟩ | ⟨allowed, refused⟩
      · obtain ⟨_, _, same⟩ := membersAfter_of_start inner start seen within
        obtain ⟨withinBegin, sameOther⟩ := onward seen sizeOther withinOther
        rw [start] at further
        generalize startOther : skipSeparators begin = others at further
        have whole := further
        cases further with
        | token behind =>
            obtain ⟨_, _, sameBegin⟩ := membersAfter_of_start other startOther seen withinBegin
            rw [same, if_neg opened, sameOther, sameBegin, if_neg opened]
            exact (member_survives carrying whole).bind fun next rest _ within _ behind =>
              ih ⟨next, rest, within⟩ behind
      · obtain ⟨found, refused⟩ := refused seen sizeOther withinOther
        rw [refused]
        exact .tooDeep allowed

theorem objectBody_survives (interspersed : Interspersed insertion false tokens others) :
    Survives insertion deep (inner.objectBody tokens) (other.objectBody others) := by
  cases interspersed with
  | nil => exact .refused _ _
  | @token _ token _ _ _ _ _ behind =>
      by_cases opening : token = .mark .openBrace
      · subst opening
        rw [objectBody_opened, objectBody_opened]
        exact (membersAfter_survives carrying passing behind).bind fun _ _ _ _ _ behind => .ok behind
      · unfold objectBody
        rw [expect, if_neg opening]
        exact .refused _ _

end Bodies

-- A level that has more units of nesting than another one reads what that one reads. Each unit
-- that is spent inside is spent by both.
theorem ofNesting_carrying {need units unitsOther : Nat} (fits : deep ∨ units + need ≤ unitsOther)
    (passing : ∀ unitsOther, deep ∨ need ≤ unitsOther →
      PassesOver insertion deep (ofNesting unitsOther)) :
    Carrying insertion deep (ofNesting units) (ofNesting unitsOther) := by
  induction units generalizing unitsOther with
  | zero => exact ⟨fun _ => .refused _ _, fun _ => .refused _ _⟩
  | succ units ih =>
      cases unitsOther with
      | zero =>
          have allowed : deep := fits.resolve_right (by omega)
          exact ⟨fun _ => .tooDeep allowed, fun _ => .tooDeep allowed⟩
      | succ unitsOther =>
          have carrying : Carrying insertion deep (ofNesting units) (ofNesting unitsOther) :=
            ih (fits.imp_right fun within => by omega)
          have dropped := passing unitsOther (fits.imp_right fun within => by omega)
          exact ⟨conditional_survives carrying, objectBody_survives carrying dropped⟩

end Level

end Toggles.Declaration
