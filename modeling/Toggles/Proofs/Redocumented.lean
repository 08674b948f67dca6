import Mathlib.Data.List.Forall2
import Toggles.Declaration.Source
import Toggles.Proofs.Continuation

/-! Reading tokens with other documentation.

No reader looks at documentation, at positions or at the text of a template. Two lists of
tokens that differ in nothing else are read alike: either both are refused, or the second one
gives what the first one gives, with its documentation changed.
-/

set_option autoImplicit false

namespace Toggles.Declaration

mutual

def TypeExpr.redocument (change : String → String) : TypeExpr → TypeExpr
  | .keyword value => .keyword value
  | .literal value => .literal value
  | .array item => .array (item.redocument change)
  | .union members => .union (redocumentEach change members)
  | .object members => .object (redocumentMembers change members)
  | .reference name arguments => .reference name (redocumentEach change arguments)
  | .tuple items => .tuple (redocumentEach change items)
  | .uninterpreted => .uninterpreted

def redocumentEach (change : String → String) : List TypeExpr → List TypeExpr
  | [] => []
  | type :: rest => type.redocument change :: redocumentEach change rest

def redocumentMembers (change : String → String) :
    List (Property TypeExpr) → List (Property TypeExpr)
  | [] => []
  | ⟨name, optional, doc, type⟩ :: rest =>
      ⟨name, optional, doc.map change, type.redocument change⟩ :: redocumentMembers change rest

end

def Property.redocument (change : String → String) (member : Member) : Member :=
  ⟨member.name, member.optional, member.doc.map change, member.type.redocument change⟩

def Interface.redocument (change : String → String) (declared : Interface) : Interface :=
  ⟨declared.name, declared.members.map (Property.redocument change)⟩

def SourceFile.redocument (change : String → String) (file : SourceFile) : SourceFile :=
  ⟨file.interfaces.map (Interface.redocument change)⟩

section Trees
variable (change : String → String)

@[simp]
theorem redocumentEach_eq_map (types : List TypeExpr) :
    redocumentEach change types = types.map (TypeExpr.redocument change) := by
  induction types with
  | nil => rfl
  | cons type rest ih => rw [redocumentEach, ih, List.map_cons]

@[simp]
theorem redocumentMembers_eq_map (members : List Member) :
    redocumentMembers change members = members.map (Property.redocument change) := by
  induction members with
  | nil => rfl
  | cons member rest ih => rw [redocumentMembers, ih, List.map_cons, Property.redocument]

theorem Level.unionOf_redocument (members : List TypeExpr) :
    unionOf (members.map (TypeExpr.redocument change)) = (unionOf members).redocument change := by
  rcases members with _ | ⟨first, _ | ⟨second, rest⟩⟩
  · rfl
  · rfl
  · simp [unionOf, TypeExpr.redocument]

end Trees

/-- Tokens at other positions and with their documentation changed. Templates may have another
text. -/
inductive Redocumented (change : String → String) : List Located → List Located → Prop where
  | nil : Redocumented change [] []
  | token {token : Token} {position other : Nat} {doc : Option String} {rest others : List Located}
      (behind : Redocumented change rest others) :
      Redocumented change (⟨token, position, doc⟩ :: rest) (⟨token, other, doc.map change⟩ :: others)
  | template {raw rawOther : String} {position other : Nat} {doc : Option String}
      {rest others : List Located} (behind : Redocumented change rest others) :
      Redocumented change (⟨.template raw, position, doc⟩ :: rest)
        (⟨.template rawOther, other, doc.map change⟩ :: others)

section Outcomes
variable (change : String → String) {α β : Type} {small large smallOther largeOther : Nat}

/-- Both readings are refused, or the second one gives what the first one gives, converted. -/
inductive Agree (convert : α → α) : Outcome α small → Outcome α large → Prop where
  | error (refusal other : Refusal) : Agree convert (.error refusal) (.error other)
  | ok {value : α} {rest others : List Located} {within : rest.length < small}
      {withinOther : others.length < large} (behind : Redocumented change rest others) :
      Agree convert (.ok ⟨value, rest, within⟩) (.ok ⟨convert value, others, withinOther⟩)

variable {change} {convert : α → α} {convertNext : β → β}

-- The value of the second reading may be written in another way.
theorem agree_ok {value valueOther : α} {rest others : List Located} {within : rest.length < small}
    {withinOther : others.length < large} (same : valueOther = convert value)
    (behind : Redocumented change rest others) :
    Agree change convert (.ok ⟨value, rest, within⟩) (.ok ⟨valueOther, others, withinOther⟩) :=
  same ▸ .ok behind

theorem Agree.bind {first : Outcome α small} {other : Outcome α smallOther}
    {next : Reading Located α small → Outcome β large}
    {nextOther : Reading Located α smallOther → Outcome β largeOther}
    (read : Agree change convert first other)
    (continues : ∀ value rest others within withinOther, Redocumented change rest others →
      Agree change convertNext (next ⟨value, rest, within⟩)
        (nextOther ⟨convert value, others, withinOther⟩)) :
    Agree change convertNext (first >>= next) (other >>= nextOther) := by
  cases read with
  | error refusal other => exact .error refusal other
  | ok behind => exact continues _ _ _ _ _ behind

theorem Agree.ite {condition other : Prop} [Decidable condition] [Decidable other]
    {yes no : Outcome α small} {yesOther noOther : Outcome α large} (same : other ↔ condition)
    (whenTrue : condition → Agree change convert yes yesOther)
    (whenFalse : ¬condition → Agree change convert no noOther) :
    Agree change convert (if condition then yes else no) (if other then yesOther else noOther) := by
  by_cases holds : condition
  · rw [if_pos holds, if_pos (same.mpr holds)]
    exact whenTrue holds
  · rw [if_neg holds, if_neg fun there => holds (same.mp there)]
    exact whenFalse holds

end Outcomes

section Places
variable {change : String → String} {tokens others : List Located}

namespace Redocumented

theorem startsWith (redocumented : Redocumented change tokens others) (mark : Mark) :
    startsWith mark others = startsWith mark tokens := by
  cases redocumented <;> rfl

theorem startsWithWord (redocumented : Redocumented change tokens others) (word : String) :
    startsWithWord word others = startsWithWord word tokens := by
  cases redocumented <;> rfl

theorem startsWithAnyWord (redocumented : Redocumented change tokens others) :
    startsWithAnyWord others = startsWithAnyWord tokens := by
  cases redocumented with
  | nil | template => rfl
  | @token token => cases token <;> rfl

theorem tail (redocumented : Redocumented change tokens others) :
    Redocumented change tokens.tail others.tail := by
  cases redocumented with
  | nil => exact .nil
  | token behind | template behind => exact behind

theorem skip (redocumented : Redocumented change tokens others) (mark : Mark) :
    Redocumented change (skip mark tokens) (skip mark others) := by
  unfold Declaration.skip
  rw [redocumented.startsWith]
  split
  · exact redocumented.tail
  · exact redocumented

theorem isEmpty (redocumented : Redocumented change tokens others) :
    others.isEmpty = tokens.isEmpty := by
  cases redocumented <;> rfl

theorem doc_head? (redocumented : Redocumented change tokens others) :
    others.head?.bind (·.doc) = (tokens.head?.bind (·.doc)).map change := by
  cases redocumented <;> rfl

end Redocumented

theorem expect_agrees (redocumented : Redocumented change tokens others) (mark : Mark)
    (expected : String) :
    Agree change id (expect mark expected tokens) (expect mark expected others) := by
  cases redocumented with
  | nil | template => exact .error _ _
  | token behind => exact .ite Iff.rfl (fun _ => .ok behind) fun _ => .error _ _

theorem expectWord_agrees (redocumented : Redocumented change tokens others) (expected : String) :
    Agree change id (expectWord expected tokens) (expectWord expected others) := by
  cases redocumented with
  | nil | template => exact .error _ _
  | @token token _ _ _ _ _ behind =>
      cases token with
      | word name => exact .ok behind
      | quoted | template | number | mark | symbol => exact .error _ _

theorem afterGroup?_redocumented (redocumented : Redocumented change tokens others)
    (opening closing : Mark) (depth : Nat) :
    Option.Rel (Redocumented change) (afterGroup? opening closing depth tokens)
      (afterGroup? opening closing depth others) := by
  induction redocumented generalizing depth with
  | nil => exact .none
  | token behind ih =>
      rw [afterGroup?, afterGroup?]
      split
      · exact ih _
      · split
        · split
          · exact .some behind
          · exact ih _
        · exact ih _
  | template behind ih => simpa [afterGroup?] using ih depth

theorem skipGroup_agrees (redocumented : Redocumented change tokens others) (opening closing : Mark) :
    Agree change id (skipGroup opening closing tokens) (skipGroup opening closing others) := by
  cases redocumented with
  | nil | template => exact .error _ _
  | token behind =>
      refine .ite Iff.rfl (fun _ => ?_) fun _ => .error _ _
      have related := afterGroup?_redocumented behind opening closing 1
      split <;> split <;> simp_all
      · exact .ok related
      · exact .error _ _

end Places

namespace Level

structure Agreeing (change : String → String) (inner : Level) : Prop where
  type : ∀ {tokens others}, Redocumented change tokens others →
    Agree change (TypeExpr.redocument change) (inner.type tokens) (inner.type others)
  body : ∀ {tokens others}, Redocumented change tokens others →
    Agree change (List.map (Property.redocument change)) (inner.body tokens) (inner.body others)

variable {change : String → String} {tokens others : List Located} {inner : Level}
  {size sizeOther : Nat}

section Names

theorem arrowAfterGroup_redocumented (redocumented : Redocumented change tokens others) (depth : Nat) :
    arrowAfterGroup depth others = arrowAfterGroup depth tokens := by
  induction redocumented generalizing depth with
  | nil => rfl
  | token behind ih => simp only [arrowAfterGroup, ih, behind.startsWith]
  | template behind ih => simpa [arrowAfterGroup] using ih depth

-- Behind a dot a name needs a word.
theorem dottedAfter_refused {name : String} {first : Located} {rest : List Located}
    {within : (first :: rest).length < size} (dot : first.token = .mark .dot)
    (noWord : startsWithAnyWord rest = false) :
    ∃ refusal, dottedAfter name size (first :: rest) within = .error refusal := by
  unfold dottedAfter
  rw [if_pos dot]
  split
  · contradiction
  · exact ⟨_, rfl⟩

theorem dottedAfter_agrees {name : String} {within : tokens.length < size}
    {withinOther : others.length < sizeOther} (redocumented : Redocumented change tokens others) :
    Agree change id (dottedAfter name size tokens within)
      (dottedAfter name sizeOther others withinOther) := by
  induction name, tokens, within using dottedAfter.induct generalizing others with
  | case1 name =>
      cases redocumented
      exact .ok .nil
  | case2 name first dot part position doc rest within ih =>
      cases redocumented with
      | token behind =>
          cases behind with
          | token behind =>
              rw [dottedAfter, if_pos dot, dottedAfter, if_pos dot]
              exact ih behind
      | template behind => cases dot
  | case3 name first dot rest within noWord =>
      have none : startsWithAnyWord rest = false := by
        rcases rest with _ | ⟨⟨token, position, doc⟩, rest⟩
        · rfl
        · cases token with
          | word part => exact (noWord part position doc rest within rfl HEq.rfl).elim
          | quoted | template | number | mark | symbol => rfl
      cases redocumented with
      | token behind =>
          obtain ⟨_, refused⟩ : ∃ refusal, dottedAfter name _ _ within = .error refusal :=
            dottedAfter_refused dot none
          obtain ⟨_, refusedOther⟩ : ∃ refusal, dottedAfter name _ _ withinOther = .error refusal :=
            dottedAfter_refused dot (behind.startsWithAnyWord.trans none)
          rw [refused, refusedOther]
          exact .error _ _
      | template behind => cases dot
  | case4 name first rest within other =>
      cases redocumented with
      | token behind =>
          unfold dottedAfter
          simp only [other, ↓reduceIte]
          exact .ok (.token behind)
      | template behind =>
          unfold dottedAfter
          exact .ok (.template behind)

end Names

section Primaries

theorem skipLabel_redocumented (redocumented : Redocumented change tokens others) :
    Redocumented change (skipLabel tokens) (skipLabel others) := by
  cases redocumented with
  | nil => exact .nil
  | template behind => exact .template behind
  | @token token _ _ _ _ _ behind =>
      cases token with
      | word name =>
          simp only [skipLabel, behind.startsWith, behind.tail.startsWith]
          split
          · exact behind.tail
          · split
            · exact behind.tail.tail
            · exact .token behind
      | quoted | template | number | mark | symbol => exact .token behind

theorem skipTypeParameters_agrees (redocumented : Redocumented change tokens others) :
    Agree change id (skipTypeParameters tokens) (skipTypeParameters others) := by
  refine .ite (by rw [redocumented.startsWith]) (fun _ => ?_) fun _ => .ok redocumented
  exact (skipGroup_agrees redocumented _ _).bind fun _ _ _ _ _ behind => .ok behind

theorem numeralType?_redocument {negative : Bool} {raw : List Char} {type : TypeExpr}
    (read : numeralType? negative raw = some type) : type.redocument change = type := by
  unfold numeralType? at read
  split at read
  · cases read; rfl
  · obtain ⟨literal, -, rfl⟩ := Option.map_eq_some_iff.mp read
    rfl

theorem numeral_agrees {negative : Bool} {raw : String} {position other : Nat}
    {within : tokens.length < size} {withinOther : others.length < sizeOther}
    (redocumented : Redocumented change tokens others) :
    Agree change (TypeExpr.redocument change)
      (numeral negative raw position >>= fun type => .ok ⟨type, tokens, within⟩)
      (numeral negative raw other >>= fun type => .ok ⟨type, others, withinOther⟩) := by
  unfold numeral
  cases read : numeralType? negative raw.toList with
  | some type => exact agree_ok (numeralType?_redocument read).symm redocumented
  | none => exact .error _ _

theorem dottedName_agrees (redocumented : Redocumented change tokens others) :
    Agree change id (dottedName tokens) (dottedName others) :=
  (expectWord_agrees redocumented _).bind fun _ _ _ _ _ behind => dottedAfter_agrees behind

variable (agreeing : inner.Agreeing change)
include agreeing

theorem argumentsAfter_agrees {seen : List TypeExpr} {within : tokens.length ≤ size}
    {withinOther : others.length ≤ sizeOther} (redocumented : Redocumented change tokens others) :
    Agree change (List.map (TypeExpr.redocument change)) (inner.argumentsAfter seen size tokens within)
      (inner.argumentsAfter (seen.map (TypeExpr.redocument change)) sizeOther others withinOther) := by
  induction seen, tokens, within using argumentsAfter.induct generalizing others with
  | case1 seen tokens within ih =>
      rw [argumentsAfter, argumentsAfter]
      refine (agreeing.type redocumented).bind fun argument rest others within _ behind => ?_
      refine .ite (by rw [behind.startsWith]) (fun _ => ?_) fun _ => ?_
      · exact ih ⟨argument, rest, within⟩ behind.tail
      · exact (expect_agrees behind _ _).bind fun _ _ _ _ _ behind => agree_ok (by simp) behind

theorem reference_agrees (redocumented : Redocumented change tokens others) :
    Agree change (TypeExpr.redocument change) (inner.reference tokens) (inner.reference others) := by
  refine (dottedName_agrees redocumented).bind fun name rest others _ _ behind => ?_
  refine .ite (by rw [behind.startsWith]) (fun _ => ?_) fun _ => .ok behind
  exact (argumentsAfter_agrees agreeing behind.tail).bind fun _ _ _ _ _ behind =>
    agree_ok (by simp [TypeExpr.redocument, Reading.widen]) behind

theorem itemsAfter_agrees {seen : List TypeExpr} {within : tokens.length ≤ size}
    {withinOther : others.length ≤ sizeOther} (redocumented : Redocumented change tokens others) :
    Agree change (List.map (TypeExpr.redocument change)) (inner.itemsAfter seen size tokens within)
      (inner.itemsAfter (seen.map (TypeExpr.redocument change)) sizeOther others withinOther) := by
  induction seen, tokens, within using itemsAfter.induct generalizing others with
  | case1 seen tokens within closed =>
      have closedOther := (redocumented.startsWith .closeBracket).trans closed
      rw [itemsAfter, dif_pos closed, itemsAfter, dif_pos closedOther]
      exact agree_ok List.map_reverse.symm redocumented.tail
  | case2 seen tokens within opened =>
      rename_i ih
      have openedOther : ¬startsWith .closeBracket others = true := by
        rwa [redocumented.startsWith]
      rw [itemsAfter, dif_neg opened, itemsAfter, dif_neg openedOther]
      refine (agreeing.type (skipLabel_redocumented (redocumented.skip .ellipsis))).bind
        fun item rest others within _ behind => ?_
      have after := behind.skip .question
      refine .ite (by rw [after.startsWith]) (fun _ => ?_) fun _ => ?_
      · exact ih ⟨item, rest, within⟩ after.tail
      · exact (expect_agrees after _ _).bind fun _ _ _ _ _ behind => agree_ok (by simp) behind

theorem tuple_agrees (redocumented : Redocumented change tokens others) :
    Agree change (TypeExpr.redocument change) (inner.tuple tokens) (inner.tuple others) := by
  refine (expect_agrees redocumented _ _).bind fun _ _ _ _ _ behind => ?_
  exact (itemsAfter_agrees agreeing behind).bind fun _ _ _ _ _ behind =>
    agree_ok (by simp [TypeExpr.redocument, Reading.widen]) behind

theorem function_agrees (redocumented : Redocumented change tokens others) :
    Agree change (TypeExpr.redocument change) (inner.function tokens) (inner.function others) := by
  refine (skipTypeParameters_agrees redocumented).bind fun _ _ _ _ _ behind => ?_
  refine (skipGroup_agrees behind _ _).bind fun _ _ _ _ _ behind => ?_
  refine (expect_agrees behind _ _).bind fun _ _ _ _ _ behind => ?_
  exact (agreeing.type behind).bind fun _ _ _ _ _ behind => .ok behind

theorem parenthesized_agrees (redocumented : Redocumented change tokens others) :
    Agree change (TypeExpr.redocument change) (inner.parenthesized tokens)
      (inner.parenthesized others) := by
  refine (expect_agrees redocumented _ _).bind fun _ _ _ _ _ behind => ?_
  refine (agreeing.type behind).bind fun _ _ _ _ _ behind => ?_
  exact (expect_agrees behind _ _).bind fun _ _ _ _ _ behind => .ok behind

theorem worded_agrees {word : String} {position other : Nat} {doc : Option String}
    (behind : Redocumented change tokens others) :
    Agree change (TypeExpr.redocument change) (inner.worded word ⟨.word word, position, doc⟩ tokens)
      (inner.worded word ⟨.word word, other, doc.map change⟩ others) := by
  unfold worded
  refine .ite Iff.rfl (fun _ => .ok behind) fun _ => ?_
  refine .ite Iff.rfl (fun _ => .ok behind) fun _ => ?_
  refine .ite Iff.rfl (fun _ => ?_) fun _ => ?_
  · exact (dottedName_agrees behind).bind fun _ _ _ _ _ behind => .ok behind
  refine .ite (by rw [behind.startsWithAnyWord]) (fun _ => .ok behind.tail) fun _ => ?_
  refine .ite Iff.rfl (fun _ => ?_) fun _ => ?_
  · exact (function_agrees agreeing behind).bind fun _ _ _ _ _ behind => .ok behind
  cases Keyword.ofWord? word with
  | some keyword => exact .ok behind
  | none => exact reference_agrees agreeing (.token behind)

theorem marked_agrees {mark : Mark} {position other : Nat} {doc : Option String}
    (behind : Redocumented change tokens others) :
    Agree change (TypeExpr.redocument change) (inner.marked mark ⟨.mark mark, position, doc⟩ tokens)
      (inner.marked mark ⟨.mark mark, other, doc.map change⟩ others) := by
  have redocumented : Redocumented change (⟨.mark mark, position, doc⟩ :: tokens)
      (⟨.mark mark, other, doc.map change⟩ :: others) := .token behind
  cases mark with
  | minus =>
      cases behind with
      | nil | template => exact .error _ _
      | @token token _ _ _ _ _ further =>
          cases token with
          | number raw => exact numeral_agrees further
          | word | quoted | template | mark | symbol => exact .error _ _
  | openBrace =>
      exact (agreeing.body redocumented).bind fun _ _ _ _ _ behind =>
        agree_ok (by simp [TypeExpr.redocument]) behind
  | openBracket => exact tuple_agrees agreeing redocumented
  | openParen =>
      refine .ite (by rw [arrowAfterGroup_redocumented behind]) (fun _ => ?_) fun _ => ?_
      · exact function_agrees agreeing redocumented
      · exact parenthesized_agrees agreeing redocumented
  | openAngle => exact function_agrees agreeing redocumented
  | _ => exact .error _ _

theorem primary_agrees (redocumented : Redocumented change tokens others) :
    Agree change (TypeExpr.redocument change) (inner.primary tokens) (inner.primary others) := by
  cases redocumented with
  | nil => exact .error _ _
  | template behind => exact .ok behind
  | @token token _ _ _ _ _ behind =>
      cases token with
      | word word => exact worded_agrees agreeing behind
      | quoted | template => exact .ok behind
      | number raw => exact numeral_agrees behind
      | mark mark => exact marked_agrees agreeing behind
      | symbol c => exact .error _ _

end Primaries

section Types

theorem skipOperators_redocumented (redocumented : Redocumented change tokens others) (hidden : Bool) :
    (skipOperators hidden others).1 = (skipOperators hidden tokens).1 ∧
      Redocumented change (skipOperators hidden tokens).2 (skipOperators hidden others).2 := by
  induction redocumented generalizing hidden with
  | nil => exact ⟨rfl, .nil⟩
  | template behind => exact ⟨rfl, .template behind⟩
  | token behind ih =>
      rw [skipOperators, skipOperators]
      split
      · exact ih true
      · split
        · exact ih hidden
        · exact ⟨rfl, .token behind⟩

theorem suffixes_agrees {type : TypeExpr} {within : tokens.length < size}
    {withinOther : others.length < sizeOther} (redocumented : Redocumented change tokens others) :
    Agree change (TypeExpr.redocument change) (suffixes type size tokens within)
      (suffixes (type.redocument change) sizeOther others withinOther) := by
  induction type, tokens, within using suffixes.induct generalizing others with
  | case1 type tokens within opened closed ih =>
      have openedOther := (redocumented.startsWith .openBracket).trans opened
      have closedOther := (redocumented.tail.startsWith .closeBracket).trans closed
      unfold suffixes
      simp only [opened, closed, openedOther, closedOther, ↓reduceIte]
      exact ih redocumented.tail.tail
  | case2 type tokens within opened further ih =>
      have openedOther := (redocumented.startsWith .openBracket).trans opened
      have furtherOther : ¬startsWith .closeBracket others.tail = true := by
        rwa [redocumented.tail.startsWith]
      unfold suffixes
      simp only [opened, further, openedOther, furtherOther, ↓reduceIte]
      exact (skipGroup_agrees redocumented _ _).bind fun _ rest _ within _ behind =>
        ih ⟨(), rest, within⟩ behind
  | case3 type tokens within plain =>
      have plainOther : ¬startsWith .openBracket others = true := by rwa [redocumented.startsWith]
      rw [suffixes, if_neg plain, suffixes, if_neg plainOther]
      exact .ok redocumented

variable (agreeing : inner.Agreeing change)
include agreeing

theorem suffixed_agrees (redocumented : Redocumented change tokens others) :
    Agree change (TypeExpr.redocument change) (inner.suffixed tokens) (inner.suffixed others) := by
  obtain ⟨same, start⟩ := skipOperators_redocumented redocumented false
  unfold suffixed
  simp only [same]
  refine (primary_agrees agreeing start).bind fun _ _ _ _ _ behind => ?_
  refine (suffixes_agrees behind).bind fun _ _ _ _ _ behind => agree_ok ?_ behind
  split <;> rfl

theorem intersectionAfter_agrees {within : tokens.length < size}
    {withinOther : others.length < sizeOther} (redocumented : Redocumented change tokens others) :
    Agree change (TypeExpr.redocument change) (inner.intersectionAfter size tokens within)
      (inner.intersectionAfter sizeOther others withinOther) := by
  induction tokens, within using intersectionAfter.induct generalizing others with
  | case1 tokens within further ih =>
      rw [intersectionAfter, intersectionAfter]
      rw [redocumented.startsWith, if_pos further, if_pos further]
      exact (suffixed_agrees agreeing redocumented.tail).bind fun type rest _ within _ behind =>
        ih ⟨type, rest, within⟩ behind
  | case2 tokens within last =>
      rw [intersectionAfter, intersectionAfter]
      rw [redocumented.startsWith, if_neg last, if_neg last]
      exact .ok redocumented

theorem intersection_agrees (redocumented : Redocumented change tokens others) :
    Agree change (TypeExpr.redocument change) (inner.intersection tokens)
      (inner.intersection others) := by
  refine (suffixed_agrees agreeing (redocumented.skip .ampersand)).bind fun _ _ _ _ _ behind => ?_
  refine .ite (by rw [behind.startsWith]) (fun _ => ?_) fun _ => .ok behind
  exact intersectionAfter_agrees agreeing behind

theorem unionAfter_agrees {seen : List TypeExpr} {within : tokens.length < size}
    {withinOther : others.length < sizeOther} (redocumented : Redocumented change tokens others) :
    Agree change (List.map (TypeExpr.redocument change)) (inner.unionAfter seen size tokens within)
      (inner.unionAfter (seen.map (TypeExpr.redocument change)) sizeOther others withinOther) := by
  induction seen, tokens, within using unionAfter.induct generalizing others with
  | case1 seen tokens within further ih =>
      rw [unionAfter, unionAfter]
      rw [redocumented.startsWith, if_pos further, if_pos further]
      exact (intersection_agrees agreeing redocumented.tail).bind fun type rest _ within _ behind =>
        ih ⟨type, rest, within⟩ behind
  | case2 seen tokens within last =>
      rw [unionAfter, unionAfter]
      rw [redocumented.startsWith, if_neg last, if_neg last]
      exact agree_ok List.map_reverse.symm redocumented

theorem union_agrees (redocumented : Redocumented change tokens others) :
    Agree change (TypeExpr.redocument change) (inner.union tokens) (inner.union others) := by
  refine (intersection_agrees agreeing (redocumented.skip .pipe)).bind fun _ _ _ _ _ behind => ?_
  exact (unionAfter_agrees agreeing behind).bind fun members _ _ _ _ behind =>
    agree_ok (unionOf_redocument change members) behind

theorem conditional_agrees (redocumented : Redocumented change tokens others) :
    Agree change (TypeExpr.redocument change) (inner.conditional tokens) (inner.conditional others) := by
  refine (union_agrees agreeing redocumented).bind fun _ _ _ _ _ behind => ?_
  refine .ite (by rw [behind.startsWithWord]) (fun _ => ?_) fun _ => .ok behind
  refine (union_agrees agreeing behind.tail).bind fun _ _ _ _ _ behind => ?_
  refine (expect_agrees behind _ _).bind fun _ _ _ _ _ behind => ?_
  refine (agreeing.type behind).bind fun _ _ _ _ _ behind => ?_
  refine (expect_agrees behind _ _).bind fun _ _ _ _ _ behind => ?_
  exact (agreeing.type behind).bind fun _ _ _ _ _ behind => .ok behind

end Types

section Members

theorem startsMember_redocumented (redocumented : Redocumented change tokens others) :
    startsMember others = startsMember tokens := by
  cases redocumented with
  | nil | template => rfl
  | @token token => cases token <;> rfl

theorem skipReadonly_redocumented (redocumented : Redocumented change tokens others) :
    Redocumented change (skipReadonly tokens) (skipReadonly others) := by
  induction redocumented with
  | nil => exact .nil
  | template behind => exact .template behind
  | token behind ih =>
      rw [skipReadonly, skipReadonly, startsMember_redocumented behind]
      split
      · exact ih
      · exact .token behind

theorem skipSeparators_redocumented (redocumented : Redocumented change tokens others) :
    Redocumented change (skipSeparators tokens) (skipSeparators others) := by
  unfold skipSeparators
  induction redocumented with
  | nil => exact .nil
  | template behind => exact .template behind
  | token behind ih =>
      rw [List.dropWhile_cons, List.dropWhile_cons]
      split
      · exact ih
      · exact .token behind

theorem startsSignature_redocumented (redocumented : Redocumented change tokens others) :
    startsSignature others = startsSignature tokens := by
  simp only [startsSignature, redocumented.startsWith]

theorem endsMember_redocumented (redocumented : Redocumented change tokens others) :
    endsMember others = endsMember tokens := by
  simp only [endsMember, redocumented.startsWith]

-- Members that are not closed are refused.
theorem membersAfter_ended (inner : Level) (ended : skipSeparators tokens = []) (seen : List Member)
    (within : tokens.length ≤ size) : inner.membersAfter seen size tokens within =
      refuse "`\x7d` closing the object type" [] := by
  rw [membersAfter]
  split
  · rfl
  · next same => simp [ended] at same

variable (agreeing : inner.Agreeing change)
include agreeing

theorem skipAnnotation_agrees (redocumented : Redocumented change tokens others) :
    Agree change id (inner.skipAnnotation tokens) (inner.skipAnnotation others) := by
  refine .ite (by rw [redocumented.startsWith]) (fun _ => ?_) fun _ => .ok redocumented
  exact (agreeing.type redocumented.tail).bind fun _ _ _ _ _ behind => .ok behind

theorem skipSignature_agrees (redocumented : Redocumented change tokens others) :
    Agree change id (inner.skipSignature tokens) (inner.skipSignature others) := by
  refine (skipTypeParameters_agrees redocumented).bind fun _ _ _ _ _ behind => ?_
  refine (skipGroup_agrees behind _ _).bind fun _ _ _ _ _ behind => ?_
  exact (skipAnnotation_agrees agreeing behind).bind fun _ _ _ _ _ behind => .ok behind

theorem skipIndexSignature_agrees (redocumented : Redocumented change tokens others) :
    Agree change id (inner.skipIndexSignature tokens) (inner.skipIndexSignature others) := by
  refine (skipGroup_agrees redocumented _ _).bind fun _ _ _ _ _ behind => ?_
  exact (skipAnnotation_agrees agreeing (behind.skip .question)).bind
    fun _ _ _ _ _ behind => .ok behind

theorem memberAfter_agrees {doc : Option String} {name : String}
    (redocumented : Redocumented change tokens others) :
    Agree change (Option.map (Property.redocument change)) (inner.memberAfter doc name tokens)
      (inner.memberAfter (doc.map change) name others) := by
  have start := redocumented.skip .question
  unfold memberAfter
  simp only [redocumented.startsWith, start.startsWith, startsSignature_redocumented start,
    endsMember_redocumented start]
  refine .ite Iff.rfl (fun _ => ?_) fun _ => ?_
  · exact (agreeing.type start.tail).bind fun _ _ _ _ _ behind => .ok behind
  refine .ite Iff.rfl (fun _ => ?_) fun _ => ?_
  · exact (skipSignature_agrees agreeing start).bind fun _ _ _ _ _ behind => .ok behind
  · exact .ite Iff.rfl (fun _ => .ok start) fun _ => .error _ _

theorem namedMember_agrees {doc : Option String} (redocumented : Redocumented change tokens others) :
    Agree change (Option.map (Property.redocument change)) (inner.namedMember doc tokens)
      (inner.namedMember (doc.map change) others) := by
  cases redocumented with
  | nil | template => exact .error _ _
  | @token token position other doc rest others behind =>
      have redocumented : Redocumented change (⟨token, position, doc⟩ :: rest)
        (⟨token, other, doc.map change⟩ :: others) := .token behind
      cases token with
      | word name =>
          refine .ite (by rw [startsSignature_redocumented behind]) (fun _ => ?_) fun _ => ?_
          · exact (skipSignature_agrees agreeing behind).bind fun _ _ _ _ _ behind => .ok behind
          · exact memberAfter_agrees agreeing behind
      | number | quoted => exact memberAfter_agrees agreeing behind
      | mark mark =>
          cases mark with
          | openBracket =>
              exact (skipIndexSignature_agrees agreeing redocumented).bind
                fun _ _ _ _ _ behind => .ok behind
          | openParen | openAngle =>
              exact (skipSignature_agrees agreeing redocumented).bind
                fun _ _ _ _ _ behind => .ok behind
          | _ => exact .error _ _
      | template | symbol => exact .error _ _

theorem member_agrees (redocumented : Redocumented change tokens others) :
    Agree change (Option.map (Property.redocument change)) (inner.member tokens)
      (inner.member others) := by
  unfold member
  rw [redocumented.doc_head?]
  exact (namedMember_agrees agreeing (skipReadonly_redocumented redocumented)).bind
    fun _ _ _ _ _ behind => .ok behind

theorem membersAfter_agrees {seen : List Member} {within : tokens.length ≤ size}
    {withinOther : others.length ≤ sizeOther} (redocumented : Redocumented change tokens others) :
    Agree change (List.map (Property.redocument change)) (inner.membersAfter seen size tokens within)
      (inner.membersAfter (seen.map (Property.redocument change)) sizeOther others withinOther) := by
  induction seen, tokens, within using membersAfter.induct generalizing others with
  | case1 seen tokens within _ start =>
      have after := skipSeparators_redocumented redocumented
      rw [start] at after
      generalize startOther : skipSeparators others = startOthers at after
      cases after
      have refused := membersAfter_ended inner start seen within
      have refusedOther :=
        membersAfter_ended inner startOther (seen.map (Property.redocument change)) withinOther
      rw [refused, refusedOther]
      exact .error _ _
  | case2 seen tokens within _ first rest start closed =>
      have after := skipSeparators_redocumented redocumented
      generalize startOther : skipSeparators others = startOthers at after
      rw [start] at after
      obtain ⟨_, _, same⟩ := membersAfter_of_start inner start seen within
      cases after with
      | token behind =>
          obtain ⟨_, _, sameOther⟩ := membersAfter_of_start inner startOther
            (seen.map (Property.redocument change)) withinOther
          rw [same, if_pos closed, sameOther, if_pos closed]
          exact agree_ok (by simp) behind
      | template behind => cases closed
  | case3 seen tokens within _ first rest start opened ih =>
      have after := skipSeparators_redocumented redocumented
      generalize startOther : skipSeparators others = startOthers at after
      rw [start] at after
      have whole := after
      obtain ⟨_, _, same⟩ := membersAfter_of_start inner start seen within
      rw [same, if_neg opened]
      cases after with
      | token behind | template behind =>
          obtain ⟨_, _, sameOther⟩ := membersAfter_of_start inner startOther
            (seen.map (Property.redocument change)) withinOther
          rw [sameOther]
          first | rw [if_neg opened] | rw [if_neg Token.noConfusion]
          refine (member_agrees agreeing whole).bind fun next rest others within _ behind => ?_
          cases next with
          | none => exact ih ⟨none, rest, within⟩ behind
          | some member => exact ih ⟨some member, rest, within⟩ behind

theorem objectBody_agrees (redocumented : Redocumented change tokens others) :
    Agree change (List.map (Property.redocument change)) (inner.objectBody tokens)
      (inner.objectBody others) := by
  refine (expect_agrees redocumented _ _).bind fun _ _ _ _ _ behind => ?_
  exact (membersAfter_agrees agreeing behind).bind fun _ _ _ _ _ behind => .ok behind

end Members

theorem ofNesting_agreeing (units : Nat) : (ofNesting units).Agreeing change := by
  induction units with
  | zero => exact ⟨fun _ => .error _ _, fun _ => .error _ _⟩
  | succ units ih => exact ⟨conditional_agrees ih, objectBody_agrees ih⟩

end Level

section Interfaces
variable {change : String → String} {tokens others : List Located}

theorem bodyOnward_redocumented (redocumented : Redocumented change tokens others) (angles : Nat) :
    Redocumented change (bodyOnward angles tokens) (bodyOnward angles others) := by
  induction redocumented generalizing angles with
  | nil => exact .nil
  | template behind ih => simpa [bodyOnward] using ih angles
  | token behind ih =>
      rw [bodyOnward, bodyOnward]
      split
      · exact .token behind
      · split
        · exact ih _
        · split
          · exact ih _
          · exact ih _

theorem readInterface_agrees (redocumented : Redocumented change tokens others) :
    Agree change (Interface.redocument change) (readInterface tokens) (readInterface others) := by
  refine (expectWord_agrees redocumented _).bind fun _ _ _ _ _ behind => ?_
  have start := bodyOnward_redocumented behind 0
  refine .ite (by rw [start.isEmpty]) (fun _ => .error _ _) fun _ => ?_
  exact ((Level.ofNesting_agreeing maximumNesting).body start).bind
    fun _ _ _ _ _ behind => .ok behind

-- The interfaces of the tokens are read, with other documentation, or none is.
theorem toOption_interfacesAfter (redocumented : Redocumented change tokens others)
    (seen : List Interface) (depth : Nat) :
    (interfacesAfter (seen.map (Interface.redocument change)) depth others).toOption =
      (interfacesAfter seen depth tokens).toOption.map (List.map (Interface.redocument change)) := by
  induction seen, depth, tokens using interfacesAfter.induct generalizing others with
  | case1 seen depth =>
      cases redocumented
      rw [interfacesAfter, interfacesAfter, ← List.map_reverse]
      rfl
  | case2 seen depth first rest opens ih =>
      cases redocumented with
      | token behind =>
          rw [interfacesAfter, if_pos opens, interfacesAfter, if_pos opens]
          exact ih behind
      | template behind => cases opens
  | case3 seen depth first rest opens closes ih =>
      cases redocumented with
      | token behind =>
          rw [interfacesAfter, if_neg opens, if_pos closes, interfacesAfter, if_neg opens,
            if_pos closes]
          exact ih behind
      | template behind => cases closes
  | case4 seen depth first rest opens closes keyword ih =>
      cases redocumented with
      | token behind =>
          conv_lhs => rw [interfacesAfter, if_neg opens, if_neg closes, behind.startsWithAnyWord,
            if_pos keyword]
          conv_rhs => rw [interfacesAfter, if_neg opens, if_neg closes, if_pos keyword]
          have agree := readInterface_agrees behind
          generalize read : readInterface rest = outcome at agree
          generalize readInterface _ = other at agree
          cases agree with
          | error => rfl
          | @ok declared rest others within _ behind => exact ih ⟨declared, rest, within⟩ behind
      | template behind => simp at keyword
  | case5 seen depth first rest opens closes passed ih =>
      cases redocumented with
      | token behind =>
          conv_lhs => rw [interfacesAfter, if_neg opens, if_neg closes, behind.startsWithAnyWord,
            if_neg passed]
          conv_rhs => rw [interfacesAfter, if_neg opens, if_neg closes, if_neg passed]
          exact ih behind
      | template behind =>
          have ih := ih behind
          simpa [interfacesAfter, opensGroup, closesGroup] using ih

end Interfaces

end Toggles.Declaration
