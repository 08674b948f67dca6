import Toggles.Proofs.Interspersed

/-! Signatures are read as members that are dropped.

Index, call and construct signatures and methods are told apart by their first tokens, and are
passed over by their brackets and the types behind them. When their brackets are closed they are
read alike in front of anything, and they may be inserted where a member can begin.
-/

set_option autoImplicit false

namespace Toggles.Declaration

inductive IsGroup (opening closing : Mark) : List Located → Prop where
  | group {first last : Located} {inside : List Located} (opens : first.token = .mark opening)
      (closes : last.token = .mark closing) (even : evensOut opening closing 0 inside = true) :
      IsGroup opening closing (first :: (inside ++ [last]))

/-- What may stand behind the brackets of a signature: nothing, or a colon and a type that is read
up to the semicolon with so many units of nesting. -/
inductive IsResult (units : Nat) (semicolon : Located) : List Located → Prop where
  | none : IsResult units semicolon []
  | typed {colon : Located} {tokens : List Located} {type : TypeExpr}
      (isColon : colon.token = .mark .colon)
      (read : Reads ((Level.ofNesting units).type (tokens ++ [semicolon])) type [semicolon]) :
      IsResult units semicolon (colon :: tokens)

/-- Parameters and their result, and perhaps type parameters before them. -/
inductive IsCall (units : Nat) (semicolon : Located) : List Located → Prop where
  | call {types parameters result : List Located}
      (isTypes : types = [] ∨ IsGroup .openAngle .closeAngle types)
      (isGroup : IsGroup .openParen .closeParen parameters)
      (isResult : IsResult units semicolon result) :
      IsCall units semicolon (types ++ (parameters ++ result))

def Token.isName : Token → Bool
  | .word _ | .quoted _ | .number _ => true
  | _ => false

/-- A member that is not a property, up to its semicolon. -/
inductive IsSignature (units : Nat) (semicolon : Located) : List Located → Prop where
  | index {index result : List Located} (isIndex : IsGroup .openBracket .closeBracket index)
      (isResult : IsResult units semicolon result) : IsSignature units semicolon (index ++ result)
  | readonlyIndex {readonly : Located} {index result : List Located}
      (isReadonly : readonly.token = .word "readonly")
      (isIndex : IsGroup .openBracket .closeBracket index)
      (isResult : IsResult units semicolon result) :
      IsSignature units semicolon (readonly :: (index ++ result))
  | call {call : List Located} (isCall : IsCall units semicolon call) :
      IsSignature units semicolon call
  | construct {new : Located} {call : List Located} (isNew : new.token = .word "new")
      (isCall : IsCall units semicolon call) : IsSignature units semicolon (new :: call)
  | method {name : Located} {call : List Located} (isName : name.token.isName = true)
      (isCall : IsCall units semicolon call) : IsSignature units semicolon (name :: call)
  | optionalMethod {name question : Located} {call : List Located} (isName : name.token.isName = true)
      (isQuestion : question.token = .mark .question) (isCall : IsCall units semicolon call) :
      IsSignature units semicolon (name :: question :: call)

structure IsDropped (units : Nat) (item : List Located) : Prop where
  even : Even item
  signature : ∃ tokens semicolon, item = tokens ++ [semicolon] ∧
    semicolon.token = .mark .semicolon ∧ IsSignature units semicolon tokens

section Parentheses
variable {opening closing : Mark} {depth : Nat} {tokens others following : List Located}

theorem evensOut_tail {first : Located} {rest : List Located}
    (even : evensOut opening closing depth (first :: rest) = true) :
    ∃ depth, evensOut opening closing depth rest = true := by
  rw [evensOut] at even
  split at even
  · exact ⟨_, even⟩
  split at even
  · exact ⟨_, (Bool.and_eq_true_iff.mp even).2⟩
  · exact ⟨_, even⟩

/-- The parentheses that are open before these tokens are closed in them, and a semicolon ends
them. -/
def Ended (tokens : List Located) : Prop :=
  ∃ front semicolon depth, tokens = front ++ [semicolon] ∧ semicolon.token = .mark .semicolon ∧
    evensOut .openParen .closeParen depth tokens = true

theorem Ended.tail {first : Located} (ended : Ended (first :: tokens)) (filled : tokens ≠ []) :
    Ended tokens := by
  obtain ⟨front, semicolon, depth, same, isSemicolon, even⟩ := ended
  obtain ⟨depth, even⟩ := evensOut_tail even
  cases front with
  | nil => exact absurd (List.cons.inj same).2 filled
  | cons second front => exact ⟨front, semicolon, depth, (List.cons.inj same).2, isSemicolon, even⟩

theorem Ended.of_suffix (ended : Ended tokens) (suffix : others <:+ tokens) (filled : others ≠ []) :
    Ended others := by
  obtain ⟨front, rfl⟩ := suffix
  induction front with
  | nil => exact ended
  | cons first front ih => exact ih (ended.tail (by simp [filled]))

theorem Ended.continued (ended : tokens = [] ∨ Ended tokens) :
    Continued Ended following tokens (tokens ++ following) := by
  induction tokens with
  | nil => exact .stop
  | cons first rest ih =>
      have here := ended.resolve_left (List.cons_ne_nil _ _)
      refine .token here (ih ?_)
      by_cases filled : rest = []
      · exact .inl filled
      · exact .inr (here.tail filled)

-- An open group of parentheses ends in front of a semicolon.
theorem afterGroup?_ended {front : List Located} {semicolon : Located} {outer : Nat}
    (isSemicolon : semicolon.token = .mark .semicolon) (opened : 0 < depth)
    (even : evensOut .openParen .closeParen (outer + depth) (front ++ [semicolon]) = true) :
    ∃ rest, afterGroup? .openParen .closeParen depth (front ++ [semicolon]) = some rest ∧ rest ≠ [] := by
  induction front generalizing depth with
  | nil =>
      simp [evensOut, isSemicolon] at even
      omega
  | cons first front ih =>
      rw [List.cons_append, evensOut] at even
      rw [List.cons_append, afterGroup?]
      split at even
      · next opens =>
          rw [if_pos opens]
          exact ih (Nat.succ_pos depth) even
      next plain =>
      rw [if_neg plain]
      split at even
      · next closes =>
          rw [if_pos closes]
          split
          · exact ⟨_, rfl, by simp⟩
          · next deeper =>
              refine ih (by omega) ?_
              rw [← Nat.add_sub_assoc (by omega)]
              exact (Bool.and_eq_true_iff.mp even).2
      · next other =>
          rw [if_neg other]
          exact ih opened even

theorem settled_ended (following : List Located) : Level.Settled Ended following := by
  intro position doc rest others ended continued
  obtain ⟨front, semicolon, depth, same, isSemicolon, even⟩ := ended
  cases front with
  | nil =>
      cases same
      cases isSemicolon
  | cons first front =>
      cases same
      rw [evensOut, if_pos rfl] at even
      obtain ⟨rest, found, filled⟩ := afterGroup?_ended isSemicolon Nat.one_pos even
      obtain ⟨restOther, foundOther, behind⟩ := afterGroup?_continued continued found
      have here := arrowAfterGroup_eq 1 (front ++ [semicolon])
      rw [found] at here
      rw [arrowAfterGroup_eq, foundOther]
      exact (behind.startsWith filled .arrow).trans here.symm

theorem Continued.length_eq {along : List Located → Prop}
    (continued : Continued along following tokens others) :
    others.length = tokens.length + following.length := by
  induction continued with
  | stop => simp
  | token here behind ih => simp [ih]; omega

end Parentheses

def Insertion.none : Insertion where
  item _ := False
  place _ := False
  even := False.elim

section Unchanged
variable {tokens others : List Located} {opens : Bool}

theorem interspersed_refl {insertion : Insertion} (tokens : List Located) :
    Interspersed insertion opens tokens tokens := by
  induction tokens generalizing opens with
  | nil => exact .nil
  | cons first rest ih => exact .token ih

theorem Interspersed.length_eq (interspersed : Interspersed .none opens tokens others) :
    others.length = tokens.length := by
  induction interspersed with
  | nil => rfl
  | token behind ih => exact congrArg Nat.succ ih
  | item place => exact place.elim

theorem eq_of_suffix {rest after : List Located} (first : rest <:+ tokens) (second : after <:+ tokens)
    (same : rest.length = after.length) : rest = after :=
  (List.suffix_of_suffix_length_le first second (Nat.le_of_eq same)).eq_of_length same

theorem Confined.suffix {α : Type} {size : Nat} {outcome : Outcome α size} {value : α}
    {rest : List Located} (confined : Confined tokens outcome) (read : Reads outcome value rest) :
    rest <:+ tokens := by
  obtain ⟨within, rfl⟩ := read
  cases confined with
  | ok behind => exact behind

-- Without items the same tokens are left, since they are the last ones.
theorem Survives.passes {α : Type} {size : Nat} {deep : Prop} {outcome other : Outcome α size}
    {value : α} {rest : List Located} (survives : Survives .none deep outcome other)
    (confined : Confined tokens outcome) (confinedOther : Confined tokens other)
    (read : Reads outcome value rest) : Passes deep other value rest := by
  have suffix := confined.suffix read
  obtain ⟨within, rfl⟩ := read
  cases survives with
  | ok behind =>
      have suffixOther := confinedOther.suffix (reads_ok _)
      cases eq_of_suffix suffixOther suffix behind.length_eq
      exact .inl (reads_ok _)
  | tooDeep allowed => exact .inr ⟨allowed, _, rfl⟩

end Unchanged

section Groups
variable {opening closing : Mark} {units : Nat} {semicolon : Located}
  {group following tokens others call result : List Located}

theorem reads_group (apart : closing ≠ opening) (isGroup : IsGroup opening closing group) :
    Reads (skipGroup opening closing (group ++ following)) () following := by
  obtain ⟨opens, closes, even⟩ := isGroup
  rename_i first last inside
  have other : last.token ≠ .mark opening := by
    rw [closes]
    exact fun same => apart (Token.mark.inj same)
  have found : afterGroup? opening closing (0 + 1) (inside ++ last :: following) = some following := by
    rw [afterGroup?_passes even Nat.one_pos, afterGroup?, if_neg other, if_pos closes,
      if_pos (Nat.le_refl 1)]
  have same : first :: (inside ++ [last]) ++ following = first :: (inside ++ last :: following) := by
    simp
  rw [same]
  exact reads_skipGroup opens found

theorem startsWith_group (isGroup : IsGroup opening closing group) (mark : Mark) :
    startsWith mark (group ++ following) = decide (opening = mark) := by
  obtain ⟨opens, closes, even⟩ := isGroup
  simp [startsWith, opens]

theorem IsCall.startsSignature (isCall : IsCall units semicolon call) :
    Level.startsSignature (call ++ others) = true := by
  obtain ⟨isTypes, isGroup, isResult⟩ := isCall
  rw [List.append_assoc, List.append_assoc]
  rcases isTypes with rfl | isTypes
  · simp [Level.startsSignature, startsWith_group isGroup]
  · simp [Level.startsSignature, startsWith_group isTypes]

theorem exists_of_startsWith {mark : Mark} (starts : startsWith mark tokens = true) :
    ∃ position doc rest, tokens = ⟨.mark mark, position, doc⟩ :: rest := by
  rcases tokens with _ | ⟨⟨token, position, doc⟩, rest⟩
  · contradiction
  · cases of_decide_eq_true starts
    exact ⟨position, doc, rest, rfl⟩

-- What begins with a parenthesis or an angle begins no name and has no mark before a type.
theorem exists_mark_of_startsSignature (starts : Level.startsSignature tokens = true) :
    ∃ first rest, tokens = first :: rest ∧
      (first.token = .mark .openParen ∨ first.token = .mark .openAngle) := by
  rcases Bool.or_eq_true_iff.mp starts with starts | starts
  · obtain ⟨position, doc, rest, rfl⟩ := exists_of_startsWith starts
    exact ⟨_, rest, rfl, .inl rfl⟩
  · obtain ⟨position, doc, rest, rfl⟩ := exists_of_startsWith starts
    exact ⟨_, rest, rfl, .inr rfl⟩

theorem apart_of_startsSignature {mark : Mark} (starts : Level.startsSignature tokens = true)
    (other : mark ≠ .openParen ∧ mark ≠ .openAngle) : startsWith mark tokens = false := by
  obtain ⟨first, rest, rfl, token | token⟩ := exists_mark_of_startsSignature starts
  · simp [startsWith, token, other.1.symm]
  · simp [startsWith, token, other.2.symm]

theorem startsMember_of_startsSignature (starts : Level.startsSignature tokens = true) :
    Level.startsMember tokens = false := by
  obtain ⟨⟨token, position, doc⟩, rest, rfl, rfl | rfl⟩ := exists_mark_of_startsSignature starts
  · rfl
  · rfl

theorem IsResult.question (isResult : IsResult units semicolon result)
    (isSemicolon : semicolon.token = .mark .semicolon) :
    startsWith .question (result ++ semicolon :: others) = false := by
  cases isResult with
  | none => simp [startsWith, isSemicolon]
  | typed isColon => simp [startsWith, isColon]

end Groups

namespace Level

variable {deep : Prop} {units unitsOther : Nat} {semicolon : Located} {tokens others : List Located}

-- A level reads what another one reads that has no more units.
theorem ofNesting_more (fits : deep ∨ units ≤ unitsOther) :
    Carrying .none deep (ofNesting units) (ofNesting unitsOther) := by
  have fits : deep ∨ units + 0 ≤ unitsOther := fits
  exact ofNesting_carrying fits fun _ _ _ none => none.elim

-- A type that is read up to a semicolon is read in front of anything, by other levels as well.
theorem type_passes {type : TypeExpr} (fits : deep ∨ units ≤ unitsOther)
    (ended : Ended (tokens ++ [semicolon]))
    (read : Reads ((ofNesting units).type (tokens ++ [semicolon])) type [semicolon]) :
    Passes deep ((ofNesting unitsOther).type (tokens ++ semicolon :: others)) type
      (semicolon :: others) := by
  obtain ⟨within, read⟩ := read
  have continued : Continued Ended others (tokens ++ [semicolon]) (tokens ++ semicolon :: others) := by
    simpa using Ended.continued (.inr ended)
  obtain ⟨rest, again, behind⟩ :=
    (ofNesting_resuming (settled_ended others) units).type continued _ read (List.cons_ne_nil _ _)
  have confined := (ofNesting_confining units).type (tokens ++ semicolon :: others)
  have length : rest.length = (semicolon :: others).length := by
    rw [behind.length_eq, List.length_singleton, List.length_cons, Nat.add_comm]
  obtain rfl := eq_of_suffix (confined.suffix again) (List.suffix_append tokens _) length
  have carried := (ofNesting_more fits).type (interspersed_refl (tokens ++ semicolon :: others))
  exact carried.passes confined ((ofNesting_confining unitsOther).type _) again

-- A body that is read is read by levels with more units.
theorem body_more {members : List Member} (fits : units ≤ unitsOther)
    (read : Reads ((ofNesting units).body tokens) members others) :
    Reads ((ofNesting unitsOther).body tokens) members others := by
  have carried : Survives .none False _ _ := (ofNesting_more (.inr fits)).body (interspersed_refl tokens)
  have passes := carried.passes ((ofNesting_confining units).body tokens)
    ((ofNesting_confining unitsOther).body tokens) read
  exact passes.resolve_right nofun

section Signatures
variable {inner : Level} {result call signature : List Located}

theorem skipAnnotation_passes (fits : deep ∨ units ≤ unitsOther)
    (isSemicolon : semicolon.token = .mark .semicolon) (isResult : IsResult units semicolon result)
    (ended : Ended (result ++ [semicolon])) :
    Passes deep (Level.skipAnnotation (ofNesting unitsOther) (result ++ semicolon :: others)) ()
      (semicolon :: others) := by
  cases isResult with
  | none =>
      unfold skipAnnotation
      rw [if_neg (by simp [startsWith, isSemicolon])]
      exact .inl (reads_ok _)
  | @typed colon tokens type isColon read =>
      unfold skipAnnotation
      rw [if_pos (by simp [startsWith, isColon])]
      exact (type_passes fits (ended.tail (by simp)) read).bind fun _ => reads_ok _

theorem reads_typeParameters {types following : List Located}
    (isTypes : types = [] ∨ IsGroup .openAngle .closeAngle types)
    (apart : startsWith .openAngle following = false) :
    Reads (skipTypeParameters (types ++ following)) () following := by
  rcases isTypes with rfl | isGroup
  · rw [List.nil_append, skipTypeParameters, if_neg (by simp [apart])]
    exact reads_ok _
  · rw [skipTypeParameters, if_pos (by simp [startsWith_group isGroup])]
    exact (reads_group (by decide) isGroup).bind fun _ => reads_ok _

theorem skipSignature_passes (fits : deep ∨ units ≤ unitsOther)
    (isSemicolon : semicolon.token = .mark .semicolon) (isCall : IsCall units semicolon call)
    (ended : Ended (call ++ [semicolon])) :
    Passes deep ((ofNesting unitsOther).skipSignature (call ++ semicolon :: others)) ()
      (semicolon :: others) := by
  obtain ⟨isTypes, isGroup, isResult⟩ := isCall
  rename_i types parameters result
  have ended : Ended (result ++ [semicolon]) :=
    ended.of_suffix ⟨types ++ parameters, by simp⟩ (by simp)
  have generics : Reads (skipTypeParameters (types ++ (parameters ++ (result ++ semicolon :: others))))
      () (parameters ++ (result ++ semicolon :: others)) :=
    reads_typeParameters isTypes (startsWith_group isGroup .openAngle)
  rw [List.append_assoc, List.append_assoc]
  refine generics.passes fun _ => ?_
  refine Reads.passes (reads_group (by decide) isGroup) fun _ => ?_
  exact (skipAnnotation_passes fits isSemicolon isResult ended).bind fun _ => reads_ok _

theorem skipIndexSignature_passes {index : List Located} (fits : deep ∨ units ≤ unitsOther)
    (isSemicolon : semicolon.token = .mark .semicolon)
    (isIndex : IsGroup .openBracket .closeBracket index)
    (isResult : IsResult units semicolon result) (ended : Ended (index ++ result ++ [semicolon])) :
    Passes deep ((ofNesting unitsOther).skipIndexSignature (index ++ result ++ semicolon :: others)) ()
      (semicolon :: others) := by
  have ended : Ended (result ++ [semicolon]) := ended.of_suffix ⟨index, by simp⟩ (by simp)
  have passes : Passes deep (Level.skipAnnotation (ofNesting unitsOther)
      (skip .question (result ++ semicolon :: others))) () (semicolon :: others) := by
    rw [skip_of_other (isResult.question isSemicolon)]
    exact skipAnnotation_passes fits isSemicolon isResult ended
  rw [List.append_assoc]
  exact Reads.passes (reads_group (by decide) isIndex) fun _ => passes.bind fun _ => reads_ok _

theorem namedMember_index {doc : Option String} (opens : startsWith .openBracket tokens = true) :
    inner.namedMember doc tokens =
      inner.skipIndexSignature tokens >>= fun signature => .ok (signature.map fun _ => none) := by
  obtain ⟨position, other, rest, rfl⟩ := exists_of_startsWith opens
  rfl

theorem namedMember_signature {doc : Option String} (starts : Level.startsSignature tokens = true) :
    inner.namedMember doc tokens =
      inner.skipSignature tokens >>= fun signature => .ok (signature.map fun _ => none) := by
  obtain ⟨⟨token, position, other⟩, rest, rfl, rfl | rfl⟩ := exists_mark_of_startsSignature starts
  · rfl
  · rfl

-- Behind its name a method is passed over.
theorem memberAfter_passes {doc : Option String} {name : String} {start : List Located}
    (same : skip .question tokens = start) (starts : Level.startsSignature start = true)
    (passes : Passes deep (inner.skipSignature start) () others) :
    Passes deep (inner.memberAfter doc name tokens) none others := by
  subst same
  have plain : ¬startsWith .colon (skip .question tokens) = true := by
    simp [apart_of_startsSignature starts]
  unfold memberAfter
  rw [if_neg plain, if_pos starts]
  exact passes.bind fun _ => reads_ok _

theorem namedMember_passes {doc : Option String} {name : Located} {start : List Located}
    (isName : name.token.isName = true) (same : skip .question tokens = start)
    (starts : Level.startsSignature start = true)
    (passes : Passes deep (inner.skipSignature start) () others) :
    Passes deep (inner.namedMember doc (name :: tokens)) none others := by
  obtain ⟨token, position, other⟩ := name
  cases token with
  | word name =>
      simp only [namedMember]
      split
      · next constructs =>
          have starts := (Bool.and_eq_true_iff.mp constructs).2
          rw [skip_of_other (apart_of_startsSignature starts (by decide))] at same
          subst same
          exact passes.bind fun _ => reads_ok _
      · exact memberAfter_passes same starts passes
  | quoted | number => exact memberAfter_passes same starts passes
  | template | mark | symbol => contradiction

theorem startsMember_of_bracket (opens : startsWith .openBracket tokens = true) :
    startsMember tokens = true := by
  obtain ⟨position, doc, rest, rfl⟩ := exists_of_startsWith opens
  rfl

theorem skipReadonly_of_mark {mark : Mark} (starts : startsWith mark tokens = true) :
    skipReadonly tokens = tokens := by
  obtain ⟨position, doc, rest, rfl⟩ := exists_of_startsWith starts
  simp [skipReadonly]

theorem skipReadonly_of_startsSignature (starts : Level.startsSignature tokens = true) :
    skipReadonly tokens = tokens := by
  rcases Bool.or_eq_true_iff.mp starts with starts | starts
  · exact skipReadonly_of_mark starts
  · exact skipReadonly_of_mark starts

theorem skipReadonly_of_member {first : Located} {rest : List Located}
    (isReadonly : first.token = .word "readonly") (starts : startsMember rest = true) :
    skipReadonly (first :: rest) = skipReadonly rest := by
  rw [skipReadonly, if_pos (by simp [isReadonly, starts])]

theorem skipReadonly_of_other {first : Located} {rest : List Located}
    (other : first.token = .word "readonly" → startsMember rest = false) :
    skipReadonly (first :: rest) = first :: rest := by
  rw [skipReadonly, if_neg]
  intro skips
  obtain ⟨isReadonly, starts⟩ := Bool.and_eq_true_iff.mp skips
  rw [other (of_decide_eq_true isReadonly)] at starts
  contradiction

-- A signature is read as a member that is dropped.
theorem member_passes (fits : deep ∨ units ≤ unitsOther)
    (isSemicolon : semicolon.token = .mark .semicolon)
    (isSignature : IsSignature units semicolon signature) (ended : Ended (signature ++ [semicolon])) :
    Passes deep ((ofNesting unitsOther).member (signature ++ semicolon :: others)) none
      (semicolon :: others) := by
  have member : ∀ {tokens named after : List Located} {inner : Level},
      skipReadonly tokens = named → (∀ doc, Passes deep (inner.namedMember doc named) none after) →
      Passes deep (inner.member tokens) none after := by
    rintro tokens _ after inner rfl dropped
    exact (dropped _).bind fun _ => reads_ok _
  -- A construct signature is read as a method with its word as the name.
  have named : ∀ {name : Located} {call : List Located}, name.token.isName = true →
      IsCall units semicolon call → Ended (name :: call ++ [semicolon]) →
      Passes deep ((ofNesting unitsOther).member (name :: call ++ semicolon :: others)) none
        (semicolon :: others) := by
    intro name call isName isCall ended
    have starts : Level.startsSignature (call ++ semicolon :: others) = true :=
      isCall.startsSignature
    have start : skip .question (call ++ semicolon :: others) = call ++ semicolon :: others :=
      skip_of_other (apart_of_startsSignature starts (by decide))
    refine member (skipReadonly_of_other fun _ => startsMember_of_startsSignature starts) fun doc => ?_
    exact namedMember_passes isName start starts
      (skipSignature_passes fits isSemicolon isCall (ended.tail (by simp)))
  cases isSignature with
  | @index index result isIndex isResult =>
      have opens : startsWith .openBracket (index ++ result ++ semicolon :: others) = true := by
        simp [startsWith_group isIndex]
      refine member (skipReadonly_of_mark opens) fun doc => ?_
      rw [namedMember_index opens]
      exact (skipIndexSignature_passes fits isSemicolon isIndex isResult ended).bind fun _ => reads_ok _
  | @readonlyIndex readonly index result isReadonly isIndex isResult =>
      have opens : startsWith .openBracket (index ++ result ++ semicolon :: others) = true := by
        simp [startsWith_group isIndex]
      refine member ((skipReadonly_of_member isReadonly (startsMember_of_bracket opens)).trans
        (skipReadonly_of_mark opens)) fun doc => ?_
      rw [namedMember_index opens]
      have ended := ended.tail (by simp)
      exact (skipIndexSignature_passes fits isSemicolon isIndex isResult ended).bind fun _ => reads_ok _
  | call isCall =>
      have starts : Level.startsSignature (signature ++ semicolon :: others) = true :=
        isCall.startsSignature
      refine member (skipReadonly_of_startsSignature starts) fun doc => ?_
      rw [namedMember_signature starts]
      exact (skipSignature_passes fits isSemicolon isCall ended).bind fun _ => reads_ok _
  | @construct new call isNew isCall =>
      have isName : new.token.isName = true := by rw [isNew]; rfl
      exact named isName isCall ended
  | @method name call isName isCall => exact named isName isCall ended
  | @optionalMethod name question call isName isQuestion isCall =>
      have starts : Level.startsSignature (call ++ semicolon :: others) = true :=
        isCall.startsSignature
      have start : skip .question (question :: (call ++ semicolon :: others)) =
          call ++ semicolon :: others := by simp [skip, startsWith, isQuestion]
      have ended : Ended (call ++ [semicolon]) := ended.of_suffix ⟨[name, question], by simp⟩ (by simp)
      refine member (skipReadonly_of_other fun _ => ?_) fun doc => ?_
      · obtain ⟨token, position, doc⟩ := question
        cases isQuestion
        rfl
      · exact namedMember_passes isName start starts (skipSignature_passes fits isSemicolon isCall ended)

end Signatures

end Level

section Items
variable {units unitsOther : Nat} {deep : Prop} {semicolon : Located} {signature others : List Located}

theorem opensMember_cons {first : Located} {rest : List Located}
    (apart : ∀ mark ∈ [Mark.semicolon, .comma, .closeBrace], first.token ≠ .mark mark) :
    Level.OpensMember (first :: rest) := by
  refine ⟨first, rest, rfl, List.dropWhile_cons_of_neg ?_, apart _ (by decide)⟩
  simp [apart .semicolon (by decide), apart .comma (by decide)]

theorem IsSignature.opensMember (isSignature : IsSignature units semicolon signature) :
    Level.OpensMember (signature ++ others) := by
  have ofName : ∀ {first : Located} {rest}, first.token.isName = true →
      Level.OpensMember (first :: rest) := by
    intro first rest isName
    refine opensMember_cons fun mark _ same => ?_
    rw [same] at isName
    contradiction
  cases isSignature with
  | index isIndex =>
      obtain ⟨opens, -, -⟩ := isIndex
      exact opensMember_cons (by simp [opens])
  | readonlyIndex isReadonly => exact ofName (by rw [isReadonly]; rfl)
  | call isCall =>
      have starts : Level.startsSignature (signature ++ others) = true := isCall.startsSignature
      obtain ⟨first, rest, same, token⟩ := exists_mark_of_startsSignature starts
      rw [same]
      exact opensMember_cons (by rcases token with token | token <;> simp [token])
  | construct isNew => exact ofName (by rw [isNew]; rfl)
  | method isName => exact ofName isName
  | optionalMethod isName => exact ofName isName

def droppedSignatures (units : Nat) (place : Nat → Prop) : Insertion where
  item := IsDropped units
  place := place
  even := IsDropped.even

theorem passesOver_droppedSignatures {place : Nat → Prop} (fits : deep ∨ units ≤ unitsOther) :
    Level.PassesOver (droppedSignatures units place) deep (.ofNesting unitsOther) := by
  rintro item ⟨even, tokens, semicolon, rfl, isSemicolon, isSignature⟩ others
  have ended : Ended (tokens ++ [semicolon]) :=
    ⟨tokens, semicolon, 0, rfl, isSemicolon, even .openParen .closeParen rfl⟩
  rw [List.append_assoc, List.singleton_append]
  exact ⟨isSignature.opensMember, semicolon, isSemicolon,
    Level.member_passes fits isSemicolon isSignature ended⟩

theorem carrying_droppedSignatures {need : Nat} {place : Nat → Prop}
    (fits : deep ∨ units + need ≤ unitsOther) : Level.Carrying (droppedSignatures need place) deep
      (.ofNesting units) (.ofNesting unitsOther) :=
  Level.ofNesting_carrying fits fun _ => passesOver_droppedSignatures

end Items

end Toggles.Declaration
