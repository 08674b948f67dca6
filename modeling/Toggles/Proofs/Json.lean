import Mathlib.Data.List.Perm.Subperm
import Toggles.Json.Reader
import Toggles.Proofs.Ordered

/-! Proper JSON values and their equality.

A value is proper when each of its objects names every member once. Reading a text
yields nothing else, since a repeated member replaces the one before it. Objects
that are proper are equal when they have the same names with equal members.
-/

set_option autoImplicit false

namespace Toggles.Json

mutual

/-- No object in a value repeats a name. -/
def Proper : Json → Prop
  | .arr items => ProperItems items
  | .obj members => Ordered.Distinct members ∧ ProperMembers members
  | _ => True

def ProperItems : List Json → Prop
  | [] => True
  | item :: rest => item.Proper ∧ ProperItems rest

def ProperMembers : List (String × Json) → Prop
  | [] => True
  | (_, value) :: rest => value.Proper ∧ ProperMembers rest

end

mutual

def decideProper : (value : Json) → Decidable value.Proper
  | .arr items => decideProperItems items
  | .obj members => @instDecidableAnd _ _ inferInstance (decideProperMembers members)
  | .null | .bool _ | .int _ | .float _ | .str _ => isTrue trivial

def decideProperItems : (items : List Json) → Decidable (ProperItems items)
  | [] => isTrue trivial
  | item :: rest => @instDecidableAnd _ _ (decideProper item) (decideProperItems rest)

def decideProperMembers : (members : List (String × Json)) → Decidable (ProperMembers members)
  | [] => isTrue trivial
  | (_, value) :: rest => @instDecidableAnd _ _ (decideProper value) (decideProperMembers rest)

end

instance (value : Json) : Decidable value.Proper := decideProper value

theorem properItems_iff {items : List Json} : ProperItems items ↔ ∀ item ∈ items, item.Proper := by
  induction items with
  | nil => simp [ProperItems]
  | cons item rest ih => simp [ProperItems, ih]

theorem properMembers_iff {members : Members} :
    ProperMembers members ↔ ∀ member ∈ members, member.2.Proper := by
  induction members with
  | nil => simp [ProperMembers]
  | cons member rest ih => simp [ProperMembers, ih]

theorem ProperMembers.get? {members : Members} {name : String} {value : Json}
    (proper : ProperMembers members) (found : Ordered.get? members name = some value) :
    value.Proper :=
  properMembers_iff.mp proper _ (Ordered.mem_of_get? found)

theorem Proper.insert {members : Members} {name : String} {value : Json}
    (object : (obj members).Proper) (proper : value.Proper) :
    (obj (Ordered.insert members name value)).Proper := by
  refine ⟨object.1.insert, properMembers_iff.mpr fun member found => ?_⟩
  rcases Ordered.mem_insert found with same | present
  · exact same ▸ proper
  · exact properMembers_iff.mp object.2 member present

section Reading

def IsScalar : Json → Prop
  | .arr _ | .obj _ => False
  | _ => True

theorem IsScalar.proper {value : Json} (scalar : value.IsScalar) : value.Proper := by
  cases value with
  | arr | obj => contradiction
  | null | bool | int | float | str => trivial

def Token.Plain : Token → Prop
  | .scalar value => value.IsScalar
  | _ => True

theorem number?_isScalar {text : List Char} {value : Json} (read : number? text = some value) :
    value.IsScalar := by
  simp only [number?, Option.bind_eq_bind, Option.bind_eq_some_iff] at read
  obtain ⟨parts, -, read⟩ := read
  split at read
  · contradiction
  · split at read
    · cases read; trivial
    · split at read
      · cases read; trivial
      · obtain ⟨number, -, read⟩ := Option.bind_eq_some_iff.mp read
        cases read; trivial

theorem tokensAfter_plain {seen : List Token} {text : List Char} {tokens : List Token}
    (before : ∀ token ∈ seen, token.Plain) (read : tokensAfter seen text = some tokens) :
    ∀ token ∈ tokens, token.Plain := by
  have also {token : Token} (plain : token.Plain) : ∀ other ∈ token :: seen, other.Plain :=
    List.forall_mem_cons.mpr ⟨plain, before⟩
  fun_induction tokensAfter seen text with
  | case1 => cases read; simpa using before
  | case2 | case3 | case4 | case5 | case6 | case7 | case8 | case9 | case10 =>
      rename_i ih
      exact ih (also trivial) read fun plain => List.forall_mem_cons.mpr ⟨plain, also trivial⟩
  | case11 => contradiction
  | case12 =>
      rename_i ih
      exact ih (also trivial) read fun plain => List.forall_mem_cons.mpr ⟨plain, also trivial⟩
  | case13 => rename_i ih; exact ih before read also
  | case14 => contradiction
  | case15 =>
      rename_i number _ ih
      exact ih (also (number?_isScalar number)) read
        fun plain => List.forall_mem_cons.mpr ⟨plain, also (number?_isScalar number)⟩
  | case16 => contradiction

def Frame.Proper : Frame → Prop
  | .items reversed => ProperItems reversed
  | .members soFar _ => (obj soFar).Proper

def Expects.Proper : Expects → Prop
  | .key soFar | .colon soFar _ => (obj soFar).Proper
  | .separator completed => completed.Proper
  | _ => True

structure ReaderState.Proper (state : ReaderState) : Prop where
  expects : state.expects.Proper
  enclosing : ∀ frame ∈ state.enclosing, frame.Proper

theorem ReaderState.beginValue_proper {depth : Nat} {state next : ReaderState} {token : Token}
    (proper : state.Proper) (plain : token.Plain)
    (stepped : state.beginValue depth token = some next) : next.Proper := by
  cases token with
  | openBracket =>
      simp only [beginValue, descend] at stepped
      split at stepped
      · cases stepped
        exact ⟨trivial, List.forall_mem_cons.mpr ⟨trivial, proper.enclosing⟩⟩
      · contradiction
  | openBrace =>
      simp only [beginValue, descend] at stepped
      split at stepped
      · cases stepped; exact ⟨trivial, proper.enclosing⟩
      · contradiction
  | text value => cases stepped; exact ⟨trivial, proper.enclosing⟩
  | scalar value => cases stepped; exact ⟨plain.proper, proper.enclosing⟩
  | closeBracket | closeBrace | comma | colon => contradiction

theorem ReaderState.afterValue_proper {completed : Json} {enclosing : List Frame}
    {token : Token} {next : ReaderState} (proper : completed.Proper)
    (frames : ∀ frame ∈ enclosing, frame.Proper)
    (stepped : afterValue completed enclosing token = some next) : next.Proper := by
  unfold afterValue at stepped
  split at stepped
  · next reversed outer =>
      obtain ⟨first, outer⟩ := List.forall_mem_cons.mp frames
      cases stepped
      exact ⟨trivial, List.forall_mem_cons.mpr ⟨⟨proper, first⟩, outer⟩⟩
  · next reversed outer =>
      obtain ⟨first, outer⟩ := List.forall_mem_cons.mp frames
      cases stepped
      refine ⟨properItems_iff.mpr fun item member => ?_, outer⟩
      exact List.forall_mem_cons.mpr ⟨proper, properItems_iff.mp first⟩ item
        (List.mem_reverse.mp member)
  · cases stepped
    obtain ⟨first, outer⟩ := List.forall_mem_cons.mp frames
    exact ⟨Json.Proper.insert first proper, outer⟩
  · cases stepped
    obtain ⟨first, outer⟩ := List.forall_mem_cons.mp frames
    exact ⟨Json.Proper.insert first proper, outer⟩
  · contradiction

theorem ReaderState.step_proper {depth : Nat} {state next : ReaderState} {token : Token}
    (proper : state.Proper) (plain : token.Plain)
    (stepped : state.step depth token = some next) : next.Proper := by
  have empty : (obj []).Proper := ⟨List.nodup_nil, trivial⟩
  unfold step at stepped
  split at stepped
  · exact beginValue_proper proper plain stepped
  · cases stepped
    exact ⟨trivial, fun frame member => proper.enclosing frame (List.mem_of_mem_tail member)⟩
  · exact beginValue_proper proper plain stepped
  · cases stepped; exact ⟨empty, proper.enclosing⟩
  · cases stepped; exact ⟨empty, proper.enclosing⟩
  · next expected =>
      cases stepped
      exact ⟨by simpa [Expects.Proper, expected] using proper.expects, proper.enclosing⟩
  · next expected =>
      cases stepped
      refine ⟨trivial, List.forall_mem_cons.mpr ⟨?_, proper.enclosing⟩⟩
      simpa [Frame.Proper, Expects.Proper, expected] using proper.expects
  · next expected =>
      have completed := proper.expects
      rw [expected] at completed
      exact afterValue_proper completed proper.enclosing stepped
  · contradiction

-- A run of the reader over plain tokens ends in a proper state.
theorem ReaderState.run_proper {depth : Nat} {tokens : List Token} {state final : ReaderState}
    (proper : state.Proper) (plain : ∀ token ∈ tokens, token.Plain)
    (ran : tokens.foldlM (step depth) state = some final) : final.Proper := by
  induction tokens generalizing state with
  | nil => cases ran; exact proper
  | cons token rest ih =>
      obtain ⟨first, plain⟩ := List.forall_mem_cons.mp plain
      obtain ⟨next, stepped, ran⟩ := Option.bind_eq_some_iff.mp ran
      exact ih (step_proper proper first stepped) plain ran

-- The reader is at its end when it has a value and nothing is left open.
theorem ofTokens?_eq_some {limit : Nat} {tokens : List Token} {value : Json} :
    ofTokens? limit tokens = some value ↔
      tokens.foldlM (ReaderState.step limit) .start = some ⟨.separator value, []⟩ := by
  rw [ofTokens?, Option.bind_eq_bind, Option.bind_eq_some_iff]
  constructor
  · rintro ⟨⟨expects, enclosing⟩, ran, finished⟩
    simp only [ReaderState.finish?] at finished
    split at finished
    · cases finished; exact ran
    · contradiction
  · intro ran
    exact ⟨_, ran, rfl⟩

-- A text that is read is split into plain tokens, which take the reader to its end.
theorem exists_run_of_parse? {text : String} {value : Json} (read : parse? text = some value) :
    ∃ tokens : List Token, (∀ token ∈ tokens, token.Plain) ∧
      tokens.foldlM (ReaderState.step maximumDepth) .start = some ⟨.separator value, []⟩ := by
  obtain ⟨tokens, split, read⟩ := Option.bind_eq_some_iff.mp read
  exact ⟨tokens, tokensAfter_plain (fun _ member => absurd member List.not_mem_nil) split,
    ofTokens?_eq_some.mp read⟩

-- What is read from a text is proper.
theorem parse?_proper {text : String} {value : Json} (read : parse? text = some value) :
    value.Proper := by
  obtain ⟨tokens, plain, ran⟩ := exists_run_of_parse? read
  have start : ReaderState.start.Proper := ⟨trivial, by simp [ReaderState.start]⟩
  exact (ReaderState.run_proper start plain ran).expects

end Reading

section Equality

theorem equivalentMembers_iff {before after : Members} :
    equivalentMembers before after = true ↔ ∀ member ∈ before,
      ∃ value, Ordered.get? after member.1 = some value ∧ member.2.equivalent value = true := by
  induction before with
  | nil => simp [equivalentMembers]
  | cons member rest ih =>
      simp only [equivalentMembers, Bool.and_eq_true, ih, List.forall_mem_cons]
      refine and_congr_left fun _ => ?_
      cases Ordered.get? after member.1 <;> simp

-- Names among which none is repeated, all found among others that are no more, are
-- all of the others.
theorem subset_of_length_eq {names others : List String} (distinct : names.Nodup)
    (subset : names ⊆ others) (length : others.length = names.length) : others ⊆ names :=
  ((List.subperm_of_subset distinct subset).perm_of_length_le (Nat.le_of_eq length)).symm.subset

theorem length_eq_of_subset {names others : List String} (distinct : names.Nodup)
    (distinctOthers : others.Nodup) (subset : names ⊆ others) (superset : others ⊆ names) :
    names.length = others.length :=
  Nat.le_antisymm (List.subperm_of_subset distinct subset).length_le
    (List.subperm_of_subset distinctOthers superset).length_le

-- Equal objects have the same names, with equal members.
theorem equivalent_obj {before after : Members} (distinct : Ordered.Distinct before)
    (distinctAfter : Ordered.Distinct after) :
    (obj before).equivalent (obj after) = true ↔
      equivalentMembers before after = true ∧ ∀ name ∈ Ordered.keys after,
        name ∈ Ordered.keys before := by
  rw [equivalent, Bool.and_eq_true, beq_iff_eq, and_comm]
  refine and_congr_right fun members => ?_
  have subset : Ordered.keys before ⊆ Ordered.keys after := by
    intro name member
    obtain ⟨value, member⟩ := Ordered.mem_keys.mp member
    obtain ⟨other, found, -⟩ := equivalentMembers_iff.mp members _ member
    exact Ordered.isSome_get?.mp (by simp [found])
  have lengths : before.length = after.length ↔
      (Ordered.keys before).length = (Ordered.keys after).length := by
    simp [Ordered.keys]
  rw [lengths]
  exact ⟨fun same => subset_of_length_eq distinct subset same.symm,
    fun superset => length_eq_of_subset distinct distinctAfter subset superset⟩

end Equality

section Induction
variable {holds : Json → Prop}

mutual

/-- What holds of scalars, and of arrays and objects whenever it holds of their parts, holds
of every value. -/
theorem induction_parts
    (scalar : ∀ value, (∀ items, value ≠ arr items) → (∀ members, value ≠ obj members) → holds value)
    (arr : ∀ items, (∀ item ∈ items, holds item) → holds (arr items))
    (obj : ∀ members : Members, (∀ member ∈ members, holds member.2) → holds (obj members)) :
    ∀ value, holds value
  | .arr items => arr items (forall_items scalar arr obj items)
  | .obj members => obj members (forall_members scalar arr obj members)
  | .null => scalar .null nofun nofun
  | .bool value => scalar (.bool value) nofun nofun
  | .int value => scalar (.int value) nofun nofun
  | .float value => scalar (.float value) nofun nofun
  | .str value => scalar (.str value) nofun nofun

theorem forall_items
    (scalar : ∀ value, (∀ items, value ≠ Json.arr items) → (∀ members, value ≠ Json.obj members) →
      holds value)
    (arr : ∀ items, (∀ item ∈ items, holds item) → holds (.arr items))
    (obj : ∀ members : Members, (∀ member ∈ members, holds member.2) → holds (.obj members)) :
    ∀ items : List Json, ∀ item ∈ items, holds item
  | [] => nofun
  | item :: rest =>
      List.forall_mem_cons.mpr ⟨item.induction_parts scalar arr obj, forall_items scalar arr obj rest⟩

theorem forall_members
    (scalar : ∀ value, (∀ items, value ≠ Json.arr items) → (∀ members, value ≠ Json.obj members) →
      holds value)
    (arr : ∀ items, (∀ item ∈ items, holds item) → holds (.arr items))
    (obj : ∀ members : Members, (∀ member ∈ members, holds member.2) → holds (.obj members)) :
    ∀ members : List (String × Json), ∀ member ∈ members, holds member.2
  | [] => nofun
  | (_, value) :: rest =>
      List.forall_mem_cons.mpr ⟨value.induction_parts scalar arr obj, forall_members scalar arr obj rest⟩

end

end Induction

section Order

/-- Equality but for the order in which objects have their members. -/
inductive Reordered : Json → Json → Prop where
  | same (value : Json) : Reordered value value
  | object {first second : Members} (names : (Ordered.keys first).Perm (Ordered.keys second))
      (members : ∀ name left right, Ordered.get? first name = some left →
        Ordered.get? second name = some right → Reordered left right) :
      Reordered (obj first) (obj second)

-- It is enough to find the same under every name.
theorem Reordered.of_get? {first second : Members} (distinct : Ordered.Distinct first)
    (distinctSecond : Ordered.Distinct second)
    (alike : ∀ name, Option.Rel Reordered (Ordered.get? first name) (Ordered.get? second name)) :
    Reordered (obj first) (obj second) := by
  refine .object ?_ fun name left right foundLeft foundRight => ?_
  · rw [List.perm_ext_iff_of_nodup distinct distinctSecond]
    intro name
    have related := alike name
    rw [← Ordered.isSome_get?, ← Ordered.isSome_get?]
    generalize Ordered.get? first name = left, Ordered.get? second name = right at related
    cases related <;> rfl
  · have related := alike name
    rw [foundLeft, foundRight] at related
    exact Option.rel_some_some.mp related

end Order

section Walks

def memberAlong? (value : Json) (names : List String) : Option Json :=
  names.foldlM member? value

theorem memberAlong?_cons (value : Json) (name : String) (rest : List String) :
    value.memberAlong? (name :: rest) =
      (value.member? name).bind fun member => member.memberAlong? rest :=
  rfl

end Walks

end Toggles.Json
