import Mathlib.Tactic.MkIffOfInductiveProp
import Toggles.Proofs.Definition
import Toggles.Proofs.Document

/-! What is decoded from which member.

A decoder takes members one after the other into what it builds up. As no name is
repeated in an object, each field depends on the member of its name alone.
-/

set_option autoImplicit false

namespace Toggles.Document

open Json (Decoded Members)
open Definition (reservedNames mem_reservedNames notMem_reservedNames)

section Fields
variable {α : Type} {decode : Json → Decoded α} {before after : α}

/-- A field is decoded from its member, or stays as it was when there is none. -/
def Taken (decode : Json → Decoded α) (member : Option Json) (before after : α) : Prop :=
  match member with
  | some value => decode value = .ok after
  | none => after = before

variable {name key : String} {value : Json} {rest : Members}

theorem taken_cons_self (fresh : name ∉ Ordered.keys rest) :
    Taken decode (Ordered.get? ((name, value) :: rest) name) before after ↔
      ∃ decoded, decode value = .ok decoded ∧
        Taken decode (Ordered.get? rest name) decoded after := by
  rw [Ordered.get?, if_pos rfl, Ordered.get?_eq_none.mpr fresh]
  constructor
  · intro read
    exact ⟨after, read, rfl⟩
  · rintro ⟨_, read, rfl⟩
    exact read

theorem taken_cons_other (other : key ≠ name) :
    Taken decode (Ordered.get? ((key, value) :: rest) name) before after ↔
      Taken decode (Ordered.get? rest name) before after := by
  rw [Ordered.get?, if_neg other]

def decodeFeatureMap (value : Json) : Decoded Features :=
  Json.decodeMembers value >>= decodeFeatures

end Fields

section Documents
variable {members : Members} {before document : Document}

/-- What the members of a document make of a document that has been decoded in part. -/
@[mk_iff]
structure DecodedOver (before : Document) (members : Members) (document : Document) : Prop where
  version : Taken (Json.decodeOptional Json.decodeString) (Ordered.get? members "version")
    before.version document.version
  name : Taken Json.decodeString (Ordered.get? members "name") before.name document.name
  description : Taken (Json.decodeOptional Json.decodeString) (Ordered.get? members "description")
    before.description document.description
  features : Taken decodeFeatureMap (Ordered.get? members "features")
    before.features document.features

theorem assign_features (value : Json) : before.assign "features" value =
    decodeFeatureMap value >>= fun features => pure { before with features := features } := by
  cases value <;> rfl

-- A member decides its own field, and no other field has a member of its name.
theorem decodedOver_cons {name : String} {value : Json} (fresh : name ∉ Ordered.keys members) :
    DecodedOver before ((name, value) :: members) document ↔
      ∃ next, before.assign name value = .ok next ∧ DecodedOver next members document := by
  by_cases same : name = "features"
  · subst same
    rw [assign_features]
    simp (disch := decide) only [exists_bind_pure, decodedOver_iff, taken_cons_self fresh,
      taken_cons_other]
    grind
  · unfold assign
    split
    case h_4 => contradiction
    case h_5 noVersion noName noDescription _ =>
      simp only [Except.ok.injEq, exists_eq_left', decodedOver_iff, taken_cons_other noVersion,
        taken_cons_other noName, taken_cons_other noDescription, taken_cons_other same]
    all_goals
      simp (disch := decide) only [exists_bind_pure, decodedOver_iff, taken_cons_self fresh,
        taken_cons_other]
      grind

theorem assignAll_eq_ok (distinct : Ordered.Distinct members) :
    before.assignAll members = .ok document ↔ DecodedOver before members document := by
  induction members generalizing before with
  | nil =>
      rw [decodedOver_iff]
      constructor
      · rintro ⟨⟩
        exact ⟨rfl, rfl, rfl, rfl⟩
      · obtain ⟨version, name, description, features⟩ := document
        rintro ⟨⟨⟩, ⟨⟩, ⟨⟩, ⟨⟩⟩
        rfl
  | cons member rest ih =>
      obtain ⟨name, value⟩ := member
      obtain ⟨fresh, distinct⟩ := Ordered.distinct_cons.mp distinct
      rw [assignAll, List.foldlM_cons, bind_eq_ok, decodedOver_cons fresh]
      exact exists_congr fun next => and_congr_right fun _ => ih distinct

theorem decode_eq_ok (distinct : Ordered.Distinct members) :
    decode members = .ok document ↔ DecodedOver .blank members document :=
  decode_eq_ok_iff.trans (assignAll_eq_ok distinct)

-- What stands beside the features is read alike in both forms.
theorem decode_swapErase (distinct : Ordered.Distinct members) {document : Document}
    (read : decode members = .ok document) :
    decode (Ordered.swapErase members "features") = .ok { document with features := [] } := by
  have fields := (decode_eq_ok distinct).mp read
  refine (decode_eq_ok (distinct.swapErase "features")).mpr ?_
  simp only [decodedOver_iff, Ordered.get?_swapErase distinct, String.reduceEq, ↓reduceIte]
  exact ⟨fields.version, fields.name, fields.description, rfl⟩

end Documents

section Features
variable {members : Members} {soFar feature : Feature}

def unreservedMembers (members : Members) : Members :=
  members.filter fun member => member.1 ∉ reservedNames

@[mk_iff]
structure Feature.DecodedOver (soFar : Feature) (members : Members) (feature : Feature) : Prop where
  enabled : Taken Json.decodeBool (Ordered.get? members "enabled") soFar.enabled feature.enabled
  params : Taken (Json.decodeOptional Json.decodeMembers) (Ordered.get? members "params")
    soFar.params feature.params
  children : Taken (Json.decodeOptional decodeFeatureMap) (Ordered.get? members "children")
    soFar.children feature.children
  extra : feature.extra = Ordered.insertAll soFar.extra (unreservedMembers members)

theorem unreservedMembers_cons (name : String) (value : Json) (rest : Members) :
    unreservedMembers ((name, value) :: rest) =
      if name ∈ reservedNames then unreservedMembers rest
      else (name, value) :: unreservedMembers rest := by
  by_cases state : name ∈ reservedNames <;> simp [unreservedMembers, state]

section Steps
variable (soFar) (value : Json) (rest : List (String × Json))

theorem decodeInto_enabled : decodeInto soFar (("enabled", value) :: rest) =
    Json.decodeBool value >>= fun enabled => decodeInto { soFar with enabled := enabled } rest := by
  rw [decodeInto.eq_def]
  exact if_pos rfl

theorem decodeInto_params : decodeInto soFar (("params", value) :: rest) =
    Json.decodeOptional Json.decodeMembers value >>= fun params =>
      decodeInto { soFar with params := params } rest := by
  rw [decodeInto.eq_def]
  exact (if_neg (by decide)).trans (if_pos rfl)

theorem decodeInto_children : decodeInto soFar (("children", value) :: rest) =
    Json.decodeOptional decodeFeatureMap value >>= fun children =>
      decodeInto { soFar with children := children } rest := by
  rw [decodeInto.eq_def]
  refine (if_neg (by decide)).trans ((if_neg (by decide)).trans ((if_pos rfl).trans ?_))
  cases value with
  | obj members =>
      change (decodeFeatures members >>= fun children =>
          decodeInto { soFar with children := some children } rest) =
        (decodeFeatures members).map some >>= fun children =>
          decodeInto { soFar with children := children } rest
      cases decodeFeatures members <;> rfl
  | null | bool | int | float | str | arr => rfl

theorem decodeInto_unreserved {name : String} (unreserved : name ∉ reservedNames) :
    decodeInto soFar ((name, value) :: rest) =
      decodeInto { soFar with extra := Ordered.insert soFar.extra name value } rest := by
  have apart := notMem_reservedNames.mp unreserved
  rw [decodeInto.eq_def]
  exact (if_neg apart.1).trans ((if_neg apart.2.1).trans (if_neg apart.2.2))

end Steps

-- As no name is repeated, each part of a feature is decoded from its own member.
theorem decodeInto_eq_ok (distinct : Ordered.Distinct members) :
    decodeInto soFar members = .ok feature ↔ soFar.DecodedOver members feature := by
  induction members generalizing soFar with
  | nil =>
      rw [decodeInto, Feature.decodedOver_iff]
      constructor
      · rintro ⟨⟩
        exact ⟨rfl, rfl, rfl, rfl⟩
      · obtain ⟨enabled, params, children, extra⟩ := soFar
        obtain ⟨_, _, _, _⟩ := feature
        rintro ⟨⟨⟩, ⟨⟩, ⟨⟩, ⟨⟩⟩
        rfl
  | cons member rest ih =>
      obtain ⟨name, value⟩ := member
      obtain ⟨fresh, others⟩ := Ordered.distinct_cons.mp distinct
      by_cases state : name ∈ reservedNames
      · rcases mem_reservedNames.mp state with rfl | rfl | rfl
        all_goals
          simp (disch := decide) only [decodeInto_enabled, decodeInto_params, decodeInto_children,
            bind_eq_ok, ih others, Feature.decodedOver_iff, taken_cons_self fresh, taken_cons_other,
            unreservedMembers_cons, if_pos state]
          grind
      · have apart := notMem_reservedNames.mp state
        simp only [decodeInto_unreserved _ _ _ state, ih others, Feature.decodedOver_iff,
          taken_cons_other apart.1, taken_cons_other apart.2.1, taken_cons_other apart.2.2,
          unreservedMembers_cons, if_neg state]
        rfl

section Taking
variable {member : Option Json}

theorem enabled_of_taken {before enabled : Bool} (taken : Taken Json.decodeBool member before enabled) :
    (member = none ∧ enabled = before) ∨ member = some (.bool enabled) := by
  cases member with
  | none => exact .inl ⟨rfl, taken⟩
  | some value =>
      cases value with
      | bool => exact .inr (congrArg (some ∘ Json.bool) (Except.ok.inj taken))
      | null | int | float | str | arr | obj => contradiction

-- There are parameters where there is an object; null is as good as nothing.
theorem params_of_taken {params : Option Members}
    (taken : Taken (Json.decodeOptional Json.decodeMembers) member none params) :
    (params = none ∧ (member = none ∨ member = some .null)) ∨
      ∃ object, member = some (.obj object) ∧ params = some object := by
  cases member with
  | none => exact .inl ⟨taken, .inl rfl⟩
  | some value =>
      cases value with
      | null => exact .inl ⟨(Except.ok.inj taken).symm, .inr rfl⟩
      | obj object => exact .inr ⟨object, rfl, (Except.ok.inj taken).symm⟩
      | bool | int | float | str | arr => contradiction

-- It is the same with children, which are decoded in turn.
theorem children_of_taken {children : Option Features}
    (taken : Taken (Json.decodeOptional decodeFeatureMap) member none children) :
    (children = none ∧ (member = none ∨ member = some .null)) ∨
      ∃ object features, member = some (.obj object) ∧ decodeFeatures object = .ok features ∧
        children = some features := by
  cases member with
  | none => exact .inl ⟨taken, .inl rfl⟩
  | some value =>
      cases value with
      | null => exact .inl ⟨(Except.ok.inj taken).symm, .inr rfl⟩
      | obj object =>
          have mapped : (decodeFeatures object).map some = .ok children := taken
          cases read : decodeFeatures object with
          | error cause => rw [read] at mapped; contradiction
          | ok features =>
              rw [read] at mapped
              exact .inr ⟨object, features, rfl, read, (Except.ok.inj mapped).symm⟩
      | bool | int | float | str | arr => contradiction

end Taking

end Features

end Toggles.Document
