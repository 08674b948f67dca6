import Toggles.Document.Basic
import Toggles.Proofs.Json
import Toggles.Proofs.Success

/-! Proper documents.

A property of documents is mostly one of every level: of the features at the top
and of the features under each of them. Documents that are read from proper values
are proper on every level, in either form.
-/

set_option autoImplicit false

namespace Toggles.Document

open Json (Members)

inductive EveryLevel (holds : Features → Prop) : Features → Prop where
  | level {features : Features} (here : holds features)
      (under : ∀ name feature, (name, feature) ∈ features →
        EveryLevel holds feature.childFeatures) : EveryLevel holds features

section Levels
variable {holds : Features → Prop} {features : Features}

theorem EveryLevel.here (every : EveryLevel holds features) : holds features := by
  cases every with
  | level here under => exact here

theorem EveryLevel.under (every : EveryLevel holds features) {name : String} {feature : Feature}
    (member : (name, feature) ∈ features) : EveryLevel holds feature.childFeatures := by
  cases every with
  | level here under => exact under name feature member

theorem EveryLevel.get? (every : EveryLevel holds features) {name : String} {feature : Feature}
    (found : Ordered.get? features name = some feature) :
    EveryLevel holds feature.childFeatures :=
  every.under (Ordered.mem_of_get? found)

theorem everyLevel_iff : EveryLevel holds features ↔
    holds features ∧ ∀ entry ∈ features, EveryLevel holds entry.2.childFeatures :=
  ⟨fun every => ⟨every.here, fun _ member => every.under member⟩,
    fun ⟨here, under⟩ => .level here fun name feature member => under (name, feature) member⟩

variable [DecidablePred holds]

mutual

def decideChildren : (feature : Feature) → Decidable (EveryLevel holds feature.childFeatures)
  | ⟨_, _, none, _⟩ =>
      decidable_of_iff (holds []) ⟨fun here => .level here nofun, EveryLevel.here⟩
  | ⟨_, _, some children, _⟩ =>
      have := decideUnder children
      decidable_of_iff (holds children ∧ ∀ entry ∈ children,
        EveryLevel holds entry.2.childFeatures) everyLevel_iff.symm

def decideUnder : (features : List (String × Feature)) →
    Decidable (∀ entry ∈ features, EveryLevel holds entry.2.childFeatures)
  | [] => isTrue nofun
  | (_, feature) :: rest =>
      have := decideChildren feature
      have := decideUnder rest
      decidable_of_iff (EveryLevel holds feature.childFeatures ∧
        ∀ entry ∈ rest, EveryLevel holds entry.2.childFeatures) (by simp)

end

instance : Decidable (EveryLevel holds features) :=
  have : Decidable (∀ entry ∈ features, EveryLevel holds entry.2.childFeatures) :=
    decideUnder features
  decidable_of_iff _ everyLevel_iff.symm

end Levels

structure Feature.ProperMembers (feature : Feature) : Prop where
  params : (Json.obj feature.paramMembers).Proper
  extra : (Json.obj feature.extra).Proper

structure ProperLevel (features : Features) : Prop where
  distinct : Ordered.Distinct features
  members : ∀ entry ∈ features, entry.2.ProperMembers

instance : DecidablePred ProperLevel := fun features =>
  decidable_of_iff (Ordered.Distinct features ∧ ∀ entry ∈ features,
      (Json.obj entry.2.paramMembers).Proper ∧ (Json.obj entry.2.extra).Proper)
    ⟨fun level => ⟨level.1, fun entry member => ⟨(level.2 entry member).1, (level.2 entry member).2⟩⟩,
      fun level => ⟨level.distinct,
        fun entry member => ⟨(level.members entry member).params, (level.members entry member).extra⟩⟩⟩

/-- No name is repeated on any level, nor in any object that the document keeps. -/
def Proper (document : Document) : Prop :=
  EveryLevel ProperLevel document.features

instance (document : Document) : Decidable document.Proper :=
  inferInstanceAs (Decidable (EveryLevel ProperLevel document.features))

structure Feature.Proper (feature : Feature) : Prop where
  members : feature.ProperMembers
  children : EveryLevel ProperLevel feature.childFeatures

theorem properObject_nil : (Json.obj []).Proper :=
  ⟨List.nodup_nil, trivial⟩

theorem properLevels_nil : EveryLevel ProperLevel [] :=
  .level ⟨List.nodup_nil, by simp⟩ (by simp)

theorem Feature.blank_proper : Feature.blank.Proper :=
  ⟨⟨properObject_nil, properObject_nil⟩, properLevels_nil⟩

theorem EveryLevel.of_proper {features : Features} (distinct : Ordered.Distinct features)
    (proper : ∀ entry ∈ features, entry.2.Proper) : EveryLevel ProperLevel features :=
  .level ⟨distinct, fun entry member => (proper entry member).members⟩
    fun name feature member => (proper (name, feature) member).children

theorem EveryLevel.feature_proper {features : Features} (every : EveryLevel ProperLevel features)
    {entry : String × Feature} (member : entry ∈ features) : entry.2.Proper :=
  ⟨every.here.members entry member, every.under member⟩

section Nested

theorem decodeOptional_members {value : Json} {params : Option Members} (proper : value.Proper)
    (decoded : Json.decodeOptional Json.decodeMembers value = .ok params) :
    (Json.obj (params.getD [])).Proper := by
  cases value with
  | null => cases decoded; exact properObject_nil
  | obj members => cases decoded; exact proper
  | bool | int | float | str | arr => contradiction

mutual

theorem decodeFeature_proper : (value : Json) → {feature : Feature} → value.Proper →
    decodeFeature value = .ok feature → feature.Proper
  | .obj members, _, proper, decoded => by
      rw [decodeFeature] at decoded
      exact decodeInto_proper members Feature.blank_proper proper.2 decoded
  | .null, _, _, decoded | .bool _, _, _, decoded | .int _, _, _, decoded
  | .float _, _, _, decoded | .str _, _, _, decoded | .arr _, _, _, decoded => by
      simp [decodeFeature, Json.mismatch] at decoded

theorem decodeInto_proper : (members : List (String × Json)) → {soFar feature : Feature} →
    soFar.Proper → Json.ProperMembers members → decodeInto soFar members = .ok feature →
    feature.Proper
  | [], soFar, feature, proper, _, decoded => by
      rw [decodeInto] at decoded
      cases decoded
      exact proper
  | (name, value) :: rest, soFar, feature, proper, given, decoded => by
      obtain ⟨first, given⟩ := given
      unfold decodeInto at decoded
      split at decoded
      · obtain ⟨enabled, -, decoded⟩ := bind_eq_ok.mp decoded
        refine decodeInto_proper rest ?_ given decoded
        exact ⟨⟨proper.members.params, proper.members.extra⟩, proper.children⟩
      · split at decoded
        · obtain ⟨params, read, decoded⟩ := bind_eq_ok.mp decoded
          refine decodeInto_proper rest ?_ given decoded
          exact ⟨⟨decodeOptional_members first read, proper.members.extra⟩, proper.children⟩
        · split at decoded
          · split at decoded
            · refine decodeInto_proper rest ?_ given decoded
              exact ⟨⟨proper.members.params, proper.members.extra⟩, properLevels_nil⟩
            · obtain ⟨children, read, decoded⟩ := bind_eq_ok.mp decoded
              have below := decodeFeatures_proper _ first.1 first.2 read
              refine decodeInto_proper rest ?_ given decoded
              exact ⟨⟨proper.members.params, proper.members.extra⟩, below.1⟩
            · contradiction
          · refine decodeInto_proper rest ?_ given decoded
            exact ⟨⟨proper.members.params, proper.members.extra.insert first⟩, proper.children⟩

theorem decodeFeatures_proper : (members : List (String × Json)) → {features : Features} →
    Ordered.Distinct members → Json.ProperMembers members →
    decodeFeatures members = .ok features →
    EveryLevel ProperLevel features ∧ Ordered.keys features = Ordered.keys members
  | [], features, _, _, decoded => by
      rw [decodeFeatures] at decoded
      cases decoded
      exact ⟨properLevels_nil, rfl⟩
  | (name, value) :: rest, features, distinct, given, decoded => by
      obtain ⟨fresh, distinct⟩ := Ordered.distinct_cons.mp distinct
      obtain ⟨first, given⟩ := given
      rw [decodeFeatures] at decoded
      obtain ⟨feature, read, decoded⟩ := bind_eq_ok.mp decoded
      obtain ⟨others, readRest, same⟩ := bind_eq_ok.mp decoded
      cases same
      have proper := decodeFeature_proper value first read
      obtain ⟨below, keys⟩ := decodeFeatures_proper rest distinct given readRest
      refine ⟨.of_proper (Ordered.distinct_cons.mpr ⟨keys ▸ fresh, below.here.distinct⟩) ?_,
        congrArg (name :: ·) keys⟩
      exact List.forall_mem_cons.mpr ⟨proper, fun entry member => below.feature_proper member⟩

end

theorem assign_proper {document result : Document} {name : String} {value : Json}
    (proper : document.Proper) (given : value.Proper)
    (decoded : document.assign name value = .ok result) : result.Proper := by
  unfold assign at decoded
  split at decoded
  · obtain ⟨version, -, same⟩ := bind_eq_ok.mp decoded
    cases same; exact proper
  · obtain ⟨text, -, same⟩ := bind_eq_ok.mp decoded
    cases same; exact proper
  · obtain ⟨text, -, same⟩ := bind_eq_ok.mp decoded
    cases same; exact proper
  · obtain ⟨members, object, decoded⟩ := bind_eq_ok.mp decoded
    obtain ⟨features, read, same⟩ := bind_eq_ok.mp decoded
    cases same
    cases value with
    | obj => cases object; exact (decodeFeatures_proper members given.1 given.2 read).1
    | null | bool | int | float | str | arr => contradiction
  · cases decoded; exact proper

def assignAll (before : Document) (members : Members) : Json.Decoded Document :=
  members.foldlM (fun document member => document.assign member.1 member.2) before

theorem assignAll_proper {members : Members} {before document : Document} (proper : before.Proper)
    (given : Json.ProperMembers members) (decoded : before.assignAll members = .ok document) :
    document.Proper := by
  induction members generalizing before with
  | nil => cases decoded; exact proper
  | cons member rest ih =>
      obtain ⟨next, taken, decoded⟩ := bind_eq_ok.mp decoded
      exact ih (assign_proper proper given.1 taken) given.2 decoded

-- A failure to decode is reported as one to read.
theorem decode_eq_ok_iff {members : Members} {document : Document} :
    decode members = .ok document ↔ blank.assignAll members = .ok document := by
  unfold decode
  split
  · next decoded done =>
      have taken : blank.assignAll members = .ok decoded := done
      simp [taken]
  · next cause failed =>
      have taken : blank.assignAll members = .error cause := failed
      simp [taken]

theorem decode_proper {members : Members} {document : Document}
    (given : Json.ProperMembers members) (decoded : decode members = .ok document) :
    document.Proper :=
  assignAll_proper (show Document.blank.Proper from properLevels_nil) given
    (decode_eq_ok_iff.mp decoded)

theorem ofNested_eq_ok {value : Json} {document : Document} : ofNested value = .ok document ↔
    ∃ members features, value = .obj members ∧
      Ordered.get? members "features" = some (.obj features) ∧ decode members = .ok document := by
  constructor
  · intro read
    unfold ofNested at read
    split at read
    · split at read
      · next found => exact ⟨_, _, rfl, found, read⟩
      · contradiction
    · contradiction
  · rintro ⟨members, features, rfl, found, read⟩
    rwa [ofNested, found]

-- A document read from a proper value is proper.
theorem ofNested_proper {value : Json} {document : Document} (proper : value.Proper)
    (read : ofNested value = .ok document) : document.Proper := by
  obtain ⟨members, features, rfl, -, decoded⟩ := ofNested_eq_ok.mp read
  exact decode_proper proper.2 decoded

end Nested

section FlattenedForm

structure Flattened.Proper (parts : Flattened) : Prop where
  params : (Json.obj (parts.params.getD [])).Proper
  explicit : EveryLevel ProperLevel parts.explicit
  siblings : ∀ entry ∈ parts.siblings, entry.2.Proper
  extra : (Json.obj parts.extra).Proper

theorem Flattened.toFeature_childFeatures (parts : Flattened) :
    parts.toFeature.childFeatures = Ordered.insertAll parts.explicit parts.siblings := by
  simp only [toFeature, Feature.childFeatures]
  split
  · next empty => exact (List.isEmpty_iff.mp empty).symm
  · rfl

theorem Flattened.toFeature_proper {parts : Flattened} (proper : parts.Proper) :
    parts.toFeature.Proper := by
  refine ⟨⟨proper.params, proper.extra⟩, ?_⟩
  rw [toFeature_childFeatures]
  refine .of_proper proper.explicit.here.distinct.insertAll fun entry member => ?_
  rcases Ordered.mem_insertAll member with member | member
  · exact proper.explicit.feature_proper member
  · exact proper.siblings entry member

theorem Flattened.blank_proper : Flattened.blank.Proper :=
  ⟨properObject_nil, properLevels_nil, by simp [blank], properObject_nil⟩

-- Entries that are no objects are left out, the others stay in their order.
theorem keys_nestFeatures_sublist (members : Members) :
    (Ordered.keys (nestFeatures members)).Sublist (Ordered.keys members) := by
  induction members with
  | nil => exact .refl _
  | cons member rest ih =>
      obtain ⟨name, value⟩ := member
      rw [nestFeatures]
      cases nestFeature? value with
      | none => exact ih.cons name
      | some feature => exact ih.cons_cons name

mutual

theorem nestFeature?_proper : (value : Json) → {feature : Feature} → value.Proper →
    nestFeature? value = some feature → feature.Proper
  | .obj members, _, proper, nested => by
      rw [nestFeature?] at nested
      cases nested
      exact Flattened.toFeature_proper (flattenedParts_proper members proper.1 proper.2).1
  | .null, _, _, nested | .bool _, _, _, nested | .int _, _, _, nested
  | .float _, _, _, nested | .str _, _, _, nested | .arr _, _, _, nested => by
      simp [nestFeature?] at nested

theorem nestFeatures_proper : (members : List (String × Json)) → Ordered.Distinct members →
    Json.ProperMembers members → EveryLevel ProperLevel (nestFeatures members)
  | [], _, _ => properLevels_nil
  | (name, value) :: rest, distinct, given => by
      obtain ⟨fresh, distinct⟩ := Ordered.distinct_cons.mp distinct
      have below := nestFeatures_proper rest distinct given.2
      rw [nestFeatures]
      split
      · next feature nested =>
          have proper := nestFeature?_proper value given.1 nested
          refine .of_proper (Ordered.distinct_cons.mpr
            ⟨fun member => fresh ((keys_nestFeatures_sublist rest).subset member),
              below.here.distinct⟩) ?_
          exact List.forall_mem_cons.mpr ⟨proper, fun entry member => below.feature_proper member⟩
      · exact below

theorem flattenedParts_proper : (members : List (String × Json)) → Ordered.Distinct members →
    Json.ProperMembers members → (flattenedParts members).Proper ∧
      (Ordered.keys (flattenedParts members).extra).Sublist (Ordered.keys members)
  | [], _, _ => ⟨Flattened.blank_proper, .refl _⟩
  | (name, value) :: rest, distinct, given => by
      obtain ⟨fresh, distinct⟩ := Ordered.distinct_cons.mp distinct
      obtain ⟨first, given⟩ := given
      obtain ⟨parts, keys⟩ := flattenedParts_proper rest distinct given
      unfold flattenedParts
      simp only
      split
      · exact ⟨⟨parts.params, parts.explicit, parts.siblings, parts.extra⟩, keys.cons name⟩
      · split
        · refine ⟨⟨?_, parts.explicit, parts.siblings, parts.extra⟩, keys.cons name⟩
          cases value with
          | obj members => exact first
          | null | bool | int | float | str | arr => exact properObject_nil
        · split
          · split
            · next members =>
                have below := nestFeatures_proper members first.1 first.2
                exact ⟨⟨parts.params, below, parts.siblings, parts.extra⟩, keys.cons name⟩
            · exact ⟨⟨parts.params, properLevels_nil, parts.siblings, parts.extra⟩,
                keys.cons name⟩
          · split
            · next feature nested =>
                have proper := nestFeature?_proper value first nested
                exact ⟨⟨parts.params, parts.explicit,
                  List.forall_mem_cons.mpr ⟨proper, parts.siblings⟩, parts.extra⟩, keys.cons name⟩
            · have extra : Ordered.Distinct ((name, value) :: (flattenedParts rest).extra) :=
                Ordered.distinct_cons.mpr ⟨fun member => fresh (keys.subset member), parts.extra.1⟩
              exact ⟨⟨parts.params, parts.explicit, parts.siblings, extra, first, parts.extra.2⟩,
                keys.cons_cons name⟩

end

theorem ofFlattened_eq_ok {value : Json} {document : Document} :
    ofFlattened value = .ok document ↔ ∃ members features decoded, value = .obj members ∧
      Ordered.get? members "features" = some (.obj features) ∧
      decode (Ordered.swapErase members "features") = .ok decoded ∧
      { decoded with features := nestFeatures features } = document := by
  constructor
  · intro read
    unfold ofFlattened at read
    split at read
    · split at read
      · next found =>
          obtain ⟨decoded, beside, same⟩ := bind_eq_ok.mp read
          cases same
          exact ⟨_, _, decoded, rfl, found, beside, rfl⟩
      · contradiction
    · contradiction
  · rintro ⟨members, features, decoded, rfl, found, beside, rfl⟩
    rw [ofFlattened, found, beside]
    rfl

-- A document read from a proper value with flattened features is proper.
theorem ofFlattened_proper {value : Json} {document : Document} (proper : value.Proper)
    (read : ofFlattened value = .ok document) : document.Proper := by
  obtain ⟨members, features, decoded, rfl, found, -, rfl⟩ := ofFlattened_eq_ok.mp read
  have object : (Json.obj features).Proper := proper.2.get? found
  exact nestFeatures_proper features object.1 object.2

end FlattenedForm

end Toggles.Document
