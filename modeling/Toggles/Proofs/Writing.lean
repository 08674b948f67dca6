import Toggles.Proofs.Decoding

/-! Documents as they are written.

A feature is written with its state first and then with the members that it keeps. As none
of these has the name of a part of the state, every part is found again under its name, and
the features of a document are decoded from what is written of them.
-/

set_option autoImplicit false

namespace Toggles.Document

open Json (Members)
open Definition (reservedNames mem_reservedNames notMem_reservedNames)

section Induction
variable {holds : Feature → Prop}

mutual

theorem Feature.induction_children
    (step : ∀ feature, (∀ entry ∈ feature.childFeatures, holds entry.2) → holds feature) :
    ∀ feature, holds feature
  | ⟨enabled, params, none, extra⟩ => step ⟨enabled, params, none, extra⟩ nofun
  | ⟨enabled, params, some children, extra⟩ =>
      step ⟨enabled, params, some children, extra⟩ (forall_of_induction step children)

theorem forall_of_induction
    (step : ∀ feature, (∀ entry ∈ feature.childFeatures, holds entry.2) → holds feature) :
    ∀ features : List (String × Feature), ∀ entry ∈ features, holds entry.2
  | [] => nofun
  | (_, feature) :: rest =>
      List.forall_mem_cons.mpr ⟨feature.induction_children step, forall_of_induction step rest⟩

end

end Induction

section Levels
variable {holds : Feature → Prop} {features : Features}

def EachFeature (holds : Feature → Prop) (features : Features) : Prop :=
  ∀ entry ∈ features, holds entry.2

theorem everyLevel_of_each (each : ∀ entry ∈ features,
      holds entry.2 ∧ EveryLevel (EachFeature holds) entry.2.childFeatures) :
    EveryLevel (EachFeature holds) features :=
  .level (fun entry member => (each entry member).1) fun _ _ member => (each _ member).2

theorem EveryLevel.imp {stronger weaker : Features → Prop} (every : EveryLevel stronger features)
    (implies : ∀ level, stronger level → weaker level) : EveryLevel weaker features := by
  induction every with
  | level here _ ih => exact .level (implies _ here) ih

end Levels

section Members
variable {feature : Feature}

structure Feature.SoundExtra (feature : Feature) : Prop where
  distinct : Ordered.Distinct feature.extra
  unreserved : ∀ name ∈ Ordered.keys feature.extra, name ∉ reservedNames

abbrev SoundLevels : Features → Prop :=
  EveryLevel (EachFeature Feature.SoundExtra)

def Feature.stateMember? (feature : Feature) (name : String) : Option Json :=
  if name = "enabled" then some (.bool feature.enabled)
  else if name = "params" then feature.params.map .obj
  else if name = "children" then feature.children.map fun children => .obj (membersOf children)
  else none

theorem Feature.members_eq (feature : Feature) : feature.members =
    ("enabled", .bool feature.enabled) ::
      ((feature.params.map fun params => ("params", .obj params)).toList ++
        ((feature.children.map fun children => ("children", .obj (membersOf children))).toList ++
          feature.extra)) := by
  obtain ⟨enabled, params, children, extra⟩ := feature
  cases params <;> cases children <;> rfl

theorem Feature.SoundExtra.get?_eq_none (sound : feature.SoundExtra) {name : String}
    (state : name ∈ reservedNames) : Ordered.get? feature.extra name = none :=
  Ordered.get?_eq_none.mpr fun member => sound.unreserved name member state

-- Every part of the state is found under its name, and what else is found is kept.
theorem Feature.SoundExtra.get?_members (sound : feature.SoundExtra) (name : String) :
    Ordered.get? feature.members name =
      (feature.stateMember? name).or (Ordered.get? feature.extra name) := by
  have extra := @SoundExtra.get?_eq_none feature sound name
  rw [members_eq, stateMember?]
  by_cases state : name ∈ reservedNames
  · rcases mem_reservedNames.mp state with rfl | rfl | rfl
    · rfl
    · cases feature.params <;> cases feature.children <;> simp [Ordered.get?, extra state]
    · cases feature.params <;> cases feature.children <;> simp [Ordered.get?, extra state]
  · have apart := notMem_reservedNames.mp state
    cases feature.params <;> cases feature.children <;>
      simp [Ordered.get?, apart, Ne.symm apart.1, Ne.symm apart.2.1, Ne.symm apart.2.2]

theorem Feature.SoundExtra.unreservedMembers_eq (sound : feature.SoundExtra) :
    unreservedMembers feature.members = feature.extra := by
  have extra : unreservedMembers feature.extra = feature.extra := by
    refine List.filter_eq_self.mpr fun member present => ?_
    exact decide_eq_true (sound.unreserved _ (Ordered.mem_keys.mpr ⟨member.2, present⟩))
  rw [members_eq]
  cases feature.params <;> cases feature.children <;>
    simpa [unreservedMembers, reservedNames] using extra

theorem Feature.SoundExtra.distinct_members (sound : feature.SoundExtra) :
    Ordered.Distinct feature.members := by
  have enabled : "enabled" ∉ Ordered.keys feature.extra := fun member =>
    sound.unreserved _ member (by decide)
  have params : "params" ∉ Ordered.keys feature.extra := fun member =>
    sound.unreserved _ member (by decide)
  have children : "children" ∉ Ordered.keys feature.extra := fun member =>
    sound.unreserved _ member (by decide)
  have extra : (Ordered.keys feature.extra).Nodup := sound.distinct
  rw [members_eq, Ordered.Distinct]
  cases feature.params <;> cases feature.children <;>
    simp [enabled, params, children, extra]

end Members

section Reading

theorem membersOf_eq_map (features : Features) :
    membersOf features = features.map fun entry => (entry.1, entry.2.toJson) := by
  induction features with
  | nil => rfl
  | cons entry rest ih => rw [membersOf, ih, List.map_cons, Feature.toJson]

theorem decodeFeatures_membersOf {features : Features}
    (each : ∀ entry ∈ features, decodeFeature entry.2.toJson = .ok entry.2) :
    decodeFeatures (membersOf features) = .ok features := by
  induction features with
  | nil => rw [membersOf, decodeFeatures]
  | cons entry rest ih =>
      obtain ⟨first, each⟩ := List.forall_mem_cons.mp each
      rw [Feature.toJson] at first
      rw [membersOf, decodeFeatures, first, ih each]
      rfl

-- A feature is decoded from what is written of it.
theorem decodeFeature_toJson (feature : Feature) : feature.SoundExtra →
    SoundLevels feature.childFeatures → decodeFeature feature.toJson = .ok feature := by
  induction feature using Feature.induction_children with
  | step feature ih =>
      intro sound below
      have each : decodeFeatures (membersOf feature.childFeatures) = .ok feature.childFeatures :=
        decodeFeatures_membersOf fun entry member =>
          ih entry member (below.here entry member) (below.under member)
      rw [Feature.toJson, decodeFeature, decodeInto_eq_ok sound.distinct_members]
      constructor
      case enabled =>
        rw [sound.get?_members]
        rfl
      case params =>
        rw [sound.get?_members, sound.get?_eq_none (by decide), Option.or_none, Feature.stateMember?]
        cases feature.params <;> rfl
      case children =>
        rw [sound.get?_members, sound.get?_eq_none (by decide), Option.or_none, Feature.stateMember?]
        rw [Feature.childFeatures] at each
        cases given : feature.children with
        | none => rfl
        | some children =>
            rw [given] at each
            exact congrArg (Except.map some) each
      case extra =>
        rw [sound.unreservedMembers_eq]
        exact (Ordered.insertAll_nil _ sound.distinct).symm

theorem SoundLevels.decodeFeatures_membersOf {features : Features} (sound : SoundLevels features) :
    decodeFeatures (membersOf features) = .ok features :=
  Document.decodeFeatures_membersOf fun entry member =>
    decodeFeature_toJson entry.2 (sound.here entry member) (sound.under member)

-- Beside the features, a document has three members at most.
theorem exists_members (document : Document) : ∃ members, document.toJson = .obj members ∧
    Ordered.Distinct members ∧
    Ordered.get? members "features" = some (.obj (membersOf document.features)) ∧
    (decodeFeatures (membersOf document.features) = .ok document.features →
      decode members = .ok document) := by
  obtain ⟨version, name, description, features⟩ := document
  have distinct : Ordered.Distinct ([version.map fun version => ("version", Json.str version),
      some ("name", .str name), description.map fun text => ("description", .str text),
      some ("features", .obj (membersOf features))].filterMap id) := by
    cases version <;> cases description <;> simp [Ordered.Distinct]
  refine ⟨_, rfl, distinct, ?_, fun decoded => (decode_eq_ok distinct).mpr ?_⟩
  · cases version <;> cases description <;> rfl
  · cases version <;> cases description <;> exact ⟨rfl, rfl, rfl, decoded⟩

theorem ofNested_toJson {document : Document} (sound : SoundLevels document.features) :
    ofNested document.toJson = .ok document := by
  obtain ⟨members, written, -, found, decoded⟩ := exists_members document
  exact ofNested_eq_ok.mpr ⟨members, _, written, found, decoded sound.decodeFeatures_membersOf⟩

theorem ofFlattened_toJson {document : Document} (sound : SoundLevels document.features) :
    ofFlattened document.toJson =
      .ok { document with features := nestFeatures (membersOf document.features) } := by
  obtain ⟨members, written, distinct, found, decoded⟩ := exists_members document
  have beside := decode_swapErase distinct (decoded sound.decodeFeatures_membersOf)
  exact ofFlattened_eq_ok.mpr ⟨members, _, _, written, found, beside, rfl⟩

end Reading

end Toggles.Document
