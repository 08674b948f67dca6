import Toggles.Proofs.Defaults
import Toggles.Proofs.NestedForm
import Toggles.Proofs.Writing

/-! Nested features as a normal form.

Nesting leaves no objects beside the state of a feature and no empty map of children. What
is written of such features has every child among the children of its parent alone, so that
both readers find the same features in it, and writing them again changes nothing.
-/

set_option autoImplicit false

namespace Toggles.Document

open Json (Members)
open Definition (reservedNames HaveDefaultStates)

section Settling

/-- A feature that nesting leaves as it is, if it does so with the features under it. -/
structure Feature.Settled (feature : Feature) : Prop where
  soundExtra : feature.SoundExtra
  noObjects : ∀ member ∈ feature.extra, member.2.isObject = false
  filled : feature.children ≠ some []

abbrev SettledLevels : Features → Prop :=
  EveryLevel (EachFeature Feature.Settled)

variable {members object : Members}

theorem mem_nestFeatures {entry : String × Feature} (member : entry ∈ nestFeatures members) :
    ∃ object, (entry.1, .obj object) ∈ members ∧ entry.2 = describedFeature object := by
  induction members with
  | nil => cases member
  | cons first rest ih =>
      obtain ⟨name, value⟩ := first
      rw [nestFeatures, nestFeature?_eq] at member
      cases value with
      | obj object =>
          rcases List.mem_cons.mp member with rfl | member
          · exact ⟨object, List.mem_cons_self, rfl⟩
          · obtain ⟨under, present, same⟩ := ih member
            exact ⟨under, List.mem_cons_of_mem _ present, same⟩
      | null | bool | int | float | str | arr =>
          obtain ⟨under, present, same⟩ := ih member
          exact ⟨under, List.mem_cons_of_mem _ present, same⟩

-- A child comes from the children of an object or from beside its state.
theorem mem_childFeatures {entry : String × Feature} (proper : (Json.obj object).Proper)
    (member : entry ∈ (describedFeature object).childFeatures) :
    ∃ under, (Json.obj under).Proper ∧ entry.2 = describedFeature under := by
  have given {members : Members} (sound : Json.ProperMembers members)
      (member : entry ∈ nestFeatures members) :
      ∃ under, (Json.obj under).Proper ∧ entry.2 = describedFeature under := by
    obtain ⟨under, present, same⟩ := mem_nestFeatures member
    exact ⟨under, Json.properMembers_iff.mp sound _ present, same⟩
  rw [describedFeature_childFeatures] at member
  rcases Ordered.mem_insertAll member with explicit | sibling
  · cases found : objectAt? object "children" with
    | none =>
        rw [found] at explicit
        cases explicit
    | some children =>
        rw [found] at explicit
        exact given (objectAt?_proper proper found).2 explicit
  · refine given (Json.properMembers_iff.mpr fun other present => ?_) sibling
    exact Json.properMembers_iff.mp proper.2 other (List.mem_of_mem_filter present)

theorem settled_describedFeature (distinct : Ordered.Distinct object) :
    (describedFeature object).Settled := by
  have extra := (describedFeature_hasStateOf object).extra
  have kept : ∀ member ∈ extraMembers object,
      member.1 ∉ reservedNames ∧ member.2.isObject = false := by
    intro member present
    simpa using (List.mem_filter.mp present).2
  constructor
  case soundExtra =>
    refine ⟨extra ▸ distinct.filter _, fun name member => ?_⟩
    rw [extra] at member
    obtain ⟨value, present⟩ := Ordered.mem_keys.mp member
    exact (kept _ present).1
  case noObjects =>
    rw [extra]
    exact fun member present => (kept member present).2
  case filled =>
    rw [describedFeature, Flattened.toFeature]
    split
    · simp
    · next filled => simpa using filled

-- The induction is on the feature, which has become smaller than its object.
theorem settled_nestFeatures (proper : (Json.obj members).Proper) :
    SettledLevels (nestFeatures members) := by
  have described : ∀ feature : Feature, ∀ object, (Json.obj object).Proper →
      feature = describedFeature object →
        feature.Settled ∧ SettledLevels feature.childFeatures := by
    intro feature
    induction feature using Feature.induction_children with
    | step feature ih =>
        rintro object proper rfl
        refine ⟨settled_describedFeature proper.1, everyLevel_of_each fun entry member => ?_⟩
        obtain ⟨under, proper, same⟩ := mem_childFeatures proper member
        exact ih entry member under proper same
  refine everyLevel_of_each fun entry member => ?_
  obtain ⟨object, present, same⟩ := mem_nestFeatures member
  exact described entry.2 object (Json.properMembers_iff.mp proper.2 _ present) same

end Settling

section Renesting
variable {feature : Feature} {features : Features}

-- Every part of a settled feature is found again in what is written of it.
theorem Feature.Settled.describedFeature_members (settled : feature.Settled)
    (below : nestFeatures (membersOf feature.childFeatures) = feature.childFeatures) :
    describedFeature feature.members = feature := by
  have parts := partsOf_flattenedParts feature.members
  have sound := settled.soundExtra
  have enabled : (flattenedParts feature.members).enabled = feature.enabled := by
    rw [parts.enabled, sound.get?_members]
    rfl
  have params : (flattenedParts feature.members).params = feature.params := by
    rw [parts.params, objectAt?, sound.get?_members, sound.get?_eq_none (by decide), Option.or_none,
      stateMember?]
    cases feature.params <;> rfl
  have explicit : (flattenedParts feature.members).explicit = feature.childFeatures := by
    rw [parts.explicit, ← below, objectAt?, sound.get?_members, sound.get?_eq_none (by decide),
      Option.or_none, stateMember?, childFeatures]
    cases feature.children <;> rfl
  have siblings : (flattenedParts feature.members).siblings = [] := by
    rw [parts.siblings, sound.unreservedMembers_eq]
    exact nestFeatures_eq_nil settled.noObjects
  have extra : (flattenedParts feature.members).extra = feature.extra := by
    have kept : extraMembers feature.members =
        (unreservedMembers feature.members).filter fun member => !member.2.isObject := by
      simp only [extraMembers, unreservedMembers, List.filter_filter, Bool.and_comm]
    rw [parts.extra, kept, sound.unreservedMembers_eq]
    exact List.filter_eq_self.mpr fun member present => by simp [settled.noObjects member present]
  have children : (if feature.childFeatures.isEmpty then none else some feature.childFeatures) =
      feature.children := by
    have filled := settled.filled
    rw [childFeatures]
    cases given : feature.children with
    | none => rfl
    | some children =>
        rw [given] at filled
        cases children with
        | nil => contradiction
        | cons first rest => rfl
  rw [describedFeature, Flattened.toFeature, enabled, params, explicit, siblings, extra]
  obtain ⟨_, _, _, _⟩ := feature
  exact congrArg (fun children => Feature.mk _ _ children _) children

theorem nestFeatures_membersOf
    (each : ∀ entry ∈ features, describedFeature entry.2.members = entry.2) :
    nestFeatures (membersOf features) = features := by
  induction features with
  | nil => rfl
  | cons entry rest ih =>
      obtain ⟨first, each⟩ := List.forall_mem_cons.mp each
      rw [membersOf, nestFeatures, nestFeature?_eq, Json.asObject?, Option.map_some, first, ih each]

theorem SettledLevels.nestFeatures_membersOf (settled : SettledLevels features) :
    nestFeatures (membersOf features) = features := by
  have described : ∀ feature : Feature, feature.Settled →
      SettledLevels feature.childFeatures → describedFeature feature.members = feature := by
    intro feature
    induction feature using Feature.induction_children with
    | step feature ih =>
        intro here below
        refine here.describedFeature_members (Document.nestFeatures_membersOf fun entry member => ?_)
        exact ih entry member (below.here entry member) (below.under member)
  exact Document.nestFeatures_membersOf fun entry member =>
    described entry.2 (settled.here entry member) (settled.under member)

theorem SettledLevels.sound (settled : SettledLevels features) : SoundLevels features :=
  EveryLevel.imp settled fun _ each entry member => (each entry member).soundExtra

end Renesting

section Rereading

inductive Form where
  | nested
  | flattened
  deriving DecidableEq, Repr

def Form.read : Form → Json → Except ReadError Document
  | .nested => ofNested
  | .flattened => ofFlattened

/-- Write a document and read it again in each of some forms, one after the other. -/
def reread (document : Document) (forms : List Form) : Except ReadError Document :=
  forms.foldlM (fun current form => form.read current.toJson) document

/-- A document stays the same however often it is written and in whichever forms it is
read again. -/
def Lasting (document : Document) : Prop :=
  ∀ forms, document.reread forms = .ok document

variable {document : Document}

-- One step: either reader gives a settled document back.
theorem read_toJson (settled : SettledLevels document.features) (form : Form) :
    form.read document.toJson = .ok document := by
  cases form with
  | nested => exact ofNested_toJson settled.sound
  | flattened => rw [Form.read, ofFlattened_toJson settled.sound, settled.nestFeatures_membersOf]

theorem lasting_of_settled (settled : SettledLevels document.features) :
    document.Lasting := by
  intro forms
  induction forms with
  | nil => rfl
  | cons form rest ih =>
      rw [reread, List.foldlM_cons, read_toJson settled]
      exact ih

/-- The documents that last are those whose features have been nested. -/
theorem lasting_iff (proper : document.toJson.Proper) : document.Lasting ↔
    ∃ features, (Json.obj features).Proper ∧ document.features = nestFeatures features := by
  constructor
  · intro lasting
    have read : ofFlattened document.toJson = .ok document := by
      simpa [reread, Form.read] using lasting [.flattened]
    obtain ⟨members, features, beside, given, present, -, nested⟩ := ofFlattened_eq_ok.mp read
    rw [given] at proper
    exact ⟨features, proper.2.get? present, nested ▸ rfl⟩
  · rintro ⟨features, proper, same⟩
    exact lasting_of_settled (same ▸ settled_nestFeatures proper)

end Rereading

section Defaults

-- A feature in its default state has no members but its state, and children only if there
-- are any.
theorem settled_of_haveDefaultStates : (features : List (String × Definition.Feature)) →
    {states : Features} → HaveDefaultStates features states → SettledLevels states
  | [], states, same => by
      rw [HaveDefaultStates] at same
      exact same ▸ everyLevel_of_each (by simp)
  | (name, ⟨metadata, children⟩) :: rest, states, same => by
      rw [HaveDefaultStates] at same
      obtain ⟨state, others, rfl, here, same⟩ := same
      rw [Definition.Feature.HasDefaultState] at here
      obtain ⟨-, -, noExtra, leaf, below⟩ := here
      have after := settled_of_haveDefaultStates rest same
      have filled : state.children ≠ some [] := by
        intro empty
        have names := Definition.keys_of_haveDefaultStates below
        rw [Feature.childFeatures, empty] at names
        have none : children = [] := List.map_eq_nil_iff.mp names.symm
        rw [leaf.mpr none] at empty
        contradiction
      have settled : state.Settled :=
        ⟨⟨noExtra ▸ List.nodup_nil, by simp [noExtra]⟩, by simp [noExtra], filled⟩
      refine everyLevel_of_each (List.forall_mem_cons.mpr ⟨⟨settled, ?_⟩, fun entry member => ?_⟩)
      · exact settled_of_haveDefaultStates children below
      · exact ⟨after.here entry member, after.under member⟩

end Defaults

/-- Nesting what is written of nested features gives them back, and both readers read a
document of them as it was written, however often that is done. This goes for every
document with nested features, and so for the nested default documents of a definition. -/
theorem nestFeatures_normalForm :
    (∀ features : Members, (Json.obj features).Proper →
      nestFeatures (membersOf (nestFeatures features)) = nestFeatures features ∧
      (∀ (name : String) (form : Form), form.read (.obj [("name", .str name),
          ("features", .obj (membersOf (nestFeatures features)))]) =
        .ok ⟨none, name, none, nestFeatures features⟩) ∧
      ∀ document : Document, document.features = nestFeatures features → document.Lasting) ∧
    ∀ (source : Json) (tree : Definition.Tree) (label : Definition.VersionLabel),
      Definition.Tree.read source = .ok tree → (tree.nestedDefaultDocument label).Lasting := by
  refine ⟨fun features proper => ?_, fun source tree label read => ?_⟩
  · have settled := settled_nestFeatures proper
    refine ⟨settled.nestFeatures_membersOf, fun name form => ?_, fun document same => ?_⟩
    · exact @read_toJson ⟨none, name, none, nestFeatures features⟩ settled form
    · exact lasting_of_settled (same ▸ settled)
  · have states := Definition.haveDefaultStates_nestFeatures tree (Definition.Tree.sound_of_read read)
    exact lasting_of_settled (settled_of_haveDefaultStates tree states)

def sampleUnsettled : Members :=
  [("search", .obj [
      ("params", .arr []),
      ("ranking", .obj [("enabled", .bool true), ("children", .str "none")]),
      ("note", .null),
      ("enabled", .str "yes"),
      ("children", .obj [
        ("ranking", .obj [("weight", .int 3)]),
        ("enabled", .obj [("children", .obj [])]),
        ("limit", .int 10)])]),
    ("version", .int 2)]

/-- What is no state is dropped, and the child beside the children takes the place of the
one among them. -/
theorem nestFeatures_normalForm_sample :
    (Json.obj sampleUnsettled).Proper ∧
      membersOf (nestFeatures sampleUnsettled) = [("search", .obj [
        ("enabled", .bool false),
        ("children", .obj [
          ("ranking", .obj [("enabled", .bool true)]),
          ("enabled", .obj [("enabled", .bool false)])]),
        ("note", .null)])] ∧
      nestFeatures (membersOf (nestFeatures sampleUnsettled)) = nestFeatures sampleUnsettled ∧
      Lasting ⟨some "2", "enterprise", none, nestFeatures sampleUnsettled⟩ ∧
      Definition.Tree.read Definition.sampleDefinition = .ok Definition.sampleTree ∧
      (Definition.sampleTree.nestedDefaultDocument .standard).Lasting := by
  have proper : (Json.obj sampleUnsettled).Proper := by decide
  have read : Definition.Tree.read Definition.sampleDefinition = .ok Definition.sampleTree := rfl
  obtain ⟨nested, defaults⟩ := nestFeatures_normalForm
  obtain ⟨same, -, lasting⟩ := nested sampleUnsettled proper
  exact ⟨proper, rfl, same, lasting _ rfl, read, defaults _ _ .standard read⟩

end Toggles.Document
