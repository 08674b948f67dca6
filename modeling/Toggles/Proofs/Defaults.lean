import Toggles.Definition.Defaults
import Toggles.Definition.Schema
import Toggles.Proofs.Definition
import Toggles.Proofs.Document

/-! Views of a definition.

The default document in either form and the schema of a version are made by
recursions of their own. All of them follow the definition: the same names in the
same order on every level.
-/

set_option autoImplicit false

namespace Toggles.Definition

open Json (Members)
open Document (nestFeatures flattenedParts nestFeature? Flattened)

section States

/-- Exactly the parameters that declare a default, in their order, with that default. -/
def DeclaredDefaults (parameters : Ordered Parameter) (members : Members) : Prop :=
  List.Forall₂ (fun entry member => entry.1 = member.1 ∧ entry.2.defaultValue = some member.2)
    (parameters.filter fun entry => entry.2.defaultValue.isSome) members

mutual

/-- A feature is enabled, has the declared defaults and nothing else, and under it
are the children of its definition in the same state. -/
def Feature.HasDefaultState : Feature → Document.Feature → Prop
  | ⟨metadata, children⟩, state =>
      state.enabled = true ∧
      (∃ params, state.params = some params ∧ DeclaredDefaults metadata.parameters params) ∧
      state.extra = [] ∧
      (state.children = none ↔ children = []) ∧
      HaveDefaultStates children state.childFeatures

/-- Features of the same names in the same order, all in their default state. -/
def HaveDefaultStates : List (String × Feature) → Document.Features → Prop
  | [], states => states = []
  | (name, feature) :: rest, states => ∃ state others,
      states = (name, state) :: others ∧ feature.HasDefaultState state ∧
        HaveDefaultStates rest others

end

theorem declaredDefaults_defaultParams (parameters : Ordered Parameter) :
    DeclaredDefaults parameters (defaultParams parameters) := by
  induction parameters with
  | nil => exact .nil
  | cons entry rest ih =>
      obtain ⟨name, parameter⟩ := entry
      cases declared : parameter.defaultValue with
      | none => simpa [DeclaredDefaults, defaultParams, declared] using ih
      | some value =>
          simp only [DeclaredDefaults, defaultParams, declared, List.filter_cons, Option.isSome_some,
            ↓reduceIte, List.filterMap_cons, Option.map_some]
          exact .cons ⟨rfl, declared⟩ ih

theorem keys_of_haveDefaultStates {features : List (String × Feature)} {states : Document.Features}
    (same : HaveDefaultStates features states) : Ordered.keys states = Ordered.keys features := by
  induction features generalizing states with
  | nil =>
      rw [HaveDefaultStates] at same
      rw [same]
      rfl
  | cons entry rest ih =>
      rw [HaveDefaultStates] at same
      obtain ⟨state, others, rfl, -, same⟩ := same
      simp [ih same]

theorem defaultsOf_eq_map (features : List (String × Feature)) :
    defaultsOf features = features.map fun entry => (entry.1, .obj entry.2.defaultMembers) := by
  induction features with
  | nil => rfl
  | cons entry rest ih => rw [defaultsOf, ih, List.map_cons]

theorem keys_defaultsOf (features : List (String × Feature)) :
    Ordered.keys (defaultsOf features) = Ordered.keys features := by
  simp [defaultsOf_eq_map, Ordered.keys]

-- The children of a feature never take the place of its state.
theorem Feature.defaultMembers_eq {feature : Feature} (sound : SoundChildren feature.children) :
    feature.defaultMembers = ("enabled", .bool true) ::
      ("params", .obj (defaultParams feature.metadata.parameters)) ::
        defaultsOf feature.children := by
  obtain ⟨metadata, children⟩ := feature
  have distinct : Ordered.Distinct (defaultsOf children) := by
    simpa only [Ordered.Distinct, keys_defaultsOf] using sound.distinct
  rw [defaultMembers, Ordered.insertAll_of_fresh distinct]
  · rfl
  · intro name member found
    rw [keys_defaultsOf] at member
    exact sound.unreserved name member (by simp_all [reservedNames]; grind)

-- Objects that are not reserved are flattened children.
theorem flattenedParts_defaultsOf {features : List (String × Feature)}
    (unreserved : ∀ name ∈ Ordered.keys features, name ∉ reservedNames) :
    flattenedParts (defaultsOf features) =
      ⟨false, none, [], nestFeatures (defaultsOf features), []⟩ := by
  induction features with
  | nil => rfl
  | cons entry rest ih =>
      obtain ⟨name, feature⟩ := entry
      obtain ⟨first, unreserved⟩ := List.forall_mem_cons.mp unreserved
      have apart := notMem_reservedNames.mp first
      rw [defaultsOf, flattenedParts, ih unreserved]
      simp [apart, nestFeature?, nestFeatures]

-- Nesting the default features of sound children gives their default states: there
-- is no explicit child whose place a flattened one could take.
theorem haveDefaultStates_nestFeatures : (features : List (String × Feature)) →
    (∀ entry ∈ features, SoundChildren entry.2.children) →
    HaveDefaultStates features (nestFeatures (defaultsOf features))
  | [], _ => by
      rw [defaultsOf, nestFeatures, HaveDefaultStates]
  | (name, ⟨metadata, children⟩) :: rest, sound => by
      obtain ⟨first, sound⟩ := List.forall_mem_cons.mp sound
      have below := haveDefaultStates_nestFeatures children first.under
      have distinct : Ordered.Distinct (nestFeatures (defaultsOf children)) := by
        simpa only [Ordered.Distinct, keys_of_haveDefaultStates below] using first.distinct
      have nested : nestFeature? (.obj (Feature.mk metadata children).defaultMembers) =
          some (Flattened.toFeature ⟨true, some (defaultParams metadata.parameters), [],
            nestFeatures (defaultsOf children), []⟩) := by
        rw [Feature.defaultMembers_eq first, nestFeature?]
        simp [flattenedParts, flattenedParts_defaultsOf first.unreserved, Json.asBool?,
          Json.asObject?]
      rw [defaultsOf, nestFeatures, nested, HaveDefaultStates]
      refine ⟨_, _, rfl, ?_, haveDefaultStates_nestFeatures rest sound⟩
      rw [Feature.HasDefaultState, Flattened.toFeature_childFeatures,
        Ordered.insertAll_nil _ distinct]
      refine ⟨rfl, ⟨_, rfl, declaredDefaults_defaultParams metadata.parameters⟩, rfl, ?_, below⟩
      simp only [Flattened.toFeature, Ordered.insertAll_nil _ distinct, List.isEmpty_iff]
      -- Both lists have the same names, so they are empty together.
      have same := keys_of_haveDefaultStates below
      cases children with
      | nil => simp [defaultsOf, nestFeatures]
      | cons entry others =>
          have filled : nestFeatures (defaultsOf (entry :: others)) ≠ [] := by
            intro empty
            simp [empty] at same
          simp [filled]

end States

section Forms

-- The flattened form of the default document is read as the nested one.
theorem ofFlattened_defaultDocument (tree : Tree) (label : VersionLabel) :
    Document.ofFlattened (tree.defaultDocument label) = .ok (tree.nestedDefaultDocument label) :=
  rfl

end Forms

section Schemas

def listed? (schema : Json) : Option Members :=
  (schema.member? "properties").bind Json.asObject?

mutual

/-- A schema lists the state of a feature, then its children, and nothing else. -/
def Feature.ListedBy : Feature → Json → Prop
  | ⟨_, children⟩, schema => ∃ enabled params others,
      listed? schema = some (("enabled", enabled) :: ("params", params) :: others) ∧
        "children" ∉ Ordered.keys others ∧ ListedIn children others

/-- Schemas of the same names in the same order, each of which lists its feature. -/
def ListedIn : List (String × Feature) → Members → Prop
  | [], listed => listed = []
  | (name, feature) :: rest, listed => ∃ schema others,
      listed = (name, schema) :: others ∧ feature.ListedBy schema ∧ ListedIn rest others

end

theorem featureSchemas_eq_map (features : List (String × Feature)) :
    featureSchemas features = features.map fun entry => (entry.1, entry.2.schema entry.1) := by
  induction features with
  | nil => rfl
  | cons entry rest ih => rw [featureSchemas, ih, List.map_cons]

theorem keys_featureSchemas (features : List (String × Feature)) :
    Ordered.keys (featureSchemas features) = Ordered.keys features := by
  simp [featureSchemas_eq_map, Ordered.keys]

-- The schemas of children never take the place of those of the state.
theorem Feature.properties_eq {children : List (String × Feature)} (sound : SoundChildren children)
    (enabled params : Json) :
    Ordered.insertAll [("enabled", enabled), ("params", params)] (featureSchemas children) =
      ("enabled", enabled) :: ("params", params) :: featureSchemas children := by
  have distinct : Ordered.Distinct (featureSchemas children) := by
    simpa only [Ordered.Distinct, keys_featureSchemas] using sound.distinct
  rw [Ordered.insertAll_of_fresh distinct]
  · rfl
  · intro name member found
    rw [keys_featureSchemas] at member
    exact sound.unreserved name member (by simp_all [reservedNames]; grind)

theorem listed?_schema {metadata : Metadata} {children : List (String × Feature)}
    (sound : SoundChildren children) (name : String) :
    listed? (Feature.schema name ⟨metadata, children⟩) =
      some (("enabled", enabledSchema) :: ("params", paramsSchema metadata.parameters) ::
        featureSchemas children) := by
  rw [Feature.schema, Feature.properties_eq sound]
  cases metadata.description <;>
    rfl

theorem listedIn_featureSchemas : (features : List (String × Feature)) →
    (∀ entry ∈ features, SoundChildren entry.2.children) →
    ListedIn features (featureSchemas features)
  | [], _ => by
      rw [featureSchemas, ListedIn]
  | (name, ⟨metadata, children⟩) :: rest, sound => by
      obtain ⟨first, sound⟩ := List.forall_mem_cons.mp sound
      rw [featureSchemas, ListedIn]
      refine ⟨_, _, rfl, ?_, listedIn_featureSchemas rest sound⟩
      rw [Feature.ListedBy]
      refine ⟨_, _, _, listed?_schema first name, ?_, listedIn_featureSchemas children first.under⟩
      intro member
      rw [keys_featureSchemas] at member
      exact first.unreserved "children" member (by decide)

end Schemas

/-- The default document in either form and the schema of a definition that has been
read show the same features in the same order on every level. -/
theorem views_of_read {value : Json} {tree : Tree} (read : Tree.read value = .ok tree)
    (label : VersionLabel) :
    HaveDefaultStates tree (tree.nestedDefaultDocument label).features ∧
      Document.ofFlattened (tree.defaultDocument label) = .ok (tree.nestedDefaultDocument label) ∧
      ∃ features listed,
        (listed? tree.versionSchema).bind (Ordered.get? · "features") = some features ∧
          listed? features = some listed ∧ ListedIn tree listed := by
  have sound := Tree.sound_of_read read
  refine ⟨?_, ofFlattened_defaultDocument tree label, ?_⟩
  · exact haveDefaultStates_nestFeatures tree sound
  · exact ⟨_, featureSchemas tree, rfl, rfl, listedIn_featureSchemas tree sound⟩

def sampleDefinition : Json :=
  .obj [("search", .obj [
      ("title", .str "Search"),
      ("params", .obj [
        ("limit", .obj [("type", .str "number"), ("default", .int 10)]),
        ("mode", .obj [("type", .str "string")]),
        ("hint", .obj [("default", .null)])]),
      ("children", .obj [("title", .obj [("enabled", .bool false)])]),
      ("ranking", .obj [("params", .obj [("depth", .obj [("default", .int 2)])])])]),
    ("export", .obj [])]

def sampleTree : Tree :=
  [("search", ⟨{ Metadata.blank with
        title := some "Search",
        parameters := [
          ("limit", { Parameter.blank with kind := some "number", defaultValue := some (.int 10) }),
          ("mode", { Parameter.blank with kind := some "string" }),
          ("hint", { Parameter.blank with defaultValue := some .null })] },
      [("title", ⟨{ Metadata.blank with enabled := false }, []⟩),
        ("ranking", ⟨{ Metadata.blank with
          parameters := [("depth", { Parameter.blank with defaultValue := some (.int 2) })] }, []⟩)]⟩),
    ("export", ⟨.blank, []⟩)]

theorem views_of_read_sample :
    Tree.read sampleDefinition = .ok sampleTree ∧
      HaveDefaultStates sampleTree (sampleTree.nestedDefaultDocument .standard).features :=
  ⟨rfl, (views_of_read (show Tree.read sampleDefinition = .ok sampleTree from rfl) .standard).1⟩

end Toggles.Definition
