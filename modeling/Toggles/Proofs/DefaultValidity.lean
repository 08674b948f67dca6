import Toggles.Proofs.Defaults
import Toggles.Proofs.Validation

/-! Default documents under the schema of their definition.

The document and the schema are made by separate recursions, and the schema refuses
what it does not list at three places: members of a document, features at the top level
and parameters. The only thing that can be wrong with a default document is a declared
default that its own parameter refuses.
-/

set_option autoImplicit false

namespace Toggles.Definition

open Json (Members)
open Validation (accepts)

section Declarations

/-- A parameter that is declared by some feature or by one under it. -/
inductive Declares : List (String × Feature) → String → Parameter → Prop where
  | here {features : List (String × Feature)} {entry : String × Feature} {key : String}
      {parameter : Parameter} (member : entry ∈ features)
      (declared : (key, parameter) ∈ entry.2.metadata.parameters) : Declares features key parameter
  | under {features : List (String × Feature)} {entry : String × Feature} {key : String}
      {parameter : Parameter} (member : entry ∈ features)
      (below : Declares entry.2.children key parameter) : Declares features key parameter

variable {key : String} {parameter : Parameter}

theorem not_declares_nil : ¬Declares [] key parameter := by
  intro declares
  cases declares with
  | here member => cases member
  | under member => cases member

theorem declares_cons {entry : String × Feature} {rest : List (String × Feature)} :
    Declares (entry :: rest) key parameter ↔ (key, parameter) ∈ entry.2.metadata.parameters ∨
      Declares entry.2.children key parameter ∨ Declares rest key parameter := by
  constructor
  · intro declares
    cases declares with
    | here member declared =>
        rcases List.mem_cons.mp member with rfl | member
        · exact .inl declared
        · exact .inr (.inr (.here member declared))
    | under member below =>
        rcases List.mem_cons.mp member with rfl | member
        · exact .inr (.inl below)
        · exact .inr (.inr (.under member below))
  · rintro (declared | below | others)
    · exact .here List.mem_cons_self declared
    · exact .under List.mem_cons_self below
    · cases others with
      | here member declared => exact .here (List.mem_cons_of_mem _ member) declared
      | under member below => exact .under (List.mem_cons_of_mem _ member) below

end Declarations

section Schemas
variable {value : Json}

theorem accepts_described {kind title text : String} :
    accepts (.obj (described kind title text)) value = true ↔
      Validation.hasType kind value = true := by
  rw [Validation.accepts_iff, described, Declaration.typed, List.singleton_append, Validation.check,
    Validation.checkKeywords_type, Validation.checkKeywords_annotation (by decide),
    Validation.checkKeywords_annotation (by decide), Validation.checkKeywords]
  exact and_iff_left rfl

/-- The members of a feature that the schema of the feature names fit it. -/
def Feature.Fits (feature : Feature) (object : Members) : Prop :=
  Validation.checkProperties (.obj object) (("enabled", enabledSchema) ::
    ("params", paramsSchema feature.metadata.parameters) :: featureSchemas feature.children) = []

-- A feature may have any other members.
theorem accepts_schema_iff {feature : Feature} (sound : SoundChildren feature.children)
    {name : String} : accepts (feature.schema name) value = true ↔
      ∃ object, value = .obj object ∧ feature.Fits object := by
  obtain ⟨metadata, children⟩ := feature
  rw [Validation.accepts_iff, Feature.schema, Feature.properties_eq sound, Validation.check]
  have fits : (∃ object, value = .obj object ∧ Feature.Fits ⟨metadata, children⟩ object) ↔
      Validation.hasType "object" value = true ∧ Validation.checkProperties value
        (("enabled", enabledSchema) :: ("params", paramsSchema metadata.parameters) ::
          featureSchemas children) = [] := by
    rw [Validation.hasType_object]
    constructor
    · rintro ⟨object, rfl, fits⟩
      exact ⟨⟨object, rfl⟩, fits⟩
    · rintro ⟨⟨object, rfl⟩, fits⟩
      exact ⟨object, rfl, fits⟩
  rw [fits]
  -- A description only adds an annotation in front of the properties.
  cases metadata.description with
  | none =>
      simp only [List.append_nil, List.cons_append, List.nil_append]
      rw [Validation.checkKeywords_type, Validation.checkKeywords_annotation (by decide),
        Validation.checkKeywords_properties, Validation.checkKeywords]
      simp only [and_true]
  | some text =>
      simp only [List.cons_append, List.nil_append]
      rw [Validation.checkKeywords_type, Validation.checkKeywords_annotation (by decide),
        Validation.checkKeywords_annotation (by decide), Validation.checkKeywords_properties,
        Validation.checkKeywords]
      simp only [and_true]

structure Tree.Fits (tree : Tree) (members features : Members) : Prop where
  known : ∀ name ∈ Ordered.keys members, name = "name" ∨ name = "description" ∨ name = "features"
  name : ∃ text, Ordered.get? members "name" = some (.str text)
  description : ∀ value, Ordered.get? members "description" = some value →
    ∃ text, value = .str text
  given : Ordered.get? members "features" = some (.obj features)
  declared : ∀ name ∈ Ordered.keys features, name ∈ Ordered.keys tree
  fit : Validation.checkProperties (.obj features) (featureSchemas tree) = []

theorem accepts_featureList {tree : Tree} : accepts (.obj [("type", .str "object"),
      ("title", .str "Feature list"), ("properties", .obj tree.featureProperties),
      ("additionalProperties", .bool false)]) value = true ↔
    ∃ features, value = .obj features ∧ (∀ name ∈ Ordered.keys features, name ∈ Ordered.keys tree) ∧
      Validation.checkProperties (.obj features) (featureSchemas tree) = [] := by
  rw [Validation.accepts_iff, Validation.check, Validation.checkKeywords_type,
    Validation.checkKeywords_annotation (by decide), Validation.checkKeywords_properties,
    Validation.hasType_object]
  constructor
  · rintro ⟨⟨features, rfl⟩, fit, closed⟩
    rw [Validation.checkKeywords_closed rfl, Tree.featureProperties, keys_featureSchemas] at closed
    exact ⟨features, rfl, closed.1, fit⟩
  · rintro ⟨features, rfl, declared, fit⟩
    rw [Validation.checkKeywords_closed rfl, Tree.featureProperties, keys_featureSchemas]
    exact ⟨⟨features, rfl⟩, fit, declared, rfl⟩

theorem accepts_versionSchema_iff {tree : Tree} : accepts tree.versionSchema value = true ↔
    ∃ members features, value = .obj members ∧ tree.Fits members features := by
  rw [Validation.accepts_iff, Tree.versionSchema, Validation.check,
    Validation.checkKeywords_annotation (by decide), Validation.checkKeywords_type,
    Validation.checkKeywords_properties, Validation.checkProperties_eq_nil, List.forall_mem_cons,
    List.forall_mem_cons, List.forall_mem_singleton, Validation.hasType_object]
  simp only [accepts_described, Validation.hasType_string, accepts_featureList]
  constructor
  · rintro ⟨⟨members, rfl⟩, ⟨name, description, features⟩, others⟩
    rw [Validation.checkKeywords_required, Validation.checkKeywords_closed rfl] at others
    obtain ⟨required, known, -⟩ := others
    obtain ⟨given, hasName⟩ := Option.isSome_iff_exists.mp
      (Ordered.isSome_get?.mpr (required "name" (by decide)))
    obtain ⟨text, rfl⟩ := name given hasName
    obtain ⟨given, hasFeatures⟩ := Option.isSome_iff_exists.mp
      (Ordered.isSome_get?.mpr (required "features" (by decide)))
    obtain ⟨list, rfl, declared, fit⟩ := features given hasFeatures
    exact ⟨members, list, rfl, by simpa using known, ⟨text, hasName⟩, description, hasFeatures,
      declared, fit⟩
  · rintro ⟨members, features, rfl, fits⟩
    obtain ⟨text, hasName⟩ := fits.name
    rw [Validation.checkKeywords_required, Validation.checkKeywords_closed rfl]
    refine ⟨⟨members, rfl⟩, ⟨?_, fits.description, ?_⟩, ?_, by simpa using fits.known, rfl⟩
    · intro member found
      exact ⟨text, Option.some.inj (found.symm.trans hasName)⟩
    · intro member found
      exact ⟨features, Option.some.inj (found.symm.trans fits.given), fits.declared, fits.fit⟩
    · simp [Json.asString?, ← Ordered.isSome_get?, hasName, fits.given]

end Schemas

section Parameters

/-- The default of a parameter, if there is one, is valid under its own schema. -/
def Parameter.ValidDefault (key : String) (parameter : Parameter) : Prop :=
  ∀ value, parameter.defaultValue = some value → accepts (parameter.schema key) value = true

theorem get?_defaultParams {parameters : Ordered Parameter} (distinct : Ordered.Distinct parameters)
    (key : String) : Ordered.get? (defaultParams parameters) key =
      (Ordered.get? parameters key).bind Parameter.defaultValue := by
  induction parameters with
  | nil => rfl
  | cons entry rest ih =>
      obtain ⟨name, first⟩ := entry
      obtain ⟨fresh, distinct⟩ := Ordered.distinct_cons.mp distinct
      cases declared : first.defaultValue with
      | none =>
          have skipped : defaultParams ((name, first) :: rest) = defaultParams rest := by
            simp [defaultParams, declared]
          rw [skipped, ih distinct, Ordered.get?]
          split
          · next same =>
              rw [Ordered.get?_eq_none.mpr (same ▸ fresh)]
              exact declared.symm
          · rfl
      | some value =>
          have taken : defaultParams ((name, first) :: rest) =
              (name, value) :: defaultParams rest := by
            simp [defaultParams, declared]
          rw [taken, Ordered.get?, Ordered.get?, ih distinct]
          split
          · exact declared.symm
          · rfl

theorem accepts_paramsSchema {parameters : Ordered Parameter}
    (distinct : Ordered.Distinct parameters) :
    accepts (paramsSchema parameters) (.obj (defaultParams parameters)) = true ↔
      ∀ entry ∈ parameters, entry.2.ValidDefault entry.1 := by
  have known : ∀ name ∈ Ordered.keys (defaultParams parameters),
      name ∈ Ordered.keys (parameters.map fun entry => (entry.1, entry.2.schema entry.1)) := by
    intro name member
    rw [← Ordered.isSome_get?, get?_defaultParams distinct] at member
    rw [← Ordered.isSome_get?, Ordered.get?_map]
    cases found : Ordered.get? parameters name with
    | none => simp [found] at member
    | some parameter => rfl
  have valid : Validation.checkProperties (.obj (defaultParams parameters))
      (parameters.map fun entry => (entry.1, entry.2.schema entry.1)) = [] ↔
        ∀ entry ∈ parameters, entry.2.ValidDefault entry.1 := by
    rw [Validation.checkProperties_eq_nil, List.forall_mem_map]
    refine forall₂_congr fun entry member => ?_
    rw [Json.member?, get?_defaultParams distinct, Ordered.get?_of_mem distinct member]
    rfl
  simp only [Validation.accepts_iff, paramsSchema, described, Declaration.typed, Validation.check,
    List.cons_append, List.nil_append]
  rw [Validation.checkKeywords_type, Validation.checkKeywords_annotation (by decide),
    Validation.checkKeywords_annotation (by decide), Validation.checkKeywords_properties,
    Validation.checkKeywords_closed rfl, valid]
  exact ⟨fun checked => checked.2.1, fun checked => ⟨rfl, checked, known, rfl⟩⟩

end Parameters

section Features

-- The default state of a feature fits its schema exactly when its parameters have
-- valid defaults and its children fit theirs.
theorem accepts_schema {feature : Feature} (sound : SoundChildren feature.children)
    (distinct : Ordered.Distinct feature.metadata.parameters) (name : String) :
    accepts (feature.schema name) (.obj feature.defaultMembers) = true ↔
      (∀ entry ∈ feature.metadata.parameters, entry.2.ValidDefault entry.1) ∧
        Validation.checkProperties (.obj feature.defaultMembers)
          (featureSchemas feature.children) = [] := by
  have enabled : accepts enabledSchema (.bool true) = true := by decide
  have fits : accepts (feature.schema name) (.obj feature.defaultMembers) = true ↔
      feature.Fits feature.defaultMembers := by
    rw [accepts_schema_iff sound]
    exact ⟨fun ⟨_, same, fits⟩ => Json.obj.inj same ▸ fits, fun fits => ⟨_, rfl, fits⟩⟩
  rw [fits, Feature.Fits, ← accepts_paramsSchema distinct]
  simp only [Validation.checkProperties_eq_nil, List.forall_mem_cons,
    Feature.defaultMembers_eq sound]
  simp [Json.member?, Ordered.get?, enabled]

theorem get?_defaultsOf {features : List (String × Feature)} (distinct : Ordered.Distinct features)
    {entry : String × Feature} (member : entry ∈ features) :
    Ordered.get? (defaultsOf features) entry.1 = some (.obj entry.2.defaultMembers) := by
  have lookup := Ordered.get?_map (fun _ feature => Json.obj (Feature.defaultMembers feature))
    features entry.1
  rw [defaultsOf_eq_map, lookup, Ordered.get?_of_mem distinct member, Option.map_some]

-- The children of a feature are found among its members by their names.
theorem get?_defaultMembers {feature : Feature} (sound : SoundChildren feature.children)
    {entry : String × Feature} (member : entry ∈ feature.children) :
    Ordered.get? feature.defaultMembers entry.1 = some (.obj entry.2.defaultMembers) := by
  have unreserved := sound.unreserved entry.1 (Ordered.mem_keys.mpr ⟨entry.2, member⟩)
  have apart := notMem_reservedNames.mp unreserved
  rw [Feature.defaultMembers_eq sound, Ordered.get?, if_neg apart.1.symm, Ordered.get?,
    if_neg apart.2.1.symm, get?_defaultsOf sound.distinct member]

-- Features that are found among some members by their names fit their schemas there
-- exactly when all defaults that are declared by and under them are valid.
theorem checkProperties_featureSchemas {members : Members} :
    (features : List (String × Feature)) →
    (∀ entry ∈ features, SoundChildren entry.2.children) →
    (∀ entry ∈ features, DistinctParameters entry.2) →
    (∀ entry ∈ features, Ordered.get? members entry.1 = some (.obj entry.2.defaultMembers)) →
    (Validation.checkProperties (.obj members) (featureSchemas features) = [] ↔
      ∀ key parameter, Declares features key parameter → parameter.ValidDefault key)
  | [], _, _, _ => by
      simp [featureSchemas, Validation.checkProperties, not_declares_nil]
  | (name, ⟨metadata, children⟩) :: rest, sound, distinct, found => by
      obtain ⟨firstSound, sound⟩ := List.forall_mem_cons.mp sound
      obtain ⟨firstDistinct, distinct⟩ := List.forall_mem_cons.mp distinct
      obtain ⟨first, found⟩ := List.forall_mem_cons.mp found
      have below := checkProperties_featureSchemas children firstSound.under firstDistinct.under
        fun entry member => get?_defaultMembers firstSound member
      have others := checkProperties_featureSchemas rest sound distinct found
      rw [Validation.checkProperties_eq_nil] at others
      rw [featureSchemas, Validation.checkProperties_eq_nil, List.forall_mem_cons, others,
        Json.member?, first]
      simp only [Option.some.injEq, forall_eq', declares_cons]
      rw [accepts_schema firstSound firstDistinct.here, below]
      simp only [Prod.forall]
      constructor
      · rintro ⟨⟨here, under⟩, after⟩ key parameter (declared | declared | declared)
        · exact here key parameter declared
        · exact under key parameter declared
        · exact after key parameter declared
      · intro valid
        refine ⟨⟨fun key parameter declared => ?_, fun key parameter declared => ?_⟩,
          fun key parameter declared => ?_⟩
        · exact valid key parameter (.inl declared)
        · exact valid key parameter (.inr (.inl declared))
        · exact valid key parameter (.inr (.inr declared))

end Features

theorem accepts_versionSchema (tree : Tree) (label : VersionLabel) :
    accepts tree.versionSchema (tree.defaultDocument label) = true ↔
      Validation.checkProperties (.obj (defaultsOf tree)) (featureSchemas tree) = [] := by
  rw [accepts_versionSchema_iff, Tree.defaultDocument]
  constructor
  · rintro ⟨_, features, ⟨⟩, fits⟩
    have same : tree.defaultFeatures = features := by simpa [Ordered.get?] using fits.given
    rw [Tree.defaultFeatures] at same
    exact same ▸ fits.fit
  · intro fit
    refine ⟨_, defaultsOf tree, rfl, by simp, ⟨label.name, rfl⟩, ?_, rfl, ?_, fit⟩
    · rintro _ ⟨⟩
      exact ⟨label.description, rfl⟩
    · rw [keys_defaultsOf]
      exact fun _ member => member

/-- The default document of a definition that has been read fits the schema of the
definition exactly when every declared default, null included, is valid under the schema
of its own parameter. -/
theorem accepts_defaultDocument {value : Json} {tree : Tree} (proper : value.Proper)
    (read : Tree.read value = .ok tree) (label : VersionLabel) :
    accepts tree.versionSchema (tree.defaultDocument label) = true ↔
      ∀ key parameter, Declares tree key parameter → ∀ default,
        parameter.defaultValue = some default →
          accepts (parameter.schema key) default = true := by
  have distinct : Ordered.Distinct tree := by
    cases value with
    | obj members =>
        rw [Ordered.Distinct, Tree.keys_of_read read]
        exact proper.1
    | null | bool | int | float | str | arr => contradiction
  rw [accepts_versionSchema]
  exact checkProperties_featureSchemas tree (Tree.sound_of_read read)
    (Tree.holds_of_read distinctParameters_invariant proper read)
    fun entry member => get?_defaultsOf distinct member

/-- A default of null is none for a parameter that is a string for want of a type. -/
theorem accepts_defaultDocument_sample :
    sampleDefinition.Proper ∧ Tree.read sampleDefinition = .ok sampleTree ∧
      ¬accepts sampleTree.versionSchema (sampleTree.defaultDocument .standard) = true := by
  have proper : sampleDefinition.Proper := by decide
  have read : Tree.read sampleDefinition = .ok sampleTree := rfl
  refine ⟨proper, read, fun accepted => ?_⟩
  have valid := (accepts_defaultDocument proper read .standard).mp accepted "hint"
    { Parameter.blank with defaultValue := some .null }
    (.here List.mem_cons_self (List.mem_cons_of_mem _ (List.mem_cons_of_mem _ List.mem_cons_self)))
    .null rfl
  revert valid
  decide

end Toggles.Definition
