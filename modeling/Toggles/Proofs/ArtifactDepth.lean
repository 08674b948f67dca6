import Toggles.Proofs.Defaults
import Toggles.Proofs.Depth
import Toggles.Proofs.NormalForm
import Toggles.Proofs.Writing

/-! The depth of generated artifacts.

A feature that lies `depth` deep in a definition is nested `2 * depth + 2` times in the schema
of a version, once in the properties of its parent and once in its own schema. In the nested
default document it is nested `2 * depth` times and in the flattened one `depth + 1` times.
What is said of a feature itself adds a tail of its own. Only the flattened default document
nests no deeper than the definition that it is made of.
-/

set_option autoImplicit false

namespace Toggles.Definition

open Declaration (typed)
open Json (Members Within within_obj within_arr within_str within_bool)

/-- What holds of the metadata of a feature, at the depth where the feature lies, and of
those of all features under it. -/
inductive Feature.Everywhere (holds : Nat → Metadata → Prop) : Nat → Feature → Prop where
  | feature {depth : Nat} {feature : Feature} (here : holds depth feature.metadata)
      (under : ∀ entry ∈ feature.children, Everywhere holds (depth + 1) entry.2) :
      Everywhere holds depth feature

def Tree.Everywhere (holds : Nat → Metadata → Prop) (tree : Tree) : Prop :=
  ∀ entry ∈ tree, entry.2.Everywhere holds 1

section Features
variable {holds : Nat → Metadata → Prop} {depth : Nat} {feature : Feature}

theorem Feature.everywhere_iff : feature.Everywhere holds depth ↔
    holds depth feature.metadata ∧ ∀ entry ∈ feature.children, entry.2.Everywhere holds (depth + 1) := by
  constructor
  · rintro ⟨here, under⟩
    exact ⟨here, under⟩
  · rintro ⟨here, under⟩
    exact .feature here under

end Features

section Schemas
variable {limit level depth : Nat}

theorem within_described {kind title description : String} :
    (∀ member ∈ described kind title description, Within limit level member.2) ↔ level ≤ limit := by
  simp [described, typed]

theorem within_enabledSchema : Within limit level enabledSchema ↔ level + 1 ≤ limit := by
  simp only [enabledSchema, within_obj, List.forall_mem_append, within_described,
    List.forall_mem_singleton, within_bool, and_self]

theorem within_paramsSchema {parameters : Ordered Parameter} :
    Within limit level (paramsSchema parameters) ↔ level + 2 ≤ limit ∧
      ∀ entry ∈ parameters, Within limit (level + 2) (entry.2.schema entry.1) := by
  simp only [paramsSchema, within_obj, List.forall_mem_append, within_described, List.forall_mem_cons,
    List.forall_mem_map, within_bool, List.not_mem_nil, false_implies, implies_true, and_true]
  constructor
  · rintro ⟨-, -, ⟨room, each⟩, -⟩
    exact ⟨room, each⟩
  · rintro ⟨room, each⟩
    have less : level + 1 ≤ limit := Nat.le_of_succ_le room
    exact ⟨less, less, ⟨room, each⟩, less⟩

/-- The schema of a feature at a depth stays within the limit, its children apart. -/
structure SchemaFits (limit depth : Nat) (metadata : Metadata) : Prop where
  room : 2 * depth + 6 ≤ limit
  parameters : ∀ entry ∈ metadata.parameters, Within limit (2 * depth + 6) (entry.2.schema entry.1)

theorem schemaFits_iff {metadata : Metadata} : SchemaFits limit depth metadata ↔
    Within limit (2 * depth + 4) (paramsSchema metadata.parameters) :=
  ⟨fun fits => within_paramsSchema.mpr ⟨fits.room, fits.parameters⟩,
    fun within => ⟨(within_paramsSchema.mp within).1, (within_paramsSchema.mp within).2⟩⟩

theorem within_descriptionMember (description : Option String) :
    ∀ member ∈ (match description with
      | some text => [("description", Json.str text)]
      | none => [] : Json.Members), Within limit (level + 1) member.2 ↔ level + 1 ≤ limit := by
  cases description <;> simp

theorem within_schema {metadata : Metadata} {children : List (String × Feature)}
    (sound : SoundChildren children) (name : String) :
    Within limit level (Feature.schema name ⟨metadata, children⟩) ↔
      Within limit (level + 2) (paramsSchema metadata.parameters) ∧
        ∀ entry ∈ children, Within limit (level + 2) (entry.2.schema entry.1) := by
  rw [Feature.schema, Feature.properties_eq sound]
  simp only [within_obj, List.forall_mem_append, List.forall_mem_cons, featureSchemas_eq_map,
    List.forall_mem_map, List.not_mem_nil, false_implies, implies_true, and_true, within_str,
    within_enabledSchema]
  constructor
  · rintro ⟨-, -, -, -, params, children⟩
    exact ⟨params, children⟩
  · rintro ⟨params, children⟩
    have room := (within_paramsSchema.mp params).1
    refine ⟨by omega, ⟨⟨by omega, by omega⟩, fun member present => ?_⟩, by omega, by omega, params,
      children⟩
    exact (within_descriptionMember metadata.description member present).mpr (by omega)

-- The schema of a feature encloses the schemas of its children twice.
theorem within_schema_iff (feature : Feature) : SoundChildren feature.children → ∀ (name : String)
    (depth : Nat), (Within limit (2 * depth + 2) (feature.schema name) ↔
      feature.Everywhere (SchemaFits limit) depth) := by
  induction feature using Feature.induction_children with
  | step feature ih =>
      intro sound name depth
      obtain ⟨metadata, children⟩ := feature
      rw [within_schema sound, Feature.everywhere_iff, schemaFits_iff]
      refine and_congr_right fun _ => forall₂_congr fun entry member => ?_
      exact ih entry member (sound.under entry member) entry.1 (depth + 1)

-- Around the schemas of the features lie the schema of the version, its properties, the
-- schema of the feature list and its properties.
theorem within_versionSchema {tree : Tree} (sound : ∀ entry ∈ tree, SoundChildren entry.2.children) :
    tree.versionSchema.depth ≤ limit ↔ 4 ≤ limit ∧ tree.Everywhere (SchemaFits limit) := by
  have features : (∀ entry ∈ tree.featureProperties, Within limit 4 entry.2) ↔
      tree.Everywhere (SchemaFits limit) := by
    rw [Tree.featureProperties, featureSchemas_eq_map, List.forall_mem_map]
    exact forall₂_congr fun entry member =>
      within_schema_iff entry.2 (sound entry member) entry.1 1
  rw [← Json.within_zero, ← features]
  simp only [Tree.versionSchema, within_obj, within_arr, List.forall_mem_cons, List.not_mem_nil,
    false_implies, implies_true, and_true, within_str, within_bool, within_described]
  constructor
  · rintro ⟨-, -, -, ⟨-, -, -, -, -, -, ⟨room, each⟩, -⟩, -, -⟩
    exact ⟨room, each⟩
  · rintro ⟨room, each⟩
    grind

end Schemas

section Defaults
variable {limit level depth : Nat}

/-- The default state of a feature stays within the limit in a place that `level` arrays and
objects enclose, its children apart. -/
structure StateFits (limit level : Nat) (metadata : Metadata) : Prop where
  room : level + 2 ≤ limit
  defaults : ∀ entry ∈ metadata.parameters, ∀ value, entry.2.defaultValue = some value →
    Within limit (level + 2) value

theorem stateFits_iff {metadata : Metadata} : StateFits limit level metadata ↔
    Within limit (level + 1) (.obj (defaultParams metadata.parameters)) := by
  have defaults : (∀ member ∈ defaultParams metadata.parameters, Within limit (level + 2) member.2) ↔
      ∀ entry ∈ metadata.parameters, ∀ value, entry.2.defaultValue = some value →
        Within limit (level + 2) value := by
    simp only [defaultParams, List.forall_mem_filterMap, Option.map_eq_some_iff, forall_exists_index,
      and_imp, forall_apply_eq_imp_iff₂]
  rw [within_obj, defaults]
  exact ⟨fun fits => ⟨fits.room, fits.defaults⟩, fun both => ⟨both.1, both.2⟩⟩

theorem within_defaultMembers {metadata : Metadata} {children : List (String × Feature)}
    (sound : SoundChildren children) :
    Within limit level (.obj (Feature.mk metadata children).defaultMembers) ↔
      Within limit (level + 1) (.obj (defaultParams metadata.parameters)) ∧
        ∀ entry ∈ children, Within limit (level + 1) (.obj entry.2.defaultMembers) := by
  rw [Feature.defaultMembers_eq sound, within_obj]
  simp only [List.forall_mem_cons, defaultsOf_eq_map, List.forall_mem_map, within_bool]
  constructor
  · rintro ⟨-, -, params, children⟩
    exact ⟨params, children⟩
  · rintro ⟨params, children⟩
    exact ⟨Json.Within.level_le params, Json.Within.level_le params, params, children⟩

-- In flattened form a feature encloses its children once.
theorem within_defaultMembers_iff (feature : Feature) : SoundChildren feature.children →
    ∀ depth : Nat, (Within limit (depth + 1) (.obj feature.defaultMembers) ↔
      feature.Everywhere (fun depth => StateFits limit (depth + 1)) depth) := by
  induction feature using Feature.induction_children with
  | step feature ih =>
      intro sound depth
      obtain ⟨metadata, children⟩ := feature
      rw [within_defaultMembers sound, Feature.everywhere_iff, stateFits_iff]
      refine and_congr_right fun _ => forall₂_congr fun entry member => ?_
      exact ih entry member (sound.under entry member) (depth + 1)

theorem within_defaultDocument {tree : Tree} (label : VersionLabel)
    (sound : ∀ entry ∈ tree, SoundChildren entry.2.children) :
    (tree.defaultDocument label).depth ≤ limit ↔
      2 ≤ limit ∧ tree.Everywhere fun depth => StateFits limit (depth + 1) := by
  have features : (∀ entry ∈ tree.defaultFeatures, Within limit 2 entry.2) ↔
      tree.Everywhere fun depth => StateFits limit (depth + 1) := by
    rw [Tree.defaultFeatures, defaultsOf_eq_map, List.forall_mem_map]
    exact forall₂_congr fun entry member => within_defaultMembers_iff entry.2 (sound entry member) 1
  rw [← Json.within_zero, ← features]
  simp only [Tree.defaultDocument, within_obj, List.forall_mem_cons, List.not_mem_nil, false_implies,
    implies_true, and_true, within_str]
  grind

theorem eq_defaultParams {parameters : Ordered Parameter} {params : Members}
    (declared : DeclaredDefaults parameters params) : params = defaultParams parameters := by
  refine List.right_unique_forall₂' ?_ declared (declaredDefaults_defaultParams parameters)
  rintro entry ⟨name, value⟩ ⟨other, otherValue⟩ ⟨same, declared⟩ ⟨sameOther, declaredOther⟩
  rw [declared] at declaredOther
  exact Prod.ext (same.symm.trans sameOther) (Option.some.inj declaredOther)

theorem within_states {features : List (String × Feature)} {states : Document.Features}
    {holds : Feature → Prop} (same : HaveDefaultStates features states)
    (each : ∀ entry ∈ features, ∀ state, entry.2.HasDefaultState state →
      (Within limit level state.toJson ↔ holds entry.2)) :
    (∀ member ∈ Document.membersOf states, Within limit level member.2) ↔
      ∀ entry ∈ features, holds entry.2 := by
  induction features generalizing states with
  | nil =>
      rw [HaveDefaultStates] at same
      simp [same, Document.membersOf]
  | cons entry rest ih =>
      obtain ⟨name, feature⟩ := entry
      rw [HaveDefaultStates] at same
      obtain ⟨state, others, rfl, first, same⟩ := same
      obtain ⟨here, each⟩ := List.forall_mem_cons.mp each
      rw [Document.membersOf, List.forall_mem_cons, List.forall_mem_cons, ih same each]
      exact and_congr_left fun _ => here state first

theorem within_enabledState {params : Members} {children : Option (List (String × Document.Feature))} :
    Within limit level (Document.Feature.toJson ⟨true, some params, children, []⟩) ↔
      Within limit (level + 1) (.obj params) ∧
        ∀ member ∈ Document.membersOf (children.getD []), Within limit (level + 2) member.2 := by
  rw [Document.Feature.toJson, within_obj, Document.Feature.members_eq]
  cases children with
  | none =>
      simp only [Option.map_some, Option.map_none, Option.toList_some, Option.toList_none,
        List.forall_mem_cons, List.cons_append, List.nil_append, within_bool, Option.getD_none,
        Document.membersOf, List.not_mem_nil, false_implies, implies_true, and_true]
      exact ⟨fun both => both.2.2, fun params => ⟨params.level_le, params.level_le, params⟩⟩
  | some states =>
      simp only [Option.map_some, Option.toList_some, List.forall_mem_cons, List.cons_append,
        List.nil_append, within_bool, within_obj, Option.getD_some, List.not_mem_nil, false_implies,
        implies_true, and_true]
      grind

-- In nested form a feature encloses its children twice.
theorem within_state_iff (feature : Feature) : ∀ (state : Document.Feature) (depth : Nat),
    feature.HasDefaultState state → (Within limit (2 * depth) state.toJson ↔
      feature.Everywhere (fun depth => StateFits limit (2 * depth)) depth) := by
  induction feature using Feature.induction_children with
  | step feature ih =>
      intro state depth same
      obtain ⟨metadata, children⟩ := feature
      obtain ⟨enabled, params, childStates, extra⟩ := state
      rw [Feature.HasDefaultState] at same
      obtain ⟨rfl, ⟨params, rfl, declared⟩, rfl, empty, below⟩ := same
      cases eq_defaultParams declared
      have under := within_states below fun entry member state same =>
        ih entry member state (depth + 1) same
      rw [Feature.everywhere_iff, stateFits_iff, ← under]
      exact within_enabledState

theorem within_nestedDefaultDocument {tree : Tree} (label : VersionLabel)
    (sound : ∀ entry ∈ tree, SoundChildren entry.2.children) :
    (tree.nestedDefaultDocument label).toJson.depth ≤ limit ↔
      2 ≤ limit ∧ tree.Everywhere fun depth => StateFits limit (2 * depth) := by
  have features : (∀ member ∈ Document.membersOf (Document.nestFeatures tree.defaultFeatures),
      Within limit 2 member.2) ↔ tree.Everywhere fun depth => StateFits limit (2 * depth) :=
    within_states (haveDefaultStates_nestFeatures tree sound) fun entry _ state same =>
      within_state_iff entry.2 state 1 same
  rw [← Json.within_zero, ← features]
  simp only [Tree.nestedDefaultDocument, Document.toJson, within_obj, Option.map_some, Option.map_none,
    List.filterMap_cons, List.filterMap_nil, id, List.forall_mem_cons, List.not_mem_nil, false_implies,
    implies_true, and_true, within_str]
  grind

end Defaults

section Reading
variable {limit depth level : Nat}

theorem Parameter.assign_defaultValue {parameter assigned : Parameter} {name : String} {value : Json}
    (taken : parameter.assign name value = .ok assigned) :
    assigned.defaultValue = parameter.defaultValue ∨ assigned.defaultValue = some value := by
  unfold assign at taken
  split at taken
  case h_4 => cases taken; exact .inr rfl
  case h_9 => cases taken; exact .inl rfl
  all_goals
    obtain ⟨_, -, same⟩ := bind_eq_ok.mp taken
    cases same
    exact .inl rfl

theorem Parameter.assignAll_defaultValue {members : Members} {soFar parameter : Parameter}
    (before : ∀ value, soFar.defaultValue = some value → Within limit level value)
    (within : ∀ member ∈ members, Within limit level member.2)
    (taken : soFar.assignAll members = .ok parameter) :
    ∀ value, parameter.defaultValue = some value → Within limit level value := by
  induction members generalizing soFar with
  | nil => cases taken; exact before
  | cons member rest ih =>
      obtain ⟨next, assigned, taken⟩ := bind_eq_ok.mp taken
      obtain ⟨first, within⟩ := List.forall_mem_cons.mp within
      refine ih (fun value declared => ?_) within taken
      rcases assign_defaultValue assigned with kept | given
      · exact before value (kept ▸ declared)
      · cases given.symm.trans declared
        exact first

-- A default lies inside the object of its parameter.
theorem readParameter_defaultValue {entry : String × Json} {result : String × Parameter}
    (within : Within limit level entry.2) (read : readParameter entry = .ok result) :
    ∀ value, result.2.defaultValue = some value → Within limit (level + 1) value := by
  obtain ⟨name, given⟩ := entry
  unfold readParameter at read
  split at read
  · next decoded =>
      cases read
      cases given with
      | obj members =>
          have unset : ∀ value, Parameter.blank.defaultValue = some value →
              Within limit (level + 1) value := by
            rintro value ⟨⟩
          exact Parameter.assignAll_defaultValue unset (within_obj.mp within).2 decoded
      | null | bool | int | float | str | arr => contradiction
  · contradiction

theorem assign?_stateFits {metadata assigned : Metadata} {name : String} {value : Json}
    (within : Within limit level value)
    (taken : metadata.assign? name value = some (.ok assigned)) (fits : StateFits limit level metadata) :
    StateFits limit level assigned := by
  unfold Metadata.assign? at taken
  split at taken
  case h_10 =>
    obtain ⟨parameters, read, same⟩ := bind_eq_ok.mp (Option.some.inj taken)
    cases same
    refine ⟨fits.room, fun entry member => ?_⟩
    cases value with
    | obj members =>
        obtain ⟨source, present, readEntry⟩ := exists_of_mem_mapM read member
        exact readParameter_defaultValue ((within_obj.mp within).2 source present) readEntry
    | null | bool | int | float | str | arr => contradiction
  case h_5 => cases taken; exact ⟨fits.room, fits.defaults⟩
  case h_11 => contradiction
  all_goals
    obtain ⟨_, -, same⟩ := bind_eq_ok.mp (Option.some.inj taken)
    cases same
    exact ⟨fits.room, fits.defaults⟩

-- A feature lies at least as deep in the definition as in the flattened default document,
-- but for the member that holds all features.
theorem stateFits_invariant (room : maximumDepth + 3 ≤ limit) : ReadingInvariant (Within limit)
    fun depth feature => feature.Everywhere (fun depth => StateFits limit (depth + 1)) depth where
  members := fun within => (within_obj.mp within).2
  shallower := Json.Within.shallower
  blank := fun {depth} reached => .feature ⟨by omega, nofun⟩ nofun
  field := fun within taken before => by
    obtain ⟨here, under⟩ := before
    exact .feature (assign?_stateFits within taken here) under
  child := fun _ below before => by
    obtain ⟨here, under⟩ := before
    refine .feature here fun entry member => ?_
    rcases Ordered.mem_insert member with same | present
    · exact same ▸ below
    · exact under entry present

end Reading

/-- The flattened default document of a definition that has been read from a text can be read
again. The schema of a version and the nested default document can be exactly when every
feature leaves room for itself, and for its parameters, among the levels of its parents. -/
theorem depth_artifacts_of_read {text : String} {value : Json} {tree : Tree}
    (parsed : Json.parse? text = some value) (read : Tree.read value = .ok tree)
    (label : VersionLabel) :
    (tree.defaultDocument label).depth ≤ Json.maximumDepth ∧
      (tree.versionSchema.depth ≤ Json.maximumDepth ↔
        tree.Everywhere (SchemaFits Json.maximumDepth)) ∧
      ((tree.nestedDefaultDocument label).toJson.depth ≤ Json.maximumDepth ↔
        tree.Everywhere fun depth => StateFits Json.maximumDepth (2 * depth)) := by
  have sound := Tree.sound_of_read read
  have fits := Tree.holds_of_read (stateFits_invariant (by decide))
    (Json.within_zero.mpr (Json.depth_le_of_parse? parsed)) read
  refine ⟨(within_defaultDocument label sound).mpr ⟨by decide, fits⟩, ?_, ?_⟩
  · exact (within_versionSchema sound).trans (and_iff_right (by decide))
  · exact (within_nestedDefaultDocument label sound).trans (and_iff_right (by decide))

def nestedFeatures : Nat → Json
  | 0 => .obj []
  | count + 1 => .obj [("a", nestedFeatures count)]

def nestedTree : Nat → Tree
  | 0 => []
  | count + 1 => [("a", ⟨.blank, nestedTree count⟩)]

section Nested
variable {count : Nat}

theorem nestedFeatures_proper : (nestedFeatures count).Proper := by
  induction count with
  | zero => exact ⟨List.nodup_nil, trivial⟩
  | succ count ih => exact ⟨List.nodup_cons.mpr ⟨List.not_mem_nil, List.nodup_nil⟩, ih, trivial⟩

theorem depth_nestedFeatures : (nestedFeatures count).depth = count + 1 := by
  induction count with
  | zero => rfl
  | succ count ih => simp [nestedFeatures, Json.depth, Json.depthOfMembers, ih]

theorem tokensAfter_nestedFeatures {seen : List Json.Token} {rest : List Char} :
    Json.tokensAfter seen ((nestedFeatures count).compactChars ++ rest) =
      Json.tokensAfter ((nestedFeatures count).tokens.reverse ++ seen) rest := by
  induction count generalizing seen rest with
  | zero =>
      simp [nestedFeatures, Json.compactChars, Json.compactMembers, Json.tokens, Json.memberTokens,
        Json.tokensAfter]
  | succ count ih =>
      have quoted : Json.quote "a" = ['"', 'a', '"'] := by decide
      have name (after : List Char) : Json.readText [] ('a' :: '"' :: after) = some ("a", after) := by
        simp [Json.readText]
      simp only [nestedFeatures, Json.compactChars, Json.compactMembers, quoted, Json.tokens,
        Json.memberTokens, List.cons_append, List.nil_append, List.append_assoc]
      rw [Json.tokensAfter, Json.tokensAfter_text (name _), Json.tokensAfter, ih, Json.tokensAfter]
      simp

theorem parse?_nestedFeatures (within : count < Json.maximumDepth) :
    Json.parse? (nestedFeatures count).compact = some (nestedFeatures count) := by
  have split : Json.tokens? (nestedFeatures count).compact.toList =
      some (nestedFeatures count).tokens := by
    have all := @tokensAfter_nestedFeatures count [] []
    rw [List.append_nil, List.append_nil, Json.tokensAfter, List.reverse_reverse] at all
    rw [Json.compact, String.toList_ofList]
    exact all
  rw [Json.parse?, Json.parseWithin?, split]
  refine (Json.ofTokens?_tokens nestedFeatures_proper).mpr ?_
  rw [depth_nestedFeatures]
  exact within

theorem readFeature_nestedFeatures {path : String} {depth : Nat} (within : depth + count ≤ maximumDepth) :
    readFeature path depth (nestedFeatures count) = .ok ⟨.blank, nestedTree count⟩ := by
  have shallow : ¬maximumDepth < depth := by omega
  induction count generalizing path depth with
  | zero => rw [nestedFeatures, readFeature, if_neg shallow, readMembers, nestedTree]
  | succ count ih =>
      have child := @ih (childPath path "a") (depth + 1) (by omega) (by omega)
      have noField : Metadata.blank.assign? "a" (nestedFeatures count) = none := rfl
      have object : (nestedFeatures count).isObject = true := by cases count <;> rfl
      rw [nestedFeatures, readFeature, if_neg shallow, readMembers, noField]
      simp only [String.reduceEq, ↓reduceIte, object, child]
      rfl

theorem read_nestedFeatures (within : count ≤ maximumDepth) :
    Tree.read (nestedFeatures count) = .ok (nestedTree count) := by
  cases count with
  | zero => rfl
  | succ count =>
      have entry : readEntry ("a", nestedFeatures count) =
          .ok ("a", ⟨.blank, nestedTree count⟩) := by
        rw [readEntry, readFeature_nestedFeatures (by omega)]
        rfl
      rw [nestedFeatures, Tree.read, List.mapM_cons, entry]
      rfl

end Nested

/-- The features around others leave no room for a schema that can be read again, though
they lie less deep than features may lie. -/
theorem depth_versionSchema_nestedFeatures :
    Json.parse? (nestedFeatures 61).compact = some (nestedFeatures 61) ∧
      Tree.read (nestedFeatures 61) = .ok (nestedTree 61) ∧
      heightOf (nestedTree 61) ≤ maximumDepth ∧
      ¬(nestedTree 61).versionSchema.depth ≤ Json.maximumDepth :=
  ⟨parse?_nestedFeatures (by decide), read_nestedFeatures (by decide), by decide +kernel,
    by decide +kernel⟩

theorem depth_artifacts_of_read_sample :
    Json.parse? (nestedFeatures 60).compact = some (nestedFeatures 60) ∧
      Tree.read (nestedFeatures 60) = .ok (nestedTree 60) ∧
      ((nestedTree 60).defaultDocument .standard).depth ≤ Json.maximumDepth :=
  have parsed := parse?_nestedFeatures (show 60 < Json.maximumDepth by decide)
  have read := read_nestedFeatures (show 60 ≤ maximumDepth by decide)
  ⟨parsed, read, (depth_artifacts_of_read parsed read .standard).1⟩

end Toggles.Definition
