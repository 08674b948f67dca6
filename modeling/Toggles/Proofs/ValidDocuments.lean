import Toggles.Proofs.DefaultValidity
import Toggles.Proofs.FlattenedForm

/-! Documents that are valid under the schema of a definition.

Such a document can be read, and each declared feature that it has is in the state that its
object gives. Below the top level a feature may have members that nobody declared, even one
for children of its own. They do not stand in the way of a declared child, which is an
object beside the state, since a walk goes to such an object first.
-/

set_option autoImplicit false

namespace Toggles.Definition

open Json (Members)
open Document (childObject? objectAlong? objectAt? nestFeatures)
open Validation (accepts)

section Nodes

inductive Feature.Leads : Feature → List String → Prop where
  | self (feature : Feature) : Leads feature []
  | child {feature child : Feature} {name : String} {names : List String}
      (member : (name, child) ∈ feature.children) (below : Leads child names) :
      Leads feature (name :: names)

inductive Tree.Leads (tree : Tree) : List String → Prop where
  | top {name : String} {feature : Feature} {names : List String}
      (member : (name, feature) ∈ tree) (below : feature.Leads names) : Leads tree (name :: names)

end Nodes

section Fitting
variable {feature : Feature} {object : Members}

-- A declared feature that is given is an object that fits.
theorem fits_of_get? {features : List (String × Feature)} {name : String} {value : Json}
    (fit : Validation.checkProperties (.obj object) (featureSchemas features) = [])
    (declared : (name, feature) ∈ features) (sound : SoundChildren feature.children)
    (found : Ordered.get? object name = some value) :
    ∃ under, value = .obj under ∧ feature.Fits under := by
  have listed : (name, feature.schema name) ∈ featureSchemas features := by
    rw [featureSchemas_eq_map]
    exact List.mem_map_of_mem declared
  exact (accepts_schema_iff sound).mp
    (Validation.checkProperties_eq_nil.mp fit _ listed value found)

theorem Feature.Fits.children (fits : feature.Fits object) :
    Validation.checkProperties (.obj object) (featureSchemas feature.children) = [] := by
  rw [Fits, Validation.checkProperties_eq_nil, List.forall_mem_cons, List.forall_mem_cons] at fits
  exact Validation.checkProperties_eq_nil.mpr fits.2.2

-- Parameters that are given are an object.
theorem Feature.Fits.params (fits : feature.Fits object) :
    (objectAt? object "params").map .obj = Ordered.get? object "params" := by
  rw [Fits, Validation.checkProperties_eq_nil, List.forall_mem_cons, List.forall_mem_cons] at fits
  rw [objectAt?]
  cases found : Ordered.get? object "params" with
  | none => rfl
  | some value =>
      have checked := fits.2.1 value found
      rw [Validation.accepts_iff, paramsSchema, described, Declaration.typed, Validation.check,
        List.singleton_append, List.cons_append, Validation.checkKeywords_type,
        Validation.hasType_object] at checked
      obtain ⟨⟨params, rfl⟩, -⟩ := checked
      rfl

-- The walk along declared names goes through the members as they are written.
theorem walk_of_fits {names : List String} {member : Json} (leads : feature.Leads names)
    (sound : SoundChildren feature.children) (fits : feature.Fits object)
    (found : (Json.obj object).memberAlong? names = some member) :
    ∃ target under, names.foldlM childObject? object = some under ∧ member = .obj under ∧
      Feature.Fits target under := by
  induction leads generalizing object with
  | self feature =>
      cases found
      exact ⟨feature, object, rfl, rfl, fits⟩
  | @child feature child name names declared below ih =>
      rw [Json.memberAlong?_cons, Option.bind_eq_some_iff] at found
      obtain ⟨value, present, found⟩ := found
      have soundChild := sound.under _ declared
      obtain ⟨under, rfl, fitsChild⟩ := fits_of_get? fits.children declared soundChild present
      have step : childObject? object name = some under := by
        have unreserved := sound.unreserved name (Ordered.mem_keys.mpr ⟨child, declared⟩)
        rw [Json.member?] at present
        rw [childObject?, if_neg unreserved, objectAt?, present]
        rfl
      rw [List.foldlM_cons, step]
      exact ih soundChild fitsChild found

end Fitting

section Reading
variable {tree : Tree} {members features : Members}

theorem ofFlattened_of_fits (distinct : Ordered.Distinct members)
    (fits : tree.Fits members features) : ∃ document,
      Document.ofFlattened (.obj members) = .ok document ∧
        document.features = nestFeatures features := by
  obtain ⟨text, name⟩ := fits.name
  have version : Ordered.get? members "version" = none :=
    Ordered.get?_eq_none.mpr fun member => by simpa using fits.known _ member
  have description : ∃ given, Document.Taken (Json.decodeOptional Json.decodeString)
      (Ordered.get? members "description") none given := by
    cases found : Ordered.get? members "description" with
    | none => exact ⟨none, rfl⟩
    | some value =>
        obtain ⟨text, rfl⟩ := fits.description value found
        exact ⟨some text, rfl⟩
  obtain ⟨given, described⟩ := description
  have beside : Document.decode (Ordered.swapErase members "features") =
      .ok ⟨none, text, given, []⟩ := by
    refine (Document.decode_eq_ok (distinct.swapErase "features")).mpr ?_
    simp only [Document.decodedOver_iff, Ordered.get?_swapErase distinct, String.reduceEq,
      ↓reduceIte, version, name]
    exact ⟨rfl, rfl, described, rfl⟩
  exact ⟨_, Document.ofFlattened_eq_ok.mpr ⟨_, _, _, rfl, fits.given, beside, rfl⟩, rfl⟩

/-- A document answers for a path with the state that a member gives. -/
structure Answers (document : Document) (path : String) (member : Json) : Prop where
  found : document.hasFeature path = true
  enabled : document.isEnabled path = true ↔ member.member? "enabled" = some (.bool true)
  params : (document.params? path).map .obj = member.member? "params"

theorem answers_of_fits {document : Document} {path : String} {feature : Feature} {object : Members}
    (fits : feature.Fits object)
    (reached : document.feature? path = some (Document.describedFeature object)) :
    Answers document path (.obj object) := by
  have state := Document.describedFeature_hasStateOf object
  constructor
  case found =>
    rw [Document.hasFeature, reached]
    rfl
  case enabled =>
    rw [Document.isEnabled, reached]
    exact state.enabled
  case params =>
    rw [Document.params?, reached, Option.bind_some, state.params]
    exact fits.params

end Reading

/-- A document that is valid under the schema of a definition can be read in flattened form.
Its features are features of the definition, and for the path of any node that it has a
member for, it answers with what stands in this member. -/
theorem ofFlattened_of_accepts {source value : Json} {tree : Tree}
    (read : Tree.read source = .ok tree) (proper : value.Proper)
    (valid : accepts tree.versionSchema value = true) : ∃ document,
      Document.ofFlattened value = .ok document ∧
      (∀ name ∈ Ordered.keys document.features, name ∈ Ordered.keys tree) ∧
      ∀ names member, tree.Leads names → (∀ name ∈ names, '.' ∉ name.toList) →
        value.memberAlong? ("features" :: names) = some member →
          Answers document (".".intercalate names) member := by
  obtain ⟨members, features, rfl, fits⟩ := accepts_versionSchema_iff.mp valid
  obtain ⟨document, flattened, nested⟩ := ofFlattened_of_fits proper.1 fits
  refine ⟨document, flattened, fun name member => ?_, fun names member leads dotless found => ?_⟩
  · rw [nested] at member
    exact fits.declared name ((Document.keys_nestFeatures_sublist features).subset member)
  · rw [Json.memberAlong?_cons, Json.member?, fits.given, Option.bind_some] at found
    obtain ⟨declared, below⟩ := leads
    rw [Json.memberAlong?_cons, Option.bind_eq_some_iff] at found
    obtain ⟨first, present, found⟩ := found
    have sound := Tree.sound_of_read read _ declared
    obtain ⟨object, rfl, fitsFirst⟩ := fits_of_get? fits.fit declared sound present
    obtain ⟨target, under, walk, rfl, fitsTarget⟩ := walk_of_fits below sound fitsFirst found
    refine answers_of_fits fitsTarget ?_
    rw [Document.feature?_eq_map (proper.2.get? fits.given) nested (List.cons_ne_nil _ _) dotless,
      objectAlong?, objectAt?]
    rw [Json.member?] at present
    rw [present]
    exact congrArg (Option.map Document.describedFeature) walk

def sampleCollision : Json :=
  .obj [("name", .str "enterprise"), ("features", .obj [("search", .obj [
    ("params", .obj [("limit", .int 3)]),
    ("ranking", .obj [("enabled", .bool true), ("note", .str "beta")]),
    ("children", .obj [
      ("ranking", .obj [("enabled", .bool false), ("params", .obj [("depth", .int 1)])]),
      ("title", .str "Search")]),
    ("owner", .obj [("enabled", .str "yes")])])])]

/-- A child that is declared is not the one among the children, and has no parameters. -/
theorem ofFlattened_of_accepts_sample :
    Tree.read sampleDefinition = .ok sampleTree ∧ sampleCollision.Proper ∧
      accepts sampleTree.versionSchema sampleCollision = true ∧
      sampleTree.Leads ["search", "ranking"] ∧ ∃ document,
        Document.ofFlattened sampleCollision = .ok document ∧
          document.isEnabled "search.ranking" = true ∧
          document.params? "search.ranking" = none := by
  have read : Tree.read sampleDefinition = .ok sampleTree := rfl
  have proper : sampleCollision.Proper := by decide
  have valid : accepts sampleTree.versionSchema sampleCollision = true := by decide
  have leads : sampleTree.Leads ["search", "ranking"] :=
    .top List.mem_cons_self (.child (List.mem_cons_of_mem _ List.mem_cons_self) (.self _))
  obtain ⟨document, flattened, -, answers⟩ := ofFlattened_of_accepts read proper valid
  have answer := answers ["search", "ranking"] _ leads (by decide) rfl
  refine ⟨read, proper, valid, leads, document, flattened, answer.enabled.mpr rfl, ?_⟩
  exact Option.map_eq_none_iff.mp answer.params

end Toggles.Definition
