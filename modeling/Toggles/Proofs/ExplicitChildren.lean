import Toggles.Proofs.FlattenedForm

/-! The children of a feature from both places in which they are written.

Children in a member of their own come first, and then those beside them that have other names.
The explicit ones keep their places but not always their state: a child that is written in both
places is the one that stands beside them.
-/

set_option autoImplicit false

namespace Toggles.Document

open Json (Members)
open Definition (reservedNames mem_reservedNames)

def explicitEntries (object : Members) : Members :=
  (objectAt? object "children").getD []

def objectNames (members : Members) : List String :=
  Ordered.keys (members.filter fun member => member.2.isObject)

section Names
variable {object members : Members} {name : String}

-- Only objects become features.
theorem keys_nestFeatures (members : Members) :
    Ordered.keys (nestFeatures members) = objectNames members := by
  induction members with
  | nil => rfl
  | cons member rest ih =>
      obtain ⟨name, value⟩ := member
      rw [nestFeatures, nestFeature?_eq]
      cases value with
      | obj under => exact congrArg (name :: ·) ih
      | null | bool | int | float | str | arr => exact ih

theorem mem_objectNames (distinct : Ordered.Distinct members) :
    name ∈ objectNames members ↔ (objectAt? members name).isSome = true := by
  rw [← keys_nestFeatures, ← Ordered.isSome_get?, get?_nestFeatures distinct, Option.isSome_map]

theorem distinct_unreservedMembers (distinct : Ordered.Distinct object) :
    Ordered.Distinct (unreservedMembers object) :=
  distinct.filter _

theorem keys_describedFeature (distinct : Ordered.Distinct object) :
    Ordered.keys (describedFeature object).childFeatures = objectNames (explicitEntries object) ++
      (objectNames (unreservedMembers object)).filter fun name =>
        decide (name ∉ objectNames (explicitEntries object)) := by
  rw [describedFeature_childFeatures,
    Ordered.keys_insertAll (distinct_nestFeatures (distinct_unreservedMembers distinct)), keys_nestFeatures,
    keys_nestFeatures, explicitEntries]

end Names

section Children
variable {object : Members} {name : String}

-- A child beside the explicit ones counts before one of the same name among them.
theorem childObject?_eq (object : Members) (name : String) : childObject? object name =
    (objectAt? (unreservedMembers object) name).or (objectAt? (explicitEntries object) name) := by
  rw [childObject?, objectAt?_unreservedMembers, explicitEntries]
  cases objectAt? object "children" <;> rfl

theorem get?_sibling (proper : (Json.obj object).Proper) {sibling : Members}
    (found : objectAt? (unreservedMembers object) name = some sibling) :
    Ordered.get? (describedFeature object).childFeatures name = nestFeature? (.obj sibling) := by
  rw [get?_describedFeature proper, childObject?_eq, found]
  rfl

theorem get?_explicit (proper : (Json.obj object).Proper) {entry : Members}
    (found : objectAt? (explicitEntries object) name = some entry)
    (single : name ∉ objectNames (unreservedMembers object)) :
    Ordered.get? (describedFeature object).childFeatures name = nestFeature? (.obj entry) := by
  have noSibling : objectAt? (unreservedMembers object) name = none := by
    rwa [mem_objectNames (distinct_unreservedMembers proper.1), Option.not_isSome_iff_eq_none] at single
  rw [get?_describedFeature proper, childObject?_eq, noSibling, found]
  rfl

end Children

/-- The children of a feature, wherever it stands. The explicit ones come first, in their order,
and behind them those beside them that have other names. Each is nested from its own object; where
a name stands in both places, from the object beside the explicit children. -/
theorem nestFeature?_children {object : Members} (proper : (Json.obj object).Proper) :
    ∃ feature, nestFeature? (.obj object) = some feature ∧
      Ordered.keys feature.childFeatures = objectNames (explicitEntries object) ++
        ((objectNames (unreservedMembers object)).filter fun name =>
          decide (name ∉ objectNames (explicitEntries object))) ∧
      (∀ name entry, objectAt? (explicitEntries object) name = some entry →
        name ∉ objectNames (unreservedMembers object) →
        Ordered.get? feature.childFeatures name = nestFeature? (.obj entry)) ∧
      (∀ name sibling, objectAt? (unreservedMembers object) name = some sibling →
        Ordered.get? feature.childFeatures name = nestFeature? (.obj sibling)) ∧
      ∀ features way, (Json.obj features).Proper → objectAlong? features way = some object →
        follow? (nestFeatures features) way = some feature := by
  refine ⟨describedFeature object, rfl, keys_describedFeature proper.1,
    fun name entry => get?_explicit proper, fun name sibling => get?_sibling proper,
    fun features way properFeatures reached => ?_⟩
  rw [follow?_nestFeatures properFeatures, reached, Option.map_some]

def sampleTwice : Members :=
  [("enabled", .bool true), ("ranking", .obj [("enabled", .bool false)]),
    ("children", .obj [("synonyms", .obj []), ("ranking", .obj [("enabled", .bool true)])])]

theorem nestFeature?_children_sample : (Json.obj sampleTwice).Proper ∧
    objectAt? (explicitEntries sampleTwice) "synonyms" = some [] ∧
    "synonyms" ∉ objectNames (unreservedMembers sampleTwice) ∧
    objectAlong? [("search", .obj sampleTwice)] ["search"] = some sampleTwice ∧
    ∃ feature, follow? (nestFeatures [("search", .obj sampleTwice)]) ["search"] = some feature ∧
      Ordered.keys feature.childFeatures = ["synonyms", "ranking"] ∧
      Ordered.get? feature.childFeatures "synonyms" = nestFeature? (.obj []) := by
  have proper : (Json.obj sampleTwice).Proper := by decide
  have found : objectAt? (explicitEntries sampleTwice) "synonyms" = some [] := rfl
  have single : "synonyms" ∉ objectNames (unreservedMembers sampleTwice) := by decide
  obtain ⟨feature, -, keys, explicit, -, reached⟩ := nestFeature?_children proper
  exact ⟨proper, found, single, rfl, feature, reached _ ["search"] (by decide) rfl, keys,
    explicit _ _ found single⟩

/-- An explicit child is lost where the same name stands beside the explicit children: here it is
enabled, and the child of that name is not. -/
theorem nestFeature?_overwritten :
    ¬∀ object : Members, (Json.obj object).Proper → ∀ name entry,
      objectAt? (explicitEntries object) name = some entry → ∃ feature,
        nestFeature? (.obj object) = some feature ∧
          Ordered.get? feature.childFeatures name = nestFeature? (.obj entry) := by
  intro kept
  obtain ⟨feature, nested, found⟩ :=
    kept sampleTwice (by decide) "ranking" [("enabled", .bool true)] rfl
  cases nested
  have flags : (Ordered.get? (describedFeature sampleTwice).childFeatures "ranking").map
      Feature.enabled = some false := rfl
  have same := congrArg (Option.map Feature.enabled) found
  exact absurd (flags.symm.trans same) (by decide)

end Toggles.Document
