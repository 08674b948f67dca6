import Toggles.Proofs.Decoding
import Toggles.Proofs.Path

/-! What flattened documents mean.

The features of a flattened document are found by walking through its objects as they
are written, without nesting them first. The state of a feature is read off the object
where such a walk ends.
-/

set_option autoImplicit false

namespace Toggles.Document

open Json (Members)
open Definition (reservedNames mem_reservedNames notMem_reservedNames)

section Objects

def objectAt? (members : Members) (name : String) : Option Members :=
  (Ordered.get? members name).bind Json.asObject?

/-- The object of a child of a feature: a member of the feature itself, unless the name
is reserved or no object is there, or else an entry of its children. -/
def childObject? (feature : Members) (name : String) : Option Members :=
  (if name ∈ reservedNames then none else objectAt? feature name).or
    ((objectAt? feature "children").bind fun children => objectAt? children name)

def objectAlong? (features : Members) : List String → Option Members
  | [] => none
  | first :: rest => (objectAt? features first).bind fun object => rest.foldlM childObject? object

/-- The members that neither belong to the state of a feature nor are children of it. -/
def extraMembers (object : Members) : Members :=
  object.filter fun member => decide (member.1 ∉ reservedNames) && !member.2.isObject

structure Feature.HasStateOf (feature : Feature) (object : Members) : Prop where
  enabled : feature.enabled = true ↔ Ordered.get? object "enabled" = some (.bool true)
  params : feature.params = objectAt? object "params"
  extra : feature.extra = extraMembers object

def describedFeature (object : Members) : Feature :=
  (flattenedParts object).toFeature

end Objects

section Parts

theorem objectAt?_cons (name : String) (value : Json) (rest : Members) (key : String) :
    objectAt? ((name, value) :: rest) key =
      if name = key then value.asObject? else objectAt? rest key := by
  simp only [objectAt?, Ordered.get?]
  split <;> rfl

theorem extraMembers_cons (name : String) (value : Json) (rest : Members) :
    extraMembers ((name, value) :: rest) =
      if name ∉ reservedNames ∧ value.isObject = false then (name, value) :: extraMembers rest
      else extraMembers rest := by
  simp [extraMembers, List.filter_cons]

theorem nestFeature?_eq (value : Json) :
    nestFeature? value = value.asObject?.map describedFeature := by
  cases value <;> rfl

structure PartsOf (members : Members) (parts : Flattened) : Prop where
  enabled : parts.enabled = ((Ordered.get? members "enabled").bind Json.asBool?).getD false
  params : parts.params = objectAt? members "params"
  explicit : parts.explicit = nestFeatures ((objectAt? members "children").getD [])
  siblings : parts.siblings = nestFeatures (unreservedMembers members)
  extra : parts.extra = extraMembers members

theorem partsOf_flattenedParts (members : Members) : PartsOf members (flattenedParts members) := by
  induction members with
  | nil => exact ⟨rfl, rfl, rfl, rfl, rfl⟩
  | cons member rest ih =>
      obtain ⟨name, value⟩ := member
      unfold flattenedParts
      by_cases state : name ∈ reservedNames
      · have siblings : nestFeatures (unreservedMembers ((name, value) :: rest)) =
            (flattenedParts rest).siblings := by
          rw [unreservedMembers_cons, if_pos state, ih.siblings]
        have extra : extraMembers ((name, value) :: rest) = (flattenedParts rest).extra := by
          simpa [extraMembers_cons, state] using ih.extra.symm
        rcases mem_reservedNames.mp state with rfl | rfl | rfl
        · exact ⟨by simp [Ordered.get?], by simpa [objectAt?_cons] using ih.params,
            by simpa [objectAt?_cons] using ih.explicit, siblings.symm, extra.symm⟩
        · exact ⟨by simpa [Ordered.get?] using ih.enabled, by simp [objectAt?_cons],
            by simpa [objectAt?_cons] using ih.explicit, siblings.symm, extra.symm⟩
        · cases value <;>
            exact ⟨by simpa [Ordered.get?] using ih.enabled, by simpa [objectAt?_cons] using ih.params,
              by simp [objectAt?_cons, Json.asObject?, nestFeatures], siblings.symm, extra.symm⟩
      · have apart := notMem_reservedNames.mp state
        -- Only objects are children.
        cases value
        all_goals
          exact ⟨by simpa [apart, Ordered.get?, nestFeature?] using ih.enabled,
            by simpa [apart, objectAt?_cons, nestFeature?] using ih.params,
            by simpa [apart, objectAt?_cons, nestFeature?] using ih.explicit,
            by simp [apart, state, unreservedMembers_cons, nestFeatures, nestFeature?, ih.siblings],
            by simp [apart, state, extraMembers_cons, Json.isObject, nestFeature?, ih.extra]⟩

-- The state of a described feature is read off its object.
theorem describedFeature_hasStateOf (object : Members) :
    (describedFeature object).HasStateOf object where
  enabled := by
    rw [describedFeature, Flattened.toFeature, (partsOf_flattenedParts object).enabled]
    cases Ordered.get? object "enabled" with
    | none => simp
    | some value => cases value <;> simp [Json.asBool?]
  params := (partsOf_flattenedParts object).params
  extra := (partsOf_flattenedParts object).extra

theorem describedFeature_childFeatures (object : Members) :
    (describedFeature object).childFeatures =
      Ordered.insertAll (nestFeatures ((objectAt? object "children").getD []))
        (nestFeatures (unreservedMembers object)) := by
  have parts := partsOf_flattenedParts object
  rw [describedFeature, Flattened.toFeature_childFeatures, parts.explicit, parts.siblings]

end Parts

section Lookups
variable {members : Members}

theorem objectAt?_proper {under : Members} {name : String} (proper : (Json.obj members).Proper)
    (found : objectAt? members name = some under) : (Json.obj under).Proper := by
  obtain ⟨value, present, object⟩ := Option.bind_eq_some_iff.mp found
  have given := proper.2.get? present
  cases value with
  | obj => cases object; exact given
  | null | bool | int | float | str | arr => contradiction

theorem distinct_nestFeatures (distinct : Ordered.Distinct members) :
    Ordered.Distinct (nestFeatures members) :=
  List.Nodup.sublist (keys_nestFeatures_sublist members) distinct

theorem get?_nestFeatures (distinct : Ordered.Distinct members) (name : String) :
    Ordered.get? (nestFeatures members) name = (objectAt? members name).map describedFeature := by
  induction members with
  | nil => rfl
  | cons member rest ih =>
      obtain ⟨key, value⟩ := member
      obtain ⟨fresh, distinct⟩ := Ordered.distinct_cons.mp distinct
      rw [nestFeatures, nestFeature?_eq, objectAt?_cons]
      cases value.asObject? with
      | none =>
          simp only [Option.map_none, ih distinct]
          split
          · next same =>
              rw [objectAt?, Ordered.get?_eq_none.mpr (same ▸ fresh)]
              rfl
          · rfl
      | some object =>
          simp only [Option.map_some, Ordered.get?, ih distinct]
          split <;> rfl

theorem objectAt?_unreservedMembers (name : String) :
    objectAt? (unreservedMembers members) name =
      if name ∈ reservedNames then none else objectAt? members name := by
  rw [objectAt?, unreservedMembers, Ordered.get?_filter fun key => decide (key ∉ reservedNames)]
  by_cases state : name ∈ reservedNames <;> simp [objectAt?, state]

-- A child of a feature is described by the object that a walk would step to.
theorem get?_describedFeature {object : Members} (proper : (Json.obj object).Proper) (name : String) :
    Ordered.get? (describedFeature object).childFeatures name =
      (childObject? object name).map describedFeature := by
  have unreserved : Ordered.Distinct (unreservedMembers object) := proper.1.filter _
  have siblings : Ordered.get? (nestFeatures (unreservedMembers object)) name =
      (if name ∈ reservedNames then none else objectAt? object name).map describedFeature := by
    rw [get?_nestFeatures unreserved, objectAt?_unreservedMembers]
  have explicit : Ordered.get? (nestFeatures ((objectAt? object "children").getD [])) name =
      ((objectAt? object "children").bind fun children => objectAt? children name).map
        describedFeature := by
    cases found : objectAt? object "children" with
    | none => rfl
    | some children => exact get?_nestFeatures (objectAt?_proper proper found).1 name
  rw [describedFeature_childFeatures, Ordered.get?_insertAll _ (distinct_nestFeatures unreserved),
    siblings, explicit, childObject?, Option.map_or]

theorem childObject?_proper {object under : Members} {name : String}
    (proper : (Json.obj object).Proper) (found : childObject? object name = some under) :
    (Json.obj under).Proper := by
  rw [childObject?, Option.or_eq_some_iff] at found
  rcases found with own | ⟨-, explicit⟩
  · split at own
    · contradiction
    · exact objectAt?_proper proper own
  · obtain ⟨children, present, found⟩ := Option.bind_eq_some_iff.mp explicit
    exact objectAt?_proper (objectAt?_proper proper present) found

end Lookups

section Walks

-- Following names below a described feature is walking on from its object.
theorem follow?_describedFeature {object : Members} (proper : (Json.obj object).Proper)
    {names : List String} (nonempty : names ≠ []) :
    follow? (describedFeature object).childFeatures names =
      (names.foldlM childObject? object).map describedFeature := by
  induction names generalizing object with
  | nil => contradiction
  | cons name rest ih =>
      rw [List.foldlM_cons]
      cases rest with
      | nil =>
          rw [follow?, get?_describedFeature proper]
          simp
      | cons next rest =>
          rw [follow?_cons _ _ (List.cons_ne_nil next rest), get?_describedFeature proper]
          cases found : childObject? object name with
          | none => rfl
          | some under => exact ih (childObject?_proper proper found) (List.cons_ne_nil next rest)

theorem follow?_nestFeatures {features : Members} (proper : (Json.obj features).Proper)
    (names : List String) :
    follow? (nestFeatures features) names = (objectAlong? features names).map describedFeature := by
  cases names with
  | nil => rfl
  | cons name rest =>
      rw [objectAlong?]
      cases rest with
      | nil =>
          rw [follow?, get?_nestFeatures proper.1]
          simp
      | cons next rest =>
          rw [follow?_cons _ _ (List.cons_ne_nil next rest), get?_nestFeatures proper.1]
          cases found : objectAt? features name with
          | none => rfl
          | some object =>
              exact follow?_describedFeature (objectAt?_proper proper found) (List.cons_ne_nil next rest)

-- A path leads along the objects that its names find.
theorem feature?_eq_map {document : Document} {features : Members}
    (proper : (Json.obj features).Proper) (nested : document.features = nestFeatures features)
    {names : List String} (nonempty : names ≠ []) (dotless : ∀ name ∈ names, '.' ∉ name.toList) :
    document.feature? (".".intercalate names) =
      (objectAlong? features names).map describedFeature := by
  rw [feature?, nested, pathNames_intercalate nonempty dotless]
  exact follow?_nestFeatures proper names

end Walks

/-- A path leads to a feature of a flattened document exactly when the walk along its
names finds an object at every step, and the feature is in the state of the last one.
Where a child stands both in its own member and among the children, the walk goes to
its own member. -/
theorem feature?_ofFlattened {value : Json} {document : Document} (proper : value.Proper)
    (read : ofFlattened value = .ok document) : ∃ features,
      value.member? "features" = some (.obj features) ∧
        ∀ names : List String, names ≠ [] → (∀ name ∈ names, '.' ∉ name.toList) →
          ((document.feature? (".".intercalate names)).isSome = true ↔
            (objectAlong? features names).isSome = true) ∧
          ∀ feature object, document.feature? (".".intercalate names) = some feature →
            objectAlong? features names = some object → feature.HasStateOf object := by
  obtain ⟨members, features, decoded, rfl, found, -, same⟩ := ofFlattened_eq_ok.mp read
  have nested : document.features = nestFeatures features := same ▸ rfl
  refine ⟨features, found, fun names nonempty dotless => ?_⟩
  rw [feature?_eq_map (proper.2.get? found) nested nonempty dotless]
  refine ⟨by rw [Option.isSome_map], fun feature object described reached => ?_⟩
  rw [reached] at described
  cases described
  exact describedFeature_hasStateOf object

def sampleFlattened : Json :=
  .obj [("name", .str "enterprise"), ("features", .obj [
    ("search", .obj [
      ("enabled", .bool true),
      ("note", .str "beta"),
      ("children", .obj [("params", .obj [("enabled", .str "yes")])]),
      ("ranking", .obj [("enabled", .bool true), ("params", .obj [("depth", .int 2)])])])])]

/-- A child may be named like the state of a feature if it stands among the children. It
is not enabled by anything but true. -/
theorem feature?_ofFlattened_sample : sampleFlattened.Proper ∧ ∃ document,
    ofFlattened sampleFlattened = .ok document ∧
      (document.feature? "search.params").isSome = true ∧
      ∀ feature, document.feature? "search.params" = some feature → feature.enabled = false := by
  have proper : sampleFlattened.Proper := by decide
  obtain ⟨document, read⟩ : ∃ document, ofFlattened sampleFlattened = .ok document := ⟨_, rfl⟩
  obtain ⟨features, found, walks⟩ := feature?_ofFlattened proper read
  cases found
  obtain ⟨reached, states⟩ := walks ["search", "params"] (by decide) (by decide)
  refine ⟨proper, document, read, reached.mpr (by decide), fun feature resolved => ?_⟩
  have state := states feature [("enabled", .str "yes")] resolved rfl
  rw [← Bool.not_eq_true, state.enabled]
  simp [Ordered.get?]

end Toggles.Document
