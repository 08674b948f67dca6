import Toggles.Proofs.FlattenedForm

/-! The two forms of a document.

A document in nested form, where no feature has an object beside its parameters and its
children, is read alike as a flattened one. Maps of children that are empty are left out,
and nothing else is different.
-/

set_option autoImplicit false

namespace Toggles.Document

open Json (Members)
open Definition (reservedNames mem_reservedNames)

section Pruning

mutual

/-- A feature with no map of children where there was an empty one, on every level. -/
def Feature.pruned : Feature → Feature
  | ⟨enabled, params, none, extra⟩ => ⟨enabled, params, none, extra⟩
  | ⟨enabled, params, some children, extra⟩ =>
      ⟨enabled, params, if children.isEmpty then none else some (pruneAll children), extra⟩

def pruneAll : List (String × Feature) → List (String × Feature)
  | [] => []
  | (name, feature) :: rest => (name, feature.pruned) :: pruneAll rest

end

def prunedChildren? (children : Features) : Option Features :=
  if children.isEmpty then none else some (pruneAll children)

theorem pruneAll_eq_map (features : Features) :
    pruneAll features = features.map fun entry => (entry.1, entry.2.pruned) := by
  induction features with
  | nil => rfl
  | cons entry rest ih => rw [pruneAll, ih, List.map_cons]

section Parts
variable (feature : Feature)

theorem Feature.pruned_eq : feature.pruned =
    ⟨feature.enabled, feature.params, feature.children.bind prunedChildren?, feature.extra⟩ := by
  obtain ⟨enabled, params, children, extra⟩ := feature
  cases children <;> rfl

theorem Feature.childFeatures_pruned :
    feature.pruned.childFeatures = pruneAll feature.childFeatures := by
  rw [pruned_eq, childFeatures, childFeatures]
  cases feature.children with
  | none => rfl
  | some children =>
      cases children <;> rfl

end Parts

theorem follow?_pruneAll (features : Features) (names : List String) :
    follow? (pruneAll features) names = (follow? features names).map Feature.pruned := by
  induction names generalizing features with
  | nil => rfl
  | cons name rest ih =>
      have first : Ordered.get? (pruneAll features) name =
          (Ordered.get? features name).map Feature.pruned := by
        rw [pruneAll_eq_map]
        exact Ordered.get?_map (fun _ feature => Feature.pruned feature) features name
      cases rest with
      | nil => exact first
      | cons next rest =>
          rw [follow?_cons _ _ (List.cons_ne_nil next rest), first,
            follow?_cons _ _ (List.cons_ne_nil next rest)]
          cases Ordered.get? features name with
          | none => rfl
          | some feature =>
              simp only [Option.map_some, Option.bind_some, Feature.childFeatures_pruned, ih]

end Pruning

section Agreement

/-- Features whose children stand in a member of their own, on every level: no member
is an object but the parameters and the children. -/
inductive ExplicitOnly : Members → Prop where
  | level {features : Members}
      (own : ∀ name object, (name, .obj object) ∈ features → ∀ member ∈ object,
        member.2.isObject = true → member.1 = "params" ∨ member.1 = "children")
      (under : ∀ name object children, (name, .obj object) ∈ features →
        ("children", .obj children) ∈ object → ExplicitOnly children) : ExplicitOnly features

variable {members : Members} {feature : Feature}

theorem nestFeatures_eq_nil (noObjects : ∀ member ∈ members, member.2.isObject = false) :
    nestFeatures members = [] := by
  induction members with
  | nil => rfl
  | cons member rest ih =>
      obtain ⟨name, value⟩ := member
      obtain ⟨first, noObjects⟩ := List.forall_mem_cons.mp noObjects
      have none : nestFeature? value = none := by
        cases value with
        | obj => contradiction
        | null | bool | int | float | str | arr => rfl
      rw [nestFeatures, none]
      exact ih noObjects

theorem enabled_nested {member : Option Json} {enabled : Bool}
    (taken : Taken Json.decodeBool member false enabled) :
    (member.bind Json.asBool?).getD false = enabled := by
  rcases enabled_of_taken taken with ⟨rfl, rfl⟩ | rfl <;> rfl

theorem params_nested {member : Option Json} {params : Option Members}
    (taken : Taken (Json.decodeOptional Json.decodeMembers) member none params) :
    member.bind Json.asObject? = params := by
  rcases params_of_taken taken with ⟨rfl, rfl | rfl⟩ | ⟨object, rfl, rfl⟩ <;> rfl

theorem explicit_nested {member : Option Json} {children : Option Features}
    (taken : Taken (Json.decodeOptional decodeFeatureMap) member none children)
    (under : ∀ object features, member = some (.obj object) → decodeFeatures object = .ok features →
      nestFeatures object = pruneAll features) :
    nestFeatures ((member.bind Json.asObject?).getD []) = pruneAll (children.getD []) := by
  rcases children_of_taken taken with ⟨rfl, rfl | rfl⟩ | ⟨object, features, rfl, decoded, rfl⟩
  · rfl
  · rfl
  · exact under object features rfl decoded

-- A feature without objects beside its parameters and children is nested as it is decoded.
theorem describedFeature_of_decoded (proper : (Json.obj members).Proper)
    (own : ∀ member ∈ members, member.2.isObject = true →
      member.1 = "params" ∨ member.1 = "children")
    (under : ∀ object features, Ordered.get? members "children" = some (.obj object) →
      decodeFeatures object = .ok features → nestFeatures object = pruneAll features)
    (decoded : Feature.blank.DecodedOver members feature) :
    describedFeature members = feature.pruned := by
  have parts := partsOf_flattenedParts members
  have noObject : ∀ member ∈ members, member.1 ∉ reservedNames → member.2.isObject = false := by
    intro member present unreserved
    refine Bool.eq_false_iff.mpr fun object => unreserved ?_
    exact mem_reservedNames.mpr (.inr (own member present object))
  have siblings : (flattenedParts members).siblings = [] := by
    rw [parts.siblings]
    refine nestFeatures_eq_nil fun member present => ?_
    obtain ⟨present, unreserved⟩ := List.mem_filter.mp present
    exact noObject member present (of_decide_eq_true unreserved)
  have extra : (flattenedParts members).extra = feature.extra := by
    have kept : extraMembers members = unreservedMembers members := by
      refine List.filter_congr fun member present => ?_
      by_cases state : member.1 ∈ reservedNames
      · simp [state]
      · simp [state, noObject member present state]
    rw [parts.extra, kept, decoded.extra]
    exact (Ordered.insertAll_nil _ (proper.1.filter _)).symm
  have explicit : (flattenedParts members).explicit = pruneAll feature.childFeatures := by
    rw [parts.explicit]
    exact explicit_nested decoded.children under
  have children : (if (pruneAll feature.childFeatures).isEmpty then none
      else some (pruneAll feature.childFeatures)) = feature.children.bind prunedChildren? := by
    rw [Feature.childFeatures]
    cases feature.children with
    | none => rfl
    | some children => cases children <;> rfl
  rw [describedFeature, Flattened.toFeature, siblings, extra, explicit, Feature.pruned_eq, ← children,
    parts.enabled, enabled_nested decoded.enabled, parts.params, objectAt?,
    params_nested decoded.params]
  rfl

theorem nestFeatures_of_decodeFeatures {features : Features}
    (each : ∀ name object, (name, .obj object) ∈ members → ∀ feature,
      decodeInto .blank object = .ok feature → describedFeature object = feature.pruned)
    (decoded : decodeFeatures members = .ok features) :
    nestFeatures members = pruneAll features := by
  induction members generalizing features with
  | nil =>
      rw [decodeFeatures] at decoded
      cases decoded
      rfl
  | cons member rest ih =>
      obtain ⟨name, value⟩ := member
      rw [decodeFeatures] at decoded
      obtain ⟨feature, first, decoded⟩ := bind_eq_ok.mp decoded
      obtain ⟨others, second, same⟩ := bind_eq_ok.mp decoded
      cases same
      have below := ih (fun key object member => each key object (List.mem_cons_of_mem _ member)) second
      cases value with
      | obj object =>
          rw [decodeFeature] at first
          rw [nestFeatures, nestFeature?_eq, pruneAll, ← below,
            ← each name object List.mem_cons_self feature first]
          rfl
      | null | bool | int | float | str | arr => simp [decodeFeature, Json.mismatch] at first

theorem ExplicitOnly.nestFeatures_eq (explicit : ExplicitOnly members) {features : Features}
    (proper : (Json.obj members).Proper) (decoded : decodeFeatures members = .ok features) :
    nestFeatures members = pruneAll features := by
  induction explicit generalizing features with
  | level own under ih =>
      refine nestFeatures_of_decodeFeatures (fun name object member feature read => ?_) decoded
      have given : (Json.obj object).Proper := Json.properMembers_iff.mp proper.2 _ member
      refine describedFeature_of_decoded given (own name object member) ?_
        ((decodeInto_eq_ok given.1).mp read)
      intro children features found readChildren
      exact ih name object children member (Ordered.mem_of_get? found) (given.2.get? found) readChildren

/-- Two documents give the same answers to the questions about a path, where a map of
children that is empty counts as none. -/
structure SameAnswers (flat nested : Document) (path : String) : Prop where
  has : flat.hasFeature path = nested.hasFeature path
  enabled : flat.isEnabled path = nested.isEnabled path
  params : flat.params? path = nested.params? path
  option : ∀ option, flat.option? path option = nested.option? path option
  extra : (flat.feature? path).map Feature.extra = (nested.feature? path).map Feature.extra
  children : flat.children? path = (nested.children? path).bind prunedChildren?

theorem sameAnswers_of_pruned {flat nested : Document}
    (pruned : flat.features = pruneAll nested.features) (path : String) :
    SameAnswers flat nested path := by
  have resolved : flat.feature? path = (nested.feature? path).map Feature.pruned := by
    rw [feature?, pruned, follow?_pruneAll, feature?]
  have params : flat.params? path = nested.params? path := by
    rw [params?, params?, resolved]
    cases nested.feature? path with
    | none => rfl
    | some feature => simp [Feature.pruned_eq]
  exact {
    has := by rw [hasFeature, hasFeature, resolved, Option.isSome_map]
    enabled := by
      rw [isEnabled, isEnabled, resolved]
      cases nested.feature? path with
      | none => rfl
      | some feature => simp [Feature.pruned_eq]
    params := params
    option := fun option => by rw [option?, option?, params]
    extra := by
      rw [resolved]
      cases nested.feature? path with
      | none => rfl
      | some feature => simp [Feature.pruned_eq]
    children := by
      rw [children?, children?, resolved]
      cases nested.feature? path with
      | none => rfl
      | some feature => simp [Feature.pruned_eq] }

end Agreement

/-- A document in nested form without objects beside parameters and children is read as a
flattened one too, and then says the same. -/
theorem ofFlattened_of_ofNested {value : Json} {nested : Document} (proper : value.Proper)
    (explicit : ∀ features, value.member? "features" = some (.obj features) →
      ExplicitOnly features)
    (read : ofNested value = .ok nested) :
    ∃ flat, ofFlattened value = .ok flat ∧ flat.version = nested.version ∧
      flat.name = nested.name ∧ flat.description = nested.description ∧
      ∀ path, SameAnswers flat nested path := by
  obtain ⟨members, features, rfl, found, decoded⟩ := ofNested_eq_ok.mp read
  have readFeatures : decodeFeatures features = .ok nested.features := by
    have taken := ((decode_eq_ok proper.1).mp decoded).features
    rwa [found] at taken
  have flat : ofFlattened (.obj members) =
      .ok { nested with features := nestFeatures features } :=
    ofFlattened_eq_ok.mpr ⟨_, _, _, rfl, found, decode_swapErase proper.1 decoded, rfl⟩
  refine ⟨_, flat, rfl, rfl, rfl, sameAnswers_of_pruned ?_⟩
  exact (explicit features found).nestFeatures_eq (proper.2.get? found) readFeatures

def sampleFeatures : Members :=
  [("search", .obj [
    ("enabled", .bool true),
    ("note", .str "beta"),
    ("children", .obj [
      ("ranking", .obj [("params", .obj [("depth", .int 2)]), ("children", .obj [])])])])]

theorem explicitOnly_sampleFeatures : ExplicitOnly sampleFeatures := by
  have empty : ExplicitOnly [] := .level (by simp) (by simp)
  have ranking : ExplicitOnly
      [("ranking", .obj [("params", .obj [("depth", .int 2)]), ("children", .obj [])])] := by
    refine .level (fun name object member => ?_) fun name object children member found => ?_
    · cases List.mem_singleton.mp member
      decide
    · cases List.mem_singleton.mp member
      have none : children = [] := by simpa using found
      exact none ▸ empty
  refine .level (fun name object member => ?_) fun name object children member found => ?_
  · cases List.mem_singleton.mp member
    decide
  · cases List.mem_singleton.mp member
    have one : children =
        [("ranking", .obj [("params", .obj [("depth", .int 2)]), ("children", .obj [])])] := by
      simpa using found
    exact one ▸ ranking

def sampleNested : Json :=
  .obj [("name", .str "enterprise"), ("features", .obj sampleFeatures)]

/-- The empty map of children is none in the flattened form, and parameters are the same. -/
theorem ofFlattened_of_ofNested_sample :
    sampleNested.Proper ∧ ExplicitOnly sampleFeatures ∧ ∃ nested flat,
      ofNested sampleNested = .ok nested ∧ ofFlattened sampleNested = .ok flat ∧
        nested.children? "search.ranking" = some [] ∧ flat.children? "search.ranking" = none ∧
        flat.option? "search.ranking" "depth" = some (.int 2) := by
  have proper : sampleNested.Proper := by decide
  obtain ⟨nested, read⟩ : ∃ nested, ofNested sampleNested = .ok nested := ⟨_, rfl⟩
  obtain ⟨flat, readFlat, -, -, -, same⟩ := ofFlattened_of_ofNested proper
    (fun features found => by cases found; exact explicitOnly_sampleFeatures) read
  have answers := same "search.ranking"
  have children : nested.children? "search.ranking" = some [] := by
    cases read
    rfl
  have depth : nested.option? "search.ranking" "depth" = some (.int 2) := by
    cases read
    rfl
  refine ⟨proper, explicitOnly_sampleFeatures, nested, flat, read, readFlat, children, ?_, ?_⟩
  · rw [answers.children, children]
    rfl
  · rw [answers.option, depth]

end Toggles.Document
