import Toggles.Proofs.Ordered
import Toggles.Validation.Check

/-! What each keyword of a schema demands.

A value is accepted when no keyword finds anything wrong with it, so there is one lemma
for each keyword, which says what it demands in front of any other keywords.
-/

set_option autoImplicit false

namespace Toggles.Validation

open Json (Members)

theorem accepts_iff {schema value : Json} : accepts schema value = true ↔ check value schema = [] :=
  List.isEmpty_iff

theorem within_eq_nil {name : String} {findings : List Finding} :
    within name findings = [] ↔ findings = [] :=
  List.map_eq_nil_iff

theorem demand_eq_nil {condition : Bool} {violation : Violation} :
    demand condition violation = [] ↔ condition = true := by
  cases condition <;> simp [demand]

section Types
variable {value : Json}

theorem hasType_string : hasType "string" value = true ↔ ∃ text, value = .str text := by
  cases value <;> simp [hasType]

theorem hasType_array : hasType "array" value = true ↔ ∃ values, value = .arr values := by
  cases value <;> simp [hasType]

theorem hasType_object : hasType "object" value = true ↔ ∃ members, value = .obj members := by
  cases value <;> simp [hasType]

end Types

theorem checkProperties_eq_nil {value : Json} {properties : Members} :
    checkProperties value properties = [] ↔ ∀ entry ∈ properties, ∀ member,
      value.member? entry.1 = some member → accepts entry.2 member = true := by
  induction properties with
  | nil => simp [checkProperties]
  | cons entry rest ih =>
      obtain ⟨name, schema⟩ := entry
      rw [checkProperties, List.append_eq_nil_iff, ih, List.forall_mem_cons]
      refine and_congr_left fun _ => ?_
      cases value.member? name with
      | none => simp
      | some member => simp [within_eq_nil, accepts_iff]

section Keywords
variable {schema rest properties : Members} {value : Json}

theorem checkKeywords_type {kind : String} :
    checkKeywords schema value (("type", .str kind) :: rest) = [] ↔
      hasType kind value = true ∧ checkKeywords schema value rest = [] :=
  List.append_eq_nil_iff.trans (and_congr_left fun _ => demand_eq_nil)

/-- Keywords that only describe a value. -/
def annotations : List String := ["$schema", "title", "description", "default"]

theorem checkKeywords_annotation {keyword : String} {argument : Json}
    (describes : keyword ∈ annotations) :
    checkKeywords schema value ((keyword, argument) :: rest) = [] ↔
      checkKeywords schema value rest = [] := by
  have choices : keyword = "$schema" ∨ keyword = "title" ∨ keyword = "description" ∨
      keyword = "default" := by
    simpa [annotations] using describes
  rcases choices with rfl | rfl | rfl | rfl
  all_goals rfl

theorem checkKeywords_properties :
    checkKeywords schema value (("properties", .obj properties) :: rest) = [] ↔
      checkProperties value properties = [] ∧ checkKeywords schema value rest = [] :=
  List.append_eq_nil_iff

theorem checkKeywords_required {members : Members} {required : List Json} :
    checkKeywords schema (.obj members) (("required", .arr required) :: rest) = [] ↔
      (∀ name ∈ required.filterMap Json.asString?, name ∈ Ordered.keys members) ∧
        checkKeywords schema (.obj members) rest = [] := by
  refine List.append_eq_nil_iff.trans (and_congr_left fun _ => List.map_eq_nil_iff.trans ?_)
  simp only [missingIn, List.filter_eq_nil_iff, Bool.not_eq_true', Bool.not_eq_false,
    Ordered.contains_iff]

-- A closed schema wants it to name all members.
theorem checkKeywords_closed {members : Members}
    (given : Ordered.get? schema "properties" = some (.obj properties)) :
    checkKeywords schema (.obj members) (("additionalProperties", .bool false) :: rest) = [] ↔
      (∀ name ∈ Ordered.keys members, name ∈ Ordered.keys properties) ∧
        checkKeywords schema (.obj members) rest = [] := by
  refine List.append_eq_nil_iff.trans (and_congr_left fun _ => demand_eq_nil.trans ?_)
  simp [unexpectedIn, propertyNames, given]

theorem checkKeywords_enum {allowed : List Json} :
    checkKeywords schema value (("enum", .arr allowed) :: rest) = [] ↔
      (∃ other ∈ allowed, same value other = true) ∧ checkKeywords schema value rest = [] := by
  refine List.append_eq_nil_iff.trans (and_congr_left fun _ => demand_eq_nil.trans ?_)
  exact List.any_eq_true

theorem checkKeywords_items {items : Json} :
    checkKeywords schema value (("items", items) :: rest) = [] ↔
      (∀ item ∈ itemsOf value, accepts items item = true) ∧
        checkKeywords schema value rest = [] := by
  refine List.append_eq_nil_iff.trans (and_congr_left fun _ => ?_)
  -- The places only name the findings.
  calc (itemsOf value).zipIdx.flatMap (fun entry => within (toString entry.2) (check entry.1 items))
        = []
      ↔ ∀ entry ∈ (itemsOf value).zipIdx, accepts items entry.1 = true := by
        simp only [List.flatMap_eq_nil_iff, within_eq_nil, accepts_iff]
    _ ↔ ∀ item ∈ (itemsOf value).zipIdx.map Prod.fst, accepts items item = true := by
        rw [List.forall_mem_map]
    _ ↔ ∀ item ∈ itemsOf value, accepts items item = true := by
        rw [List.zipIdx_map_fst]

theorem acceptsAny_iff {schemas : List Json} :
    acceptsAny value schemas = true ↔ ∃ schema ∈ schemas, accepts schema value = true := by
  induction schemas with
  | nil => simp [acceptsAny]
  | cons first others ih => simp [acceptsAny, ih, accepts]

theorem checkKeywords_anyOf {alternatives : List Json} :
    checkKeywords schema value (("anyOf", .arr alternatives) :: rest) = [] ↔
      (∃ alternative ∈ alternatives, accepts alternative value = true) ∧
        checkKeywords schema value rest = [] :=
  List.append_eq_nil_iff.trans
    (and_congr_left fun _ => demand_eq_nil.trans acceptsAny_iff)

end Keywords

end Toggles.Validation
