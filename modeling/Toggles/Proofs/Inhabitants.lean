import Mathlib.Logic.Basic
import Toggles.Declaration.Schema
import Toggles.Proofs.Validation

/-! Declared types and the values that inhabit them.

What a value of a type is does not mention schemas. The schema of a type accepts
exactly the values of the type, as long as the type has one meaning to write down:
every member of an object is declared once and without annotations, and literals that
stand alone in a union are of one primitive type.
-/

set_option autoImplicit false

namespace Toggles.Declaration

open Json (Members)
open Numeric (Binary64)
open Validation (accepts hasType hasType_array hasType_object same)

def arrayNames : List String := ["Array", "ReadonlyArray"]

/-- The values of a type. An object may have members that its type does not declare. -/
inductive Inhabits : TypeExpr → Json → Prop where
  | string (text : String) : Inhabits (.keyword .string) (.str text)
  | integer (number : Int) : Inhabits (.keyword .number) (.int number)
  | decimal (number : Binary64) : Inhabits (.keyword .number) (.float number)
  | boolean (flag : Bool) : Inhabits (.keyword .boolean) (.bool flag)
  | null : Inhabits (.keyword .null) .null
  | literal {value : Json} {literal : Literal} (equal : same value literal.toJson = true) :
      Inhabits (.literal literal) value
  | array {item : TypeExpr} {values : List Json} (each : ∀ value ∈ values, Inhabits item value) :
      Inhabits (.array item) (.arr values)
  | generic {name : String} {item : TypeExpr} {values : List Json} (known : name ∈ arrayNames)
      (each : ∀ value ∈ values, Inhabits item value) :
      Inhabits (.reference name [item]) (.arr values)
  | union {types : List TypeExpr} {type : TypeExpr} {value : Json} (member : type ∈ types)
      (inhabits : Inhabits type value) : Inhabits (.union types) value
  | object {members : List Member} {given : Members}
      (present : ∀ member ∈ members, member.optional = false → member.name ∈ Ordered.keys given)
      (each : ∀ member ∈ members, ∀ value, Ordered.get? given member.name = some value →
        Inhabits member.type value) : Inhabits (.object members) (.obj given)

/-- The types whose schemas say what the types say. -/
inductive Describable : TypeExpr → Prop where
  | keyword {keyword : Keyword} (basic : keyword ∈ [.string, .number, .boolean, .null]) :
      Describable (.keyword keyword)
  | literal (literal : Literal) : Describable (.literal literal)
  | array {item : TypeExpr} (describable : Describable item) : Describable (.array item)
  | generic {name : String} {item : TypeExpr} (known : name ∈ arrayNames)
      (describable : Describable item) : Describable (.reference name [item])
  | union {types : List TypeExpr} (each : ∀ type ∈ types, Describable type)
      (uniform : ∀ literals : List Literal, types = literals.map .literal →
        ∀ first ∈ literals, ∀ second ∈ literals, first.primitive = second.primitive) :
      Describable (.union types)
  | object {members : List Member} (distinct : (members.map Property.name).Nodup)
      (undocumented : ∀ member ∈ members, member.doc = none)
      (each : ∀ member ∈ members, Describable member.type) : Describable (.object members)

section Fragments
variable {value : Json}

theorem accepts_typed {kind : String} :
    accepts (.obj (typed kind)) value = true ↔ hasType kind value = true := by
  rw [Validation.accepts_iff, typed, Validation.check, Validation.checkKeywords_type,
    Validation.checkKeywords]
  exact and_iff_left rfl

theorem accepts_arraySchema {items : Members} :
    accepts (.obj (arraySchema items)) value = true ↔
      ∃ values, value = .arr values ∧ ∀ item ∈ values, accepts (.obj items) item = true := by
  rw [Validation.accepts_iff, arraySchema, typed, List.singleton_append, Validation.check,
    Validation.checkKeywords_type, Validation.checkKeywords_items, Validation.checkKeywords,
    hasType_array]
  constructor
  · rintro ⟨⟨values, rfl⟩, each, -⟩
    exact ⟨values, rfl, each⟩
  · rintro ⟨values, rfl, each⟩
    exact ⟨⟨values, rfl⟩, each, rfl⟩

theorem accepts_anyOf {alternatives : List Json} :
    accepts (.obj [("anyOf", .arr alternatives)]) value = true ↔
      ∃ alternative ∈ alternatives, accepts alternative value = true := by
  rw [Validation.accepts_iff, Validation.check, Validation.checkKeywords_anyOf,
    Validation.checkKeywords]
  exact and_iff_left rfl

theorem accepts_objectSchema {properties : Members} {required : List String}
    (distinct : Ordered.Distinct properties) :
    accepts (.obj (objectSchema properties required)) value = true ↔
      ∃ given, value = .obj given ∧ (∀ name ∈ required, name ∈ Ordered.keys given) ∧
        ∀ entry ∈ properties, ∀ member, Ordered.get? given entry.1 = some member →
          accepts entry.2 member = true := by
  have names : (required.eraseDups.map Json.str).filterMap Json.asString? = required.eraseDups := by
    rw [List.filterMap_map]
    exact List.filterMap_some
  rw [Validation.accepts_iff, objectSchema, typed, Ordered.ofList, Ordered.insertAll_nil _ distinct,
    List.singleton_append, Validation.check, Validation.checkKeywords_type,
    Validation.checkKeywords_properties, Validation.checkProperties_eq_nil, hasType_object]
  constructor
  · rintro ⟨⟨given, rfl⟩, fits, checked⟩
    rw [Validation.checkKeywords_required, names] at checked
    exact ⟨given, rfl, fun name member => checked.1 name (List.mem_eraseDups.mpr member), fits⟩
  · rintro ⟨given, rfl, present, fits⟩
    rw [Validation.checkKeywords_required, names]
    exact ⟨⟨given, rfl⟩, fits, fun name member => present name (List.mem_eraseDups.mp member), rfl⟩

end Fragments

section Literals
variable {value : Json}

-- A value that is equal to a literal is of its primitive type.
theorem hasType_of_same {literal : Literal} (equal : same value literal.toJson = true) :
    hasType literal.primitive value = true := by
  cases literal with
  | string text => cases value <;> simp_all [Literal.toJson, same, Validation.sameNumber]; rfl
  | boolean flag => cases value <;> simp_all [Literal.toJson, same, Validation.sameNumber]; rfl
  | integer number | decimal number =>
      cases value <;> simp_all [Literal.toJson, same, Validation.sameNumber] <;> rfl

-- The type is that of the first literal, whatever the others are.
theorem accepts_literalSchema_iff {first : Literal} {others : List Literal} :
    accepts (.obj (literalSchema first others)) value = true ↔
      hasType first.primitive value = true ∧
        ∃ literal ∈ first :: others, same value literal.toJson = true := by
  rw [Validation.accepts_iff, literalSchema, typed, List.singleton_append, Validation.check,
    Validation.checkKeywords_type, Validation.checkKeywords_enum, Validation.checkKeywords]
  simp only [List.mem_map, exists_exists_and_eq_and, and_true]

theorem accepts_literalSchema {first : Literal} {others : List Literal}
    (uniform : ∀ other ∈ first :: others, first.primitive = other.primitive) :
    accepts (.obj (literalSchema first others)) value = true ↔
      ∃ literal ∈ first :: others, same value literal.toJson = true := by
  rw [accepts_literalSchema_iff]
  constructor
  · exact fun checked => checked.2
  · rintro ⟨literal, member, equal⟩
    exact ⟨uniform literal member ▸ hasType_of_same equal, literal, member, equal⟩

theorem literal?_eq_some {type : TypeExpr} {literal : Literal} :
    literal? type = some literal ↔ type = .literal literal := by
  cases type <;> simp [literal?]

theorem mapM_literal? {types : List TypeExpr} {literals : List Literal}
    (literal : types.mapM literal? = some literals) : types = literals.map .literal := by
  induction types generalizing literals with
  | nil => cases literal; rfl
  | cons type rest ih =>
      rw [List.mapM_cons] at literal
      obtain ⟨first, single, literal⟩ := Option.bind_eq_some_iff.mp literal
      obtain ⟨others, all, same⟩ := Option.bind_eq_some_iff.mp literal
      cases same
      rw [List.map_cons, ← ih all, literal?_eq_some.mp single]

end Literals

section Lists

theorem typeSchemas_eq_map (types : List TypeExpr) :
    typeSchemas types = types.map fun type => .obj (typeSchema type) := by
  induction types with
  | nil => rfl
  | cons type rest ih => rw [typeSchemas, ih, List.map_cons]

theorem propertySchemas_eq_map (members : List Member) :
    propertySchemas members =
      members.map fun member => (member.name, .obj (annotate (typeSchema member.type) member.doc)) := by
  induction members with
  | nil => rfl
  | cons member rest ih => rw [propertySchemas, ih, List.map_cons]

theorem keys_propertySchemas (members : List Member) :
    Ordered.keys (propertySchemas members) = members.map Property.name := by
  rw [propertySchemas_eq_map, Ordered.keys, List.map_map]
  rfl

theorem mem_requiredNames {members : List Member} {name : String} :
    name ∈ requiredNames members ↔ ∃ member ∈ members, member.optional = false ∧ member.name = name := by
  simp [requiredNames, and_assoc]

end Lists

section Types
variable {value : Json} {item : TypeExpr}

theorem accepts_keywordSchema {keyword : Keyword}
    (basic : keyword ∈ [Keyword.string, .number, .boolean, .null]) :
    accepts (.obj (keywordSchema keyword)) value = true ↔ Inhabits (.keyword keyword) value := by
  have schema : keywordSchema keyword = typed keyword.name := by
    cases keyword with
    | any => simp at basic
    | string | number | boolean | null | object => rfl
  rw [schema, accepts_typed]
  cases keyword with
  | string =>
      cases value with
      | str text => exact iff_of_true rfl (.string text)
      | null | bool | int | float | arr | obj =>
          exact iff_of_false (by simp [hasType, Keyword.name]) (by rintro ⟨⟩)
  | number =>
      cases value with
      | int number => exact iff_of_true rfl (.integer number)
      | float number => exact iff_of_true rfl (.decimal number)
      | null | bool | str | arr | obj =>
          exact iff_of_false (by simp [hasType, Keyword.name]) (by rintro ⟨⟩)
  | boolean =>
      cases value with
      | bool flag => exact iff_of_true rfl (.boolean flag)
      | null | int | float | str | arr | obj =>
          exact iff_of_false (by simp [hasType, Keyword.name]) (by rintro ⟨⟩)
  | null =>
      cases value with
      | null => exact iff_of_true rfl .null
      | bool | int | float | str | arr | obj =>
          exact iff_of_false (by simp [hasType, Keyword.name]) (by rintro ⟨⟩)
  | object | any => simp at basic

theorem inhabits_literal {literal : Literal} :
    Inhabits (.literal literal) value ↔ same value literal.toJson = true :=
  ⟨fun inhabits => by cases inhabits; assumption, .literal⟩

theorem inhabits_array : Inhabits (.array item) value ↔
    ∃ values, value = .arr values ∧ ∀ value ∈ values, Inhabits item value := by
  constructor
  · intro inhabits
    cases inhabits with
    | array each => exact ⟨_, rfl, each⟩
  · rintro ⟨values, rfl, each⟩
    exact .array each

theorem inhabits_generic {name : String} (known : name ∈ arrayNames) :
    Inhabits (.reference name [item]) value ↔
      ∃ values, value = .arr values ∧ ∀ value ∈ values, Inhabits item value := by
  constructor
  · intro inhabits
    cases inhabits with
    | generic known each => exact ⟨_, rfl, each⟩
  · rintro ⟨values, rfl, each⟩
    exact .generic known each

theorem inhabits_union {types : List TypeExpr} :
    Inhabits (.union types) value ↔ ∃ type ∈ types, Inhabits type value := by
  constructor
  · intro inhabits
    cases inhabits with
    | union member inhabits => exact ⟨_, member, inhabits⟩
  · rintro ⟨type, member, inhabits⟩
    exact .union member inhabits

theorem inhabits_object {members : List Member} : Inhabits (.object members) value ↔
    ∃ given, value = .obj given ∧
      (∀ member ∈ members, member.optional = false → member.name ∈ Ordered.keys given) ∧
      ∀ member ∈ members, ∀ value, Ordered.get? given member.name = some value →
        Inhabits member.type value := by
  constructor
  · intro inhabits
    cases inhabits with
    | object present each => exact ⟨_, rfl, present, each⟩
  · rintro ⟨given, rfl, present, each⟩
    exact .object present each

-- Literals that stand alone in a union are compiled to an enumeration, and any other
-- union to a choice between schemas.
theorem accepts_unionSchema {types : List TypeExpr}
    (uniform : ∀ literals : List Literal, types = literals.map .literal →
      ∀ first ∈ literals, ∀ second ∈ literals, first.primitive = second.primitive)
    (each : ∀ type ∈ types, accepts (.obj (typeSchema type)) value = true ↔ Inhabits type value) :
    accepts (.obj (typeSchema (.union types))) value = true ↔ Inhabits (.union types) value := by
  have choice : accepts (.obj [("anyOf", .arr (typeSchemas types))]) value = true ↔
      ∃ type ∈ types, Inhabits type value := by
    rw [accepts_anyOf, typeSchemas_eq_map]
    simp only [List.mem_map, exists_exists_and_eq_and]
    exact exists_congr fun type => and_congr_right (each type)
  rw [inhabits_union, typeSchema]
  split
  · next first others alone =>
      have literals := mapM_literal? alone
      have agree := uniform (first :: others) literals first List.mem_cons_self
      rw [accepts_literalSchema agree, literals]
      simp only [List.mem_map, exists_exists_and_eq_and, inhabits_literal]
  · exact choice

theorem accepts_membersSchema {members : List Member} (distinct : (members.map Property.name).Nodup)
    (undocumented : ∀ member ∈ members, member.doc = none)
    (each : ∀ member ∈ members, ∀ value,
      accepts (.obj (typeSchema member.type)) value = true ↔ Inhabits member.type value) :
    accepts (.obj (typeSchema (.object members))) value = true ↔ Inhabits (.object members) value := by
  have separate : Ordered.Distinct (propertySchemas members) := by
    rwa [Ordered.Distinct, keys_propertySchemas]
  rw [inhabits_object, typeSchema, accepts_objectSchema separate, propertySchemas_eq_map]
  refine exists_congr fun given => and_congr_right fun _ => and_congr ?_ ?_
  · simp only [mem_requiredNames]
    constructor
    · exact fun present member declared needed =>
        present member.name ⟨member, declared, needed, rfl⟩
    · rintro present _ ⟨member, declared, needed, rfl⟩
      exact present member declared needed
  · rw [List.forall_mem_map]
    refine forall₂_congr fun member declared => forall₂_congr fun value _ => ?_
    rw [undocumented member declared]
    exact each member declared value

end Types

/-- A value is accepted by the schema of a type exactly when it is a value of the type. -/
theorem accepts_typeSchema {type : TypeExpr} (describable : Describable type) (value : Json) :
    accepts (.obj (typeSchema type)) value = true ↔ Inhabits type value := by
  induction describable generalizing value with
  | keyword basic =>
      rw [typeSchema]
      exact accepts_keywordSchema basic
  | literal literal =>
      rw [typeSchema, accepts_literalSchema (by simp), inhabits_literal]
      simp
  | array describable ih =>
      rw [typeSchema, accepts_arraySchema, inhabits_array]
      simp only [ih]
  | @generic name item known describable ih =>
      have array : isArrayName name = true := by simpa [isArrayName, arrayNames] using known
      rw [typeSchema, if_pos array, accepts_arraySchema, inhabits_generic known]
      simp only [ih]
  | union each uniform ih => exact accepts_unionSchema uniform fun type member => ih type member value
  | object distinct undocumented each ih => exact accepts_membersSchema distinct undocumented ih

/-- An owner with a list of quotas, at one of two levels or at none. -/
def sampleType : TypeExpr :=
  .object [
    ⟨"name", false, none, .keyword .string⟩,
    ⟨"level", true, none, .union [.literal (.integer 1), .literal (.integer 2)]⟩,
    ⟨"quotas", false, none, .reference "Array" [.union [.keyword .number, .keyword .null]]⟩]

theorem sampleType_describable : Describable sampleType := by
  have alone : ∀ literals : List Literal,
      [TypeExpr.literal (.integer 1), .literal (.integer 2)] = literals.map .literal →
        ∀ first ∈ literals, ∀ second ∈ literals, first.primitive = second.primitive := by
    rintro (_ | ⟨one, _ | ⟨two, _ | _⟩⟩) same
    all_goals simp at same
    obtain ⟨rfl, rfl⟩ := same
    decide
  have mixed : ∀ literals : List Literal,
      [TypeExpr.keyword .number, .keyword .null] = literals.map .literal →
        ∀ first ∈ literals, ∀ second ∈ literals, first.primitive = second.primitive := by
    rintro (_ | ⟨one, _⟩) same
    all_goals simp at same
  have levels := Describable.union (by simp [Describable.literal]) alone
  have quota := Describable.union
    (by simp [@Describable.keyword .number, @Describable.keyword .null]) mixed
  refine .object (by decide) (by simp) ?_
  rw [List.forall_mem_cons, List.forall_mem_cons, List.forall_mem_singleton]
  exact ⟨.keyword (by decide), levels, .generic (by decide) quota⟩

/-- A level may be missing, a name may not, and members that are not declared do no harm. -/
theorem accepts_typeSchema_sample :
    Describable sampleType ∧
      Inhabits sampleType
        (.obj [("name", .str "ops"), ("quotas", .arr [.int 3, .null]), ("since", .int 7)]) ∧
      ¬Inhabits sampleType (.obj [("level", .int 1), ("quotas", .arr [])]) := by
  refine ⟨sampleType_describable, ?_, fun inhabits => ?_⟩
  · exact (accepts_typeSchema sampleType_describable _).mp (by decide)
  · have accepted := (accepts_typeSchema sampleType_describable _).mpr inhabits
    revert accepted
    decide

end Toggles.Declaration
