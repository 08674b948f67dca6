import Toggles.Declaration.Schema
import Toggles.Proofs.Ordered
import Toggles.Proofs.Replacement

/-! Documentation comments only annotate.

What a comment says stands in seven members of the schema of its property. Without these members
the schema is the one of the declared types, whatever the comments say: their text can make no
source be refused and can change no structure.
-/

set_option autoImplicit false

namespace Toggles.Declaration

open Json (Members)

def annotationNames : List String :=
  ["title", "description", "default", "minimum", "maximum", "enum", "enumDescriptions"]

inductive Place where
  | schema
  | property
  | properties
  | variants
  | other
  deriving DecidableEq, Repr

namespace Place

def under : Place → String → Place
  | .schema, name | .property, name =>
      if name = "properties" then .properties
      else if name = "items" then .schema
      else if name = "anyOf" then .variants
      else .other
  | .properties, _ => .property
  | .variants, _ | .other, _ => .other

def item : Place → Place
  | .variants => .schema
  | _ => .other

/-- Only the schema of a property loses members. -/
def keeps (place : Place) (name : String) : Bool :=
  place ≠ .property || name ∉ annotationNames

end Place

mutual

/-- A value without the annotations of the property schemas in it. -/
def bare (place : Place) : Json → Json
  | .obj members => .obj (bareMembers place members)
  | .arr items => .arr (bareItems place items)
  | value => value

def bareMembers (place : Place) : List (String × Json) → Members
  | [] => []
  | (name, value) :: rest =>
      if place.keeps name then (name, bare (place.under name) value) :: bareMembers place rest
      else bareMembers place rest

def bareItems (place : Place) : List Json → List Json
  | [] => []
  | item :: rest => bare place.item item :: bareItems place rest

end

section Annotations

theorem bareMembers_append (place : Place) (first second : Members) :
    bareMembers place (first ++ second) = bareMembers place first ++ bareMembers place second := by
  induction first with
  | nil => rfl
  | cons entry rest ih =>
      rw [List.cons_append, bareMembers, bareMembers, ih]
      split <;> rfl

theorem bareMembers_insert {name : String} (listed : name ∈ annotationNames) (members : Members)
    (value : Json) :
    bareMembers .property (Ordered.insert members name value) = bareMembers .property members := by
  have dropped : Place.property.keeps name = false := by simp [Place.keeps, listed]
  induction members with
  | nil => simp [Ordered.insert, bareMembers, dropped]
  | cons entry rest ih =>
      obtain ⟨key, present⟩ := entry
      rw [Ordered.insert]
      split
      · next same => simp [bareMembers, same, dropped]
      · rw [bareMembers, bareMembers, ih]

theorem bareMembers_insertAll {added : Members}
    (annotations : ∀ name ∈ Ordered.keys added, name ∈ annotationNames) (members : Members) :
    bareMembers .property (Ordered.insertAll members added) = bareMembers .property members := by
  induction added generalizing members with
  | nil => rfl
  | cons entry rest ih =>
      obtain ⟨here, others⟩ := List.forall_mem_cons.mp annotations
      exact (ih others _).trans (bareMembers_insert here members entry.2)

-- The names of the entries that are given are among the names of all entries, in their order.
theorem keys_given {entries : List (Option (String × Json))} {names : List String}
    (named : List.Forall₂ (fun entry name => ∀ given ∈ entry, given.1 = name) entries names) :
    (Ordered.keys (entries.filterMap id)).Sublist names := by
  induction named with
  | nil => exact .slnil
  | @cons entry name _ _ here _ ih =>
      cases entry with
      | none => exact ih.cons name
      | some given =>
          cases here given rfl
          exact ih.cons_cons given.1

theorem keys_annotations (comment : Doc.Comment) :
    (Ordered.keys (annotations comment)).Sublist annotationNames := by
  have named {α : Type} (value : Option α) (entry : α → Json) (name : String) :
      ∀ given ∈ value.map fun value => (name, entry value), given.1 = name := by
    intro given same
    obtain ⟨_, -, rfl⟩ := Option.map_eq_some_iff.mp same
    rfl
  refine keys_given (.cons (named _ _ _) (.cons (named _ _ _) (.cons (named _ _ _)
    (.cons (named _ id _) (.cons (named _ id _) (.cons (named _ _ _) (.cons ?_ .nil)))))))
  intro given same
  split at same <;> cases same
  rfl

theorem bareMembers_annotate (schema : Members) (doc : Option String) :
    bareMembers .property (annotate schema doc) = bareMembers .property schema := by
  cases doc with
  | none => rfl
  | some body => exact bareMembers_insertAll (fun _ member => (keys_annotations _).subset member) schema

-- The members that are kept of the schema of a property are kept of any schema.
theorem bareMembers_property (members : Members) : bareMembers .property members =
    (bareMembers .schema members).filter fun entry => entry.1 ∉ annotationNames := by
  induction members with
  | nil => rfl
  | cons entry rest ih =>
      obtain ⟨name, value⟩ := entry
      have kept : Place.schema.keeps name = true := rfl
      rw [bareMembers, bareMembers, if_pos kept, List.filter_cons, ih]
      by_cases annotation : name ∈ annotationNames <;> simp [Place.keeps, annotation, Place.under]

end Annotations

section Types
variable (change : String → String)

theorem bareMembers_insert_properties (properties : Members) (name : String) (value : Json) :
    bareMembers .properties (Ordered.insert properties name value) =
      Ordered.insert (bareMembers .properties properties) name (bare .property value) := by
  have kept (name : String) : Place.properties.keeps name = true := rfl
  induction properties with
  | nil => simp [Ordered.insert, bareMembers, kept, Place.under]
  | cons entry rest ih =>
      obtain ⟨key, present⟩ := entry
      rw [Ordered.insert]
      split
      · next same => simp [bareMembers, kept, Ordered.insert, same, Place.under]
      · next other => simp [bareMembers, kept, Ordered.insert, other, ih]

theorem bareMembers_ofList (properties : Members) :
    bareMembers .properties (Ordered.ofList properties) =
      Ordered.ofList (bareMembers .properties properties) := by
  have all (before : Members) : bareMembers .properties (Ordered.insertAll before properties) =
      Ordered.insertAll (bareMembers .properties before) (bareMembers .properties properties) := by
    have kept (name : String) : Place.properties.keeps name = true := rfl
    induction properties generalizing before with
    | nil => rfl
    | cons entry rest ih =>
        obtain ⟨name, value⟩ := entry
        rw [bareMembers, if_pos (kept name)]
        exact (ih _).trans (by rw [bareMembers_insert_properties]; rfl)
  exact all []

-- The schema of an object depends on the schemas of its properties without their annotations.
theorem bareMembers_objectSchema (properties : Members) (required : List String) :
    bareMembers .schema (objectSchema properties required) =
      typed "object" ++ [("properties", .obj (Ordered.ofList (bareMembers .properties properties))),
        ("required", bare .other (.arr (required.eraseDups.map .str)))] := by
  rw [objectSchema, bareMembers_append, ← bareMembers_ofList]
  rfl

theorem bareMembers_arraySchema (items : Members) :
    bareMembers .schema (arraySchema items) =
      typed "array" ++ [("items", .obj (bareMembers .schema items))] := by
  rfl

theorem bareMembers_anyOf (variants : List Json) :
    bareMembers .schema [("anyOf", .arr variants)] =
      [("anyOf", .arr (bareItems .variants variants))] := by
  rfl

mutual

theorem bareMembers_typeSchema : (type : TypeExpr) →
    bareMembers .schema (typeSchema (type.redocument change)) = bareMembers .schema (typeSchema type)
  | .keyword _ | .literal _ | .tuple _ | .uninterpreted => rfl
  | .array item => by
      rw [TypeExpr.redocument, typeSchema, typeSchema, bareMembers_arraySchema,
        bareMembers_arraySchema, bareMembers_typeSchema item]
  | .union members => by
      rw [TypeExpr.redocument, redocumentEach_eq_map, typeSchema, typeSchema,
        mapM_literal?_redocument]
      split
      · rfl
      · rw [bareMembers_anyOf, bareMembers_anyOf, bareItems_typeSchemas members]
  | .object members => by
      rw [TypeExpr.redocument, redocumentMembers_eq_map, typeSchema, typeSchema,
        bareMembers_objectSchema, bareMembers_objectSchema, bareMembers_propertySchemas members,
        requiredNames_redocument]
  | .reference name [item] => by
      rw [TypeExpr.redocument, redocumentEach_eq_map, List.map_cons, List.map_nil, typeSchema,
        typeSchema]
      split
      · rw [bareMembers_arraySchema, bareMembers_arraySchema, bareMembers_typeSchema item]
      · rfl
  | .reference name [] | .reference name (_ :: _ :: _) => rfl

theorem bareItems_typeSchemas : (types : List TypeExpr) →
    bareItems .variants (typeSchemas (types.map (TypeExpr.redocument change))) =
      bareItems .variants (typeSchemas types)
  | [] => rfl
  | type :: types => by
      rw [List.map_cons, typeSchemas, typeSchemas, bareItems, bareItems,
        bareItems_typeSchemas types, bare, bare]
      exact congrArg (Json.obj · :: _) (bareMembers_typeSchema type)

theorem bareMembers_propertySchemas : (members : List (Property TypeExpr)) →
    bareMembers .properties (propertySchemas (members.map (Property.redocument change))) =
      bareMembers .properties (propertySchemas members)
  | [] => rfl
  | ⟨name, optional, doc, type⟩ :: members => by
      have schema :
          bare .property (.obj (annotate (typeSchema (type.redocument change)) (doc.map change))) =
            bare .property (.obj (annotate (typeSchema type) doc)) := by
        rw [bare, bare, bareMembers_annotate, bareMembers_annotate, bareMembers_property,
          bareMembers_property, bareMembers_typeSchema type]
      have kept : Place.properties.keeps name = true := rfl
      rw [List.map_cons, Property.redocument, propertySchemas, propertySchemas, bareMembers,
        bareMembers, if_pos kept, if_pos kept, bareMembers_propertySchemas members]
      exact congrArg (fun value => (name, value) :: _) schema

end

-- Two declarations that become the same have the same schema but for annotations.
theorem bare_schema (declared : Interface) :
    bare .schema (declared.redocument change).schema = bare .schema declared.schema := by
  have kept : Place.schema.keeps "$schema" = true := rfl
  simp only [Interface.schema, Interface.redocument, bare, bareMembers, if_pos kept,
    bareMembers_append, bareMembers_objectSchema, bareMembers_propertySchemas,
    requiredNames_redocument]

end Types

section Tokens

def undocumented (tokens : List Located) : List Located :=
  tokens.map fun located => { located with doc := located.doc.map fun _ => "" }

theorem redocumented_undocumented (tokens : List Located) :
    Redocumented (fun _ => "") tokens (undocumented tokens) := by
  refine redocumented_of_forall₂ ?_
  rw [undocumented, List.forall₂_map_right_iff, List.forall₂_same]
  exact fun located _ => ⟨.refl located.token, rfl⟩

theorem undocumented_of_alike {tokens others : List Located}
    (alike : List.Forall₂ (fun located other =>
      AlikeContent (fun _ _ => True) located.content other.content) tokens others) :
    Redocumented (fun _ => "") others (undocumented tokens) := by
  refine redocumented_of_forall₂ ?_
  rw [undocumented, List.forall₂_map_right_iff]
  refine alike.flip.imp fun other located alike => ⟨alike.token.symm, ?_⟩
  rcases other with ⟨token, position, _ | doc⟩ <;> rcases located with ⟨token', position', _ | doc'⟩
  all_goals first | rfl | cases alike.doc

end Tokens

section Sources
variable {source root : String} {artifact : Json}

/-- Whatever a source says in its documentation comments, it is accepted with any other texts in
them, and the two artifacts differ only in the annotations of the schemas of properties: without
these both have the same properties in the same order, of the same types. -/
theorem compile_redocument {replacement : Nat → String}
    (compiled : compile source root = .ok artifact)
    (bodies : ∀ number, CommentBody (replacement number))
    (size : (redocument (fun number _ => replacement number) source).utf8ByteSize ≤
      maximumSourceSize) :
    ∃ other, compile (redocument (fun number _ => replacement number) source) root = .ok other ∧
      bare .schema other = bare .schema artifact := by
  obtain ⟨file, declared, parsed, found, rfl⟩ := compile_eq_ok_iff.mp compiled
  obtain ⟨stream, tokenized, -⟩ := interfaces_of_parse parsed
  obtain ⟨streamOther, tokenizedOther, alike⟩ := tokenize_redocument (fun _ _ => True) tokenized
    (fun number _ _ => bodies number) (fun _ _ => trivial) size
  -- Both become the tokens of the source with every documentation comment empty.
  obtain ⟨fileOther, parsedOther, same⟩ := parse_of_common parsed tokenized tokenizedOther
    (redocumented_undocumented stream.tokens) (undocumented_of_alike alike)
  have declares := interface?_redocument (fun _ => "") file root
  rw [← same, interface?_redocument, found, Option.map_some] at declares
  obtain ⟨other, foundOther, sameOther⟩ := Option.map_eq_some_iff.mp declares
  refine ⟨other.schema, compile_eq_ok_iff.mpr ⟨fileOther, other, parsedOther, foundOther, rfl⟩, ?_⟩
  rw [← bare_schema (fun _ => ""), sameOther, bare_schema]

def annotatedSource : String :=
  "interface A\x7b/** Mode\n@default \"fast\" */mode:\"fast\"|\"slow\"\x7d"

def annotatedInterface : Interface :=
  ⟨"A", [⟨"mode", false, some " Mode\n@default \"fast\" ",
    .union [.literal (.string "fast"), .literal (.string "slow")]⟩]⟩

theorem parse_annotatedSource : SourceFile.parse annotatedSource = .ok ⟨[annotatedInterface]⟩ := by
  have tokenized : tokenize annotatedSource = .ok ⟨[
      ⟨.word "interface", 0, none⟩, ⟨.word "A", 10, none⟩, ⟨.mark .openBrace, 11, none⟩,
      ⟨.word "mode", 39, some " Mode\n@default \"fast\" "⟩, ⟨.mark .colon, 43, none⟩,
      ⟨.quoted "fast", 44, none⟩, ⟨.mark .pipe, 50, none⟩, ⟨.quoted "slow", 51, none⟩,
      ⟨.mark .closeBrace, 57, none⟩], 58, none⟩ := by
    decide +kernel
  rw [SourceFile.parse, tokenized]
  refine ofTokens_eq_ok ?_
  with_unfolding_all rfl

/-- The body of a documentation comment in which every tag is broken. -/
def brokenDocumentation : String :=
  "@default [1,\n@enum\n@min many\n@enumDescription"

theorem compile_redocument_broken :
    redocument (fun _ _ => brokenDocumentation) annotatedSource =
        "interface A\x7b/**@default [1,\n@enum\n@min many\n@enumDescription*/mode:\"fast\"|\"slow\"\x7d" ∧
      compile annotatedSource "A" = .ok annotatedInterface.schema ∧ CommentBody brokenDocumentation ∧
      ∃ other, compile (redocument (fun _ _ => brokenDocumentation) annotatedSource) "A" = .ok other ∧
        bare .schema other = bare .schema annotatedInterface.schema := by
  have compiled : compile annotatedSource "A" = .ok annotatedInterface.schema :=
    compile_eq_ok_iff.mpr ⟨_, _, parse_annotatedSource, rfl, rfl⟩
  have body : CommentBody brokenDocumentation := ⟨by decide +kernel, by decide +kernel⟩
  have size : (redocument (fun _ _ => brokenDocumentation) annotatedSource).utf8ByteSize ≤
      maximumSourceSize := by decide +kernel
  exact ⟨by decide +kernel, compiled, body, compile_redocument compiled (fun _ => body) size⟩

end Sources

end Toggles.Declaration
