import Toggles.Proofs.Annotation
import Toggles.Proofs.Inhabitants
import Toggles.Proofs.Tags

/-! Values that tags give to the schemas of members.

A JSON value that is written as a default, and a JSON array that is written as the allowed values,
stand in the schema of the member as they are: neither the layout of the comment nor what else it
says touches them.
-/

set_option autoImplicit false

namespace Toggles.Declaration

open Json (Members)

inductive SchemaStep where
  | property (name : String)
  | items
  | variant (index : Nat)
  deriving DecidableEq, Repr

def SchemaStep.follow? (schema : Json) : SchemaStep → Option Json
  | .property name => (schema.member? "properties").bind (·.member? name)
  | .items => schema.member? "items"
  | .variant index =>
      match schema.member? "anyOf" with
      | some (.arr variants) => variants[index]?
      | _ => none

def schemaAt? (schema : Json) : List SchemaStep → Option Json
  | [] => some schema
  | step :: path => (step.follow? schema).bind (schemaAt? · path)

/-- The member of a name. Where a name is declared again the last declaration counts. -/
def member? (members : List Member) (name : String) : Option Member :=
  members.reverse.find? fun member => member.name = name

inductive TypeExpr.HasMember : TypeExpr → List SchemaStep → Member → Prop where
  | here {members : List Member} {name : String} {member : Member}
      (found : member? members name = some member) :
      HasMember (.object members) [.property name] member
  | inside {members : List Member} {name : String} {outer member : Member} {path : List SchemaStep}
      (found : member? members name = some outer) (has : HasMember outer.type path member) :
      HasMember (.object members) (.property name :: path) member
  | item {item : TypeExpr} {path : List SchemaStep} {member : Member}
      (has : HasMember item path member) : HasMember (.array item) (.items :: path) member
  | argument {name : String} {item : TypeExpr} {path : List SchemaStep} {member : Member}
      (array : isArrayName name = true) (has : HasMember item path member) :
      HasMember (.reference name [item]) (.items :: path) member
  | variant {types : List TypeExpr} {index : Nat} {type : TypeExpr} {path : List SchemaStep}
      {member : Member} (listed : types[index]? = some type) (has : HasMember type path member) :
      HasMember (.union types) (.variant index :: path) member

section Places
variable {type : TypeExpr} {path : List SchemaStep} {member : Member}

theorem member?_redocument (change : String → String) (members : List Member) (name : String) :
    member? (members.map (Property.redocument change)) name =
      (member? members name).map (Property.redocument change) := by
  rw [member?, member?, ← List.map_reverse, List.find?_map]
  rfl

-- Other documentation leaves the members in their places.
theorem TypeExpr.HasMember.redocument (has : type.HasMember path member) (change : String → String) :
    (type.redocument change).HasMember path (member.redocument change) := by
  induction has with
  | here found =>
      rw [TypeExpr.redocument, redocumentMembers_eq_map]
      exact .here (by rw [member?_redocument, found, Option.map_some])
  | inside found _ ih =>
      rw [TypeExpr.redocument, redocumentMembers_eq_map]
      exact .inside (by rw [member?_redocument, found, Option.map_some]) ih
  | item _ ih => exact .item ih
  | argument array _ ih =>
      rw [TypeExpr.redocument, redocumentEach_eq_map]
      exact .argument array ih
  | variant listed _ ih =>
      rw [TypeExpr.redocument, redocumentEach_eq_map]
      exact .variant (by rw [List.getElem?_map, listed, Option.map_some]) ih

theorem mapM_literal?_of_mem {types : List TypeExpr} (listed : type ∈ types)
    (other : literal? type = none) : types.mapM literal? = none := by
  obtain ⟨before, after, rfl⟩ := List.append_of_mem listed
  simp [List.mapM_append, other]

theorem TypeExpr.HasMember.literal? (has : type.HasMember path member) :
    Declaration.literal? type = none := by
  cases has <;> rfl

theorem get?_propertySchemas (members : List Member) (name : String) :
    Ordered.get? (Ordered.ofList (propertySchemas members)) name =
      (member? members name).map fun member =>
        .obj (annotate (typeSchema member.type) member.doc) := by
  rw [Ordered.get?_ofList, propertySchemas_eq_map, ← List.map_reverse, List.find?_map, Option.map_map]
  rfl

/-- The members of a schema that other schemas stand in. -/
def structuralNames : List String := ["properties", "items", "anyOf"]

def Structured (schema : Members) (type : TypeExpr) : Prop :=
  ∀ name ∈ structuralNames, Ordered.get? schema name = Ordered.get? (typeSchema type) name

theorem annotations_distinct (comment : Doc.Comment) : Ordered.Distinct (annotations comment) :=
  List.Nodup.sublist (keys_annotations comment) (by decide)

theorem get?_annotate (schema : Members) (body name : String) :
    Ordered.get? (annotate schema (some body)) name =
      (Ordered.get? (annotations (.parse body)) name).or (Ordered.get? schema name) :=
  Ordered.get?_insertAll schema (annotations_distinct _) name

-- Annotations leave the other members as they are.
theorem get?_annotate_of_notMem {name : String} (apart : name ∉ annotationNames) (schema : Members)
    (doc : Option String) : Ordered.get? (annotate schema doc) name = Ordered.get? schema name := by
  cases doc with
  | none => rfl
  | some body =>
      have absent := fun listed => apart ((keys_annotations (.parse body)).subset listed)
      rw [get?_annotate, Ordered.get?_eq_none.mpr absent, Option.none_or]

theorem structured_annotate (type : TypeExpr) (doc : Option String) :
    Structured (annotate (typeSchema type) doc) type := by
  intro name structural
  have apart : name ∉ annotationNames :=
    (by decide : ∀ name ∈ structuralNames, name ∉ annotationNames) name structural
  exact get?_annotate_of_notMem apart _ doc

section Steps
variable {schema : Members}

theorem follow?_property {members : List Member} (structured : Structured schema (.object members))
    (name : String) : SchemaStep.follow? (.obj schema) (.property name) =
      (member? members name).map fun member =>
        .obj (annotate (typeSchema member.type) member.doc) := by
  have properties : Ordered.get? schema "properties" =
      some (.obj (Ordered.ofList (propertySchemas members))) := by
    rw [structured "properties" (by decide), typeSchema]
    rfl
  rw [SchemaStep.follow?, Json.member?, properties, Option.bind_some, Json.member?,
    get?_propertySchemas]

theorem follow?_items {item : TypeExpr} (array : typeSchema type = arraySchema (typeSchema item))
    (structured : Structured schema type) :
    SchemaStep.follow? (.obj schema) .items = some (.obj (typeSchema item)) := by
  rw [SchemaStep.follow?, Json.member?, structured "items" (by decide), array]
  rfl

theorem follow?_variant {types : List TypeExpr} {index : Nat} (listed : types[index]? = some type)
    (other : literal? type = none) (structured : Structured schema (.union types)) :
    SchemaStep.follow? (.obj schema) (.variant index) = some (.obj (typeSchema type)) := by
  have anyOf : typeSchema (.union types) = [("anyOf", .arr (typeSchemas types))] := by
    rw [typeSchema, mapM_literal?_of_mem (List.mem_of_getElem? listed) other]
  have variants : Ordered.get? schema "anyOf" = some (.arr (typeSchemas types)) := by
    rw [structured "anyOf" (by decide), anyOf]
    rfl
  rw [SchemaStep.follow?, Json.member?, variants]
  simp [typeSchemas_eq_map, listed]

end Steps

-- The schema of a member stands at its path, with the annotations of its documentation.
theorem schemaAt?_of_hasMember (has : type.HasMember path member) {schema : Members}
    (structured : Structured schema type) :
    schemaAt? (.obj schema) path = some (.obj (annotate (typeSchema member.type) member.doc)) := by
  have itself (type : TypeExpr) : Structured (typeSchema type) type := fun _ _ => rfl
  induction has generalizing schema with
  | @here members name member found =>
      rw [schemaAt?, follow?_property structured, found]
      rfl
  | @inside members name outer member path found _ ih =>
      rw [schemaAt?, follow?_property structured, found]
      exact ih (structured_annotate outer.type outer.doc)
  | @item item _ _ _ ih =>
      have array : typeSchema (.array item) = arraySchema (typeSchema item) := by rw [typeSchema]
      rw [schemaAt?, follow?_items array structured]
      exact ih (itself item)
  | @argument name item _ _ array _ ih =>
      have array : typeSchema (.reference name [item]) = arraySchema (typeSchema item) := by
        rw [typeSchema, if_pos array]
      rw [schemaAt?, follow?_items array structured]
      exact ih (itself item)
  | @variant types index type _ _ listed has ih =>
      rw [schemaAt?, follow?_variant listed has.literal? structured]
      exact ih (itself type)

theorem schemaAt?_schema {declared : Interface}
    (has : TypeExpr.HasMember (.object declared.members) path member) :
    schemaAt? declared.schema path =
      some (.obj (annotate (typeSchema member.type) member.doc)) := by
  refine schemaAt?_of_hasMember has fun name structural => ?_
  rw [typeSchema]
  simp only [structuralNames, List.mem_cons, List.not_mem_nil, or_false] at structural
  rcases structural with rfl | rfl | rfl <;> rfl

end Places

section Values
variable {value : Json} {body : String} {text : List Char}

/-- The tags whose JSON value stands in the member of their name. -/
inductive Transports : String → Json → Prop where
  | default (value : Json) : Transports "default" value
  | enum (values : List Json) : Transports "enum" (.arr values)

theorem get?_annotations {tag : String} (transports : Transports tag value)
    (readsBack : Json.parse? (String.ofList text) = some value) {comment : Doc.Comment}
    (given : comment.tag? tag = some (String.ofList text)) :
    Ordered.get? (annotations comment) tag = some value := by
  refine Ordered.get?_of_mem (annotations_distinct comment) ?_
  cases transports with
  | default => simp [annotations, given, Doc.defaultValue, readsBack]
  | enum values => simp [annotations, given, Doc.enumValues, readsBack]

def rewriteDoc (old body doc : String) : String :=
  if doc = old then body else doc

def rewrite (old body source : String) : String :=
  redocument (fun _ doc => rewriteDoc old body doc) source

end Values

section Sources
variable {source root : String} {file : SourceFile} {declared : Interface} {path : List SchemaStep}
  {member : Member} {old body tag : String} {value : Json} {text : List Char}

-- A source that has the text already is the same source.
theorem rewrite_self {stream : TokenStream} (tokenized : tokenize source = .ok stream) (body : String) :
    rewrite body body source = source := by
  have same (doc : String) : rewriteDoc body body doc = doc := by
    unfold rewriteDoc
    split
    · next here => exact here.symm
    · rfl
  simp only [rewrite, same, redocument_self tokenized]

-- Another text in place of the documentation of a member is its documentation.
theorem parse_rewrite (parsed : SourceFile.parse source = .ok file) (commentBody : CommentBody body)
    (size : (rewrite old body source).utf8ByteSize ≤ maximumSourceSize) :
    SourceFile.parse (rewrite old body source) = .ok (file.redocument (rewriteDoc old body)) := by
  obtain ⟨stream, tokenized, -⟩ := interfaces_of_parse parsed
  have bodies (number : Nat) (doc : String) (given : CommentBody doc) :
      CommentBody (rewriteDoc old body doc) := by
    unfold rewriteDoc
    split
    · exact commentBody
    · exact given
  obtain ⟨streamOther, tokenizedOther, alike⟩ := tokenize_redocument
    (fun doc other => other = rewriteDoc old body doc) tokenized bodies (fun _ _ => rfl) size
  exact parse_redocumented parsed tokenized tokenizedOther
    (redocumented_of_alike (fun _ _ same => same) alike)

/-- What a tag says is transported exactly: where a JSON value is written as a default, or a JSON
array as the allowed values, in the documentation of a member, the schema of the member has this
value, whatever is written in front of the tag and whatever tags follow it. By `rewrite_self` this
covers a member that is documented so already. -/
theorem compile_rewrite (parsed : SourceFile.parse source = .ok file)
    (found : file.interface? root = some declared)
    (has : TypeExpr.HasMember (.object declared.members) path member)
    (documented : member.doc = some old) (transports : Transports tag value)
    (printed : Json.Printed value text)
    (readsBack : Json.parse? (String.ofList text) = some value)
    (carries : Doc.Carries tag text body) (commentBody : CommentBody body)
    (size : (rewrite old body source).utf8ByteSize ≤ maximumSourceSize) :
    ∃ artifact schema, compile (rewrite old body source) root = .ok artifact ∧
      schemaAt? artifact path = some schema ∧ schema.member? tag = some value := by
  have has := has.redocument (rewriteDoc old body)
  have doc : (member.redocument (rewriteDoc old body)).doc = some body := by
    simp [Property.redocument, documented, rewriteDoc]
  rw [TypeExpr.redocument, redocumentMembers_eq_map] at has
  refine ⟨(declared.redocument (rewriteDoc old body)).schema, _, compile_eq_ok_iff.mpr
    ⟨_, _, parse_rewrite parsed commentBody size, ?_, rfl⟩, schemaAt?_schema has, ?_⟩
  · rw [interface?_redocument, found, Option.map_some]
  · have named : ∀ c ∈ tag.toList, Doc.isTagNamePart c = true := by
      cases transports <;> exact List.all_eq_true.mp (by decide +kernel)
    have given := Doc.tag?_of_carries carries named printed.trimmed
      (Json.unmarked_of_parse? readsBack)
    rw [doc, Json.member?, get?_annotate, get?_annotations transports readsBack given, Option.some_or]

/-- Documentation that allows other values than the declared type does. -/
def listedDocumentation : String :=
  " Mode\n * @default \"fast\"\n * @enum [\n *   \"slow\",\n *   \"@off\"\n * ]\n * @title Modes\n "

def listedValues : Json :=
  .arr [.str "slow", .str "@off"]

theorem carries_listedDocumentation :
    Doc.Carries "enum" (listedValues.prettyChars 0) listedDocumentation := by
  have written : Doc.Written "enum" (listedValues.prettyChars 0)
      [" * @enum [".toList, " *   \"slow\",".toList, " *   \"@off\"".toList, " * ]".toList] := by
    have margin : ∀ c ∈ [' '], Text.isBlank c = true := List.all_eq_true.mp (by decide)
    exact @Doc.Written.rows _ [' ', '*', ' '] [' '] ['[']
      ["  \"slow\",".toList, "  \"@off\"".toList, "]".toList] (.star margin margin) margin
  refine @Doc.Carries.lines _ _ _ [" Mode".toList, " * @default \"fast\"".toList] _ []
    [" * @title Modes".toList, " ".toList] ?_ ?_ written nofun ?_
  all_goals decide +kernel

theorem compile_rewrite_listed :
    SourceFile.parse annotatedSource = .ok ⟨[annotatedInterface]⟩ ∧
      Doc.Carries "enum" (listedValues.prettyChars 0) listedDocumentation ∧
      ∃ artifact schema,
        compile (rewrite " Mode\n@default \"fast\" " listedDocumentation annotatedSource) "A" =
          .ok artifact ∧
        schemaAt? artifact [.property "mode"] = some schema ∧
        schema.member? "enum" = some listedValues := by
  have readsBack : Json.parse? (String.ofList (listedValues.prettyChars 0)) = some listedValues := by
    with_unfolding_all rfl
  have body : CommentBody listedDocumentation := ⟨by decide +kernel, by decide +kernel⟩
  have size : (rewrite " Mode\n@default \"fast\" " listedDocumentation annotatedSource).utf8ByteSize ≤
      maximumSourceSize := by decide +kernel
  exact ⟨parse_annotatedSource, carries_listedDocumentation, compile_rewrite parse_annotatedSource rfl
    (.here rfl) rfl (.enum _) .pretty readsBack carries_listedDocumentation body size⟩

end Sources

end Toggles.Declaration
