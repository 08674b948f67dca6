import Mathlib.Data.List.Induction
import Toggles.Proofs.TagValues

/-! The schemas of object types.

A name may be declared more than once. Its property keeps the place of its first declaration and
has the schema of its last one, and it is required from its first declaration on that is not
optional. This holds of every object type that an artifact describes, and an artifact has
properties nowhere else.
-/

set_option autoImplicit false

namespace Toggles.Declaration

open Json (Members)

section Names
variable {counted : Member → Bool} {members : List Member} {names : List String}

/-- The place of the first member of a name among the members that count. -/
def firstOf (counted : Member → Bool) (members : List Member) (name : String) : Nat :=
  members.findIdx fun member => counted member && member.name == name

/-- The names of the members that count, each of them once, in the order of their first members. -/
structure InOrder (counted : Member → Bool) (members : List Member) (names : List String) : Prop where
  distinct : names.Nodup
  complete : ∀ name, name ∈ names ↔
    ∃ member ∈ members, counted member = true ∧ member.name = name
  ordered : names.Pairwise fun earlier later =>
    firstOf counted members earlier < firstOf counted members later

theorem inOrder_nil (counted : Member → Bool) : InOrder counted [] [] :=
  ⟨.nil, by simp, .nil⟩

theorem InOrder.firstOf_lt (inOrder : InOrder counted members names) {name : String}
    (listed : name ∈ names) : firstOf counted members name < members.length := by
  obtain ⟨member, present, counts, same⟩ := (inOrder.complete name).mp listed
  exact List.findIdx_lt_length_of_exists ⟨member, present, by simp [counts, same]⟩

-- A further member does not change where the first members of the names stand.
theorem InOrder.firstOf_append (inOrder : InOrder counted members names) {name : String}
    (listed : name ∈ names) (member : Member) :
    firstOf counted (members ++ [member]) name = firstOf counted members name := by
  have before := inOrder.firstOf_lt listed
  unfold firstOf at before ⊢
  rw [List.findIdx_append, if_pos before]

theorem InOrder.ordered_append (inOrder : InOrder counted members names) (member : Member) :
    names.Pairwise fun earlier later =>
      firstOf counted (members ++ [member]) earlier < firstOf counted (members ++ [member]) later := by
  refine inOrder.ordered.imp_of_mem fun first second precedes => ?_
  rwa [inOrder.firstOf_append first, inOrder.firstOf_append second]

-- A member whose name is listed or that does not count adds no name.
theorem InOrder.keep (inOrder : InOrder counted members names) {member : Member}
    (known : counted member = true → member.name ∈ names) :
    InOrder counted (members ++ [member]) names where
  distinct := inOrder.distinct
  complete name := by
    rw [inOrder.complete]
    constructor
    · rintro ⟨other, present, counts, same⟩
      exact ⟨other, List.mem_append_left _ present, counts, same⟩
    · rintro ⟨other, present, counts, rfl⟩
      rcases List.mem_append.mp present with present | last
      · exact ⟨other, present, counts, rfl⟩
      · cases List.mem_singleton.mp last
        exact (inOrder.complete _).mp (known counts)
  ordered := inOrder.ordered_append member

-- The first member of a name adds it at the end.
theorem InOrder.add (inOrder : InOrder counted members names) {member : Member}
    (counts : counted member = true) (new : member.name ∉ names) :
    InOrder counted (members ++ [member]) (names ++ [member.name]) where
  distinct := by
    refine List.nodup_append.mpr ⟨inOrder.distinct, List.nodup_cons.mpr ⟨List.not_mem_nil, .nil⟩, ?_⟩
    rintro name listed other last rfl
    exact new (List.mem_singleton.mp last ▸ listed)
  complete name := by
    rw [List.mem_append, List.mem_singleton, inOrder.complete]
    constructor
    · rintro (⟨other, present, counted, same⟩ | rfl)
      · exact ⟨other, List.mem_append_left _ present, counted, same⟩
      · exact ⟨member, List.mem_append_right _ List.mem_cons_self, counts, rfl⟩
    · rintro ⟨other, present, counted, rfl⟩
      rcases List.mem_append.mp present with present | last
      · exact .inl ⟨other, present, counted, rfl⟩
      · exact .inr (congrArg Property.name (List.mem_singleton.mp last))
  ordered := by
    refine List.pairwise_append.mpr ⟨inOrder.ordered_append member, List.pairwise_singleton _ _, ?_⟩
    intro name listed other last
    cases List.mem_singleton.mp last
    have unlisted : ¬firstOf counted members member.name < members.length := by
      intro found
      obtain ⟨other, present, same⟩ := List.findIdx_lt_length.mp found
      simp only [Bool.and_eq_true, beq_iff_eq] at same
      exact new ((inOrder.complete _).mpr ⟨other, present, same⟩)
    rw [inOrder.firstOf_append listed]
    refine Nat.lt_of_lt_of_le (inOrder.firstOf_lt listed) ?_
    unfold firstOf at unlisted ⊢
    rw [List.findIdx_append, if_neg unlisted]
    exact Nat.le_add_left _ _

end Names

section Objects
variable (members : List Member) (member : Member)

theorem keys_ofList_append {α : Type} (entries : List (String × α)) (name : String) (value : α) :
    Ordered.keys (Ordered.ofList (entries ++ [(name, value)])) =
      if name ∈ Ordered.keys (Ordered.ofList entries) then Ordered.keys (Ordered.ofList entries)
      else Ordered.keys (Ordered.ofList entries) ++ [name] := by
  have last : Ordered.ofList (entries ++ [(name, value)]) =
      Ordered.insert (Ordered.ofList entries) name value := by
    simp [Ordered.ofList, Ordered.insertAll]
  rw [last]
  split
  · next present => exact Ordered.keys_insert_of_mem present
  · next fresh => simp [Ordered.insert_of_notMem fresh]

theorem eraseDups_append_singleton (names : List String) (name : String) :
    (names ++ [name]).eraseDups =
      if name ∈ names.eraseDups then names.eraseDups else names.eraseDups ++ [name] := by
  rw [List.eraseDups_append]
  by_cases present : name ∈ names <;> simp [present, List.removeAll, List.eraseDups_cons]

def properties : Members :=
  Ordered.ofList (propertySchemas members)

theorem inOrder_keys_properties :
    InOrder (fun _ => true) members (Ordered.keys (properties members)) := by
  induction members using List.reverseRecOn with
  | nil => exact inOrder_nil _
  | append_singleton members member ih =>
      unfold properties at ih ⊢
      rw [propertySchemas_eq_map] at ih ⊢
      rw [List.map_append, List.map_singleton, keys_ofList_append]
      split
      · next known => exact ih.keep fun _ => known
      · next new => exact ih.add rfl new

theorem inOrder_requiredNames :
    InOrder (fun member => !member.optional) members (requiredNames members).eraseDups := by
  induction members using List.reverseRecOn with
  | nil => exact inOrder_nil _
  | append_singleton members member ih =>
      unfold requiredNames at ih ⊢
      rw [List.filter_append, List.map_append]
      cases optional : member.optional with
      | true =>
          rw [List.filter_cons_of_neg (by simp [optional]), List.filter_nil, List.map_nil,
            List.append_nil]
          exact ih.keep fun counts => by simp [optional] at counts
      | false =>
          rw [List.filter_cons_of_pos (by simp [optional]), List.filter_nil, List.map_singleton,
            eraseDups_append_singleton]
          split
          · next known => exact ih.keep fun _ => known
          · next new => exact ih.add (by simp [optional]) new

-- Of the members of a name the last one is found.
theorem member?_of_last {members before after : List Member} {member : Member}
    (split : members = before ++ member :: after)
    (last : ∀ later ∈ after, later.name ≠ member.name) :
    member? members member.name = some member := by
  have none : after.reverse.find? (fun other => other.name = member.name) = none := by
    simpa using last
  rw [member?, split, List.reverse_append, List.reverse_cons, List.append_assoc, List.find?_append,
    none, Option.none_or, List.singleton_append, List.find?_cons_of_pos (by simp)]

/-- What a schema says about the members of an object type. -/
structure Outlines (members : List Member) (schema : Json) (properties : Members)
    (names : List String) : Prop where
  kind : schema.member? "type" = some (.str "object")
  given : schema.member? "properties" = some (.obj properties)
  needed : schema.member? "required" = some (.arr (names.map .str))
  keys : InOrder (fun _ => true) members (Ordered.keys properties)
  last : ∀ before member after, members = before ++ member :: after →
    (∀ later ∈ after, later.name ≠ member.name) →
      Ordered.get? properties member.name = some (.obj (annotate (typeSchema member.type) member.doc))
  required : InOrder (fun member => !member.optional) members names
  subset : names ⊆ Ordered.keys properties

end Objects

section Places

/-- The members of a schema that no documentation gives. -/
def skeletonNames : List String := ["type", "properties", "required", "items", "anyOf"]

def Shaped (schema : Members) (type : TypeExpr) : Prop :=
  ∀ name ∈ skeletonNames, Ordered.get? schema name = Ordered.get? (typeSchema type) name

variable {schema : Members} {type : TypeExpr}

theorem shaped_typeSchema (type : TypeExpr) : Shaped (typeSchema type) type :=
  fun _ _ => rfl

theorem shaped_annotate (type : TypeExpr) (doc : Option String) :
    Shaped (annotate (typeSchema type) doc) type := by
  intro name listed
  have apart : name ∉ annotationNames :=
    (by decide : ∀ name ∈ skeletonNames, name ∉ annotationNames) name listed
  exact get?_annotate_of_notMem apart _ doc

-- An artifact also names its dialect and its interface.
theorem exists_shaped_schema (declared : Interface) :
    ∃ schema, declared.schema = .obj schema ∧ Shaped schema (.object declared.members) := by
  refine ⟨_, rfl, fun name listed => ?_⟩
  simp only [skeletonNames, List.mem_cons, List.not_mem_nil, or_false] at listed
  rw [typeSchema]
  rcases listed with rfl | rfl | rfl | rfl | rfl <;> rfl

theorem Shaped.outlines {members : List Member} (shaped : Shaped schema (.object members)) :
    Outlines members (.obj schema) (properties members) (requiredNames members).eraseDups where
  kind := by
    rw [Json.member?, shaped "type" (by decide), typeSchema]
    rfl
  given := by
    rw [Json.member?, shaped "properties" (by decide), typeSchema]
    rfl
  needed := by
    rw [Json.member?, shaped "required" (by decide), typeSchema]
    rfl
  keys := inOrder_keys_properties members
  last before member after split last := by
    rw [properties, get?_propertySchemas, member?_of_last split last]
    rfl
  required := inOrder_requiredNames members
  subset name listed := by
    obtain ⟨member, present, -, same⟩ := ((inOrder_requiredNames members).complete name).mp listed
    exact ((inOrder_keys_properties members).complete name).mpr ⟨member, present, rfl, same⟩

def TypeExpr.step? : TypeExpr → SchemaStep → Option TypeExpr
  | .array item, .items => some item
  | .reference name [item], .items => if isArrayName name then some item else none
  | .union types, .variant index =>
      match types.mapM literal? with
      | some (_ :: _) => none
      | _ => types[index]?
  | .object members, .property name => (member? members name).map (·.type)
  | _, _ => none

def TypeExpr.at? (type : TypeExpr) : List SchemaStep → Option TypeExpr
  | [] => some type
  | step :: path => (type.step? step).bind (·.at? path)

def Describes (schema : Json) (type : TypeExpr) : Prop :=
  ∃ members, schema = .obj members ∧ Shaped members type

theorem describes_typeSchema (type : TypeExpr) : Describes (.obj (typeSchema type)) type :=
  ⟨_, rfl, shaped_typeSchema type⟩

theorem follow?_congr (shaped : Shaped schema type) (step : SchemaStep) :
    step.follow? (.obj schema) = step.follow? (.obj (typeSchema type)) := by
  cases step <;>
    simp only [SchemaStep.follow?, Json.member?, shaped "properties" (by decide),
      shaped "items" (by decide), shaped "anyOf" (by decide)]

-- A step in the schema of a type leads to the schema of what it leads to in the type.
theorem follow?_typeSchema (type : TypeExpr) (step : SchemaStep) :
    Option.Rel Describes (step.follow? (.obj (typeSchema type))) (type.step? step) := by
  cases type with
  | keyword keyword => cases keyword <;> cases step <;> exact .none
  | literal literal => cases step <;> exact .none
  | tuple items => cases step <;> exact .none
  | uninterpreted => cases step <;> exact .none
  | array item =>
      cases step with
      | items => exact .some (describes_typeSchema item)
      | property | variant => exact .none
  | reference name arguments =>
      rcases arguments with _ | ⟨item, _ | ⟨second, others⟩⟩
      · cases step <;> exact .none
      · rw [typeSchema]
        split
        · next array =>
            cases step with
            | items =>
                rw [TypeExpr.step?, if_pos array]
                exact .some (describes_typeSchema item)
            | property | variant => exact .none
        · next other =>
            cases step with
            | items =>
                rw [TypeExpr.step?, if_neg other]
                exact .none
            | property | variant => exact .none
      · cases step <;> exact .none
  | union types =>
      rw [typeSchema]
      split
      · next first others alone =>
          cases step with
          | variant index =>
              rw [TypeExpr.step?, alone]
              exact .none
          | property | items => exact .none
      · next other =>
          cases step with
          | variant index =>
              have choice : (TypeExpr.union types).step? (.variant index) = types[index]? := by
                rw [TypeExpr.step?]
                split
                · next alone => exact absurd alone (other _ _)
                · rfl
              have variants : SchemaStep.follow? (.obj [("anyOf", .arr (typeSchemas types))])
                  (.variant index) = types[index]?.map fun type => .obj (typeSchema type) := by
                rw [← List.getElem?_map, ← typeSchemas_eq_map]
                rfl
              rw [choice, variants]
              cases types[index]? with
              | none => exact .none
              | some type => exact .some (describes_typeSchema type)
          | property | items => exact .none
  | object members =>
      cases step with
      | items | variant => exact .none
      | property name =>
          rw [follow?_property (fun _ _ => rfl), TypeExpr.step?]
          cases member? members name with
          | none => exact .none
          | some member => exact .some ⟨_, rfl, shaped_annotate member.type member.doc⟩

theorem schemaAt?_describes (path : List SchemaStep) {schema : Json} (describes : Describes schema type) :
    Option.Rel Describes (schemaAt? schema path) (type.at? path) := by
  induction path generalizing schema type with
  | nil => exact .some describes
  | cons step path ih =>
      obtain ⟨members, rfl, shaped⟩ := describes
      rw [schemaAt?, TypeExpr.at?, follow?_congr shaped]
      have next := follow?_typeSchema type step
      generalize step.follow? (.obj (typeSchema type)) = found at next
      generalize type.step? step = inner at next
      cases next with
      | some describes => exact ih describes
      | none => exact .none

theorem object_of_shaped (shaped : Shaped schema type)
    (present : (Ordered.get? schema "properties").isSome = true) :
    ∃ members, type = .object members := by
  rw [shaped "properties" (by decide)] at present
  cases type with
  | object members => exact ⟨members, rfl⟩
  | keyword keyword => cases keyword <;> cases present
  | literal | array | tuple | uninterpreted => cases present
  | union types =>
      rw [typeSchema] at present
      split at present <;> cases present
  | reference name arguments =>
      rcases arguments with _ | ⟨item, _ | ⟨second, others⟩⟩
      · cases present
      · rw [typeSchema] at present
        split at present <;> cases present
      · cases present

end Places

/-- The schema of an interface outlines the members of every object type that it describes: its own
members, and those of the object types in their types, wherever a path leads to one. The names of
the properties are those of the members in the order of their first declarations, and each has the
schema and the annotations of its last one. The required names are those of the members that are
not optional, in the order of the first of these. No path leads to other properties. -/
theorem schema_outlines (declared : Interface) (path : List SchemaStep) :
    (∀ members, (TypeExpr.object declared.members).at? path = some (.object members) →
      ∃ schema properties required, schemaAt? declared.schema path = some schema ∧
        Outlines members schema properties required) ∧
    (∀ schema, schemaAt? declared.schema path = some schema →
      (schema.member? "properties").isSome = true →
        ∃ members, (TypeExpr.object declared.members).at? path = some (.object members)) := by
  obtain ⟨artifact, same, shaped⟩ := exists_shaped_schema declared
  have described := schemaAt?_describes path ⟨artifact, rfl, shaped⟩
  rw [← same] at described
  constructor
  · intro members leads
    rw [leads] at described
    generalize schemaAt? declared.schema path = found at described
    cases described with
    | some describes =>
        obtain ⟨schema, rfl, shaped⟩ := describes
        exact ⟨_, _, _, rfl, shaped.outlines⟩
  · intro schema leads present
    rw [leads] at described
    generalize (TypeExpr.object declared.members).at? path = found at described
    cases described with
    | some describes =>
        obtain ⟨members, rfl, shaped⟩ := describes
        obtain ⟨inner, rfl⟩ := object_of_shaped shaped present
        exact ⟨inner, rfl⟩

def redeclaring : Interface :=
  ⟨"A", [⟨"a", true, none, .keyword .string⟩, ⟨"b", false, none, .keyword .number⟩,
    ⟨"a", false, some " Items ", .array (.object [⟨"x", false, none, .keyword .null⟩,
      ⟨"x", true, none, .keyword .string⟩])⟩]⟩

theorem schema_outlines_redeclaring :
    (TypeExpr.object redeclaring.members).at? [.property "a", .items] =
        some (.object [⟨"x", false, none, .keyword .null⟩, ⟨"x", true, none, .keyword .string⟩]) ∧
      ∃ schema properties required,
        schemaAt? redeclaring.schema [.property "a", .items] = some schema ∧
        Outlines [⟨"x", false, none, .keyword .null⟩, ⟨"x", true, none, .keyword .string⟩] schema
          properties required :=
  ⟨rfl, (schema_outlines redeclaring [.property "a", .items]).1 _ rfl⟩

end Toggles.Declaration
