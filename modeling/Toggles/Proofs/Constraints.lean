import Mathlib.Data.List.Nodup
import Toggles.Proofs.NormalForm

/-! The constraints that the schema of a parameter carries.

A declared parameter is decoded into its known constraints and all others, and its schema is put
together from these. Nothing is lost on the way and nothing is overridden: the schema has the
members that were declared, but for those that say nothing, and it has a type and a title.
-/

set_option autoImplicit false

namespace Toggles

namespace Json

def isNull : Json → Bool
  | .null => true
  | _ => false

end Json

namespace Ordered

variable {α : Type} {entries : Ordered α} {name : String} {value : α}

def addMissing (entries : Ordered α) (name : String) (value : α) : Ordered α :=
  if name ∈ keys entries then entries else entries ++ [(name, value)]

/-- The entries of some names in the order of the names. -/
def pick (names : List String) (entries : Ordered α) : Ordered α :=
  names.filterMap fun name => (get? entries name).map fun value => (name, value)

theorem get?_append (first second : Ordered α) (name : String) :
    get? (first ++ second) name = (get? first name).or (get? second name) := by
  induction first with
  | nil => rfl
  | cons entry rest ih =>
      rw [List.cons_append, get?, get?, ih]
      split <;> rfl

theorem get?_addMissing (entries : Ordered α) (name : String) (value : α) (key : String) :
    get? (addMissing entries name value) key =
      (get? entries key).or (if name = key then some value else none) := by
  unfold addMissing
  split
  · next present =>
      split
      · next same =>
          obtain ⟨found, given⟩ := Option.isSome_iff_exists.mp (isSome_get?.mpr (same ▸ present))
          rw [given, Option.some_or]
      · rw [Option.or_none]
  · rw [get?_append]
    rfl

theorem Distinct.addMissing (distinct : Distinct entries) (name : String) (value : α) :
    Distinct (addMissing entries name value) := by
  unfold Ordered.addMissing
  split
  · exact distinct
  · next absent =>
      rw [← insert_of_notMem absent]
      exact distinct.insert

theorem get?_filter_entries (distinct : Distinct entries) (keep : String × α → Bool) (name : String) :
    get? (entries.filter keep) name = (get? entries name).filter fun value => keep (name, value) := by
  ext value
  rw [get?_eq_some (distinct.filter keep), List.mem_filter, Option.filter_eq_some_iff,
    get?_eq_some distinct]

theorem mem_pick {names : List String} (distinct : Distinct entries) :
    (name, value) ∈ pick names entries ↔ name ∈ names ∧ (name, value) ∈ entries := by
  simp only [pick, List.mem_filterMap, Option.map_eq_some_iff, Prod.mk.injEq, ← get?_eq_some distinct]
  constructor
  · rintro ⟨_, listed, _, found, rfl, rfl⟩
    exact ⟨listed, found⟩
  · rintro ⟨listed, found⟩
    exact ⟨name, listed, value, found, rfl, rfl⟩

theorem keys_pick (names : List String) (entries : Ordered α) :
    keys (pick names entries) = names.filter fun name => name ∈ keys entries := by
  induction names with
  | nil => rfl
  | cons name names ih =>
      unfold pick keys at ih ⊢
      cases found : get? entries name with
      | none =>
          have absent : name ∉ keys entries := get?_eq_none.mp found
          rw [List.filterMap_cons, found, List.filter_cons_of_neg (by simpa [keys] using absent)]
          exact ih
      | some value =>
          have present : name ∈ keys entries := mem_keys.mpr ⟨value, mem_of_get? found⟩
          rw [List.filterMap_cons, found, List.filter_cons_of_pos (by simpa [keys] using present)]
          exact congrArg (name :: ·) ih

theorem Distinct.pick_append {names : List String} (distinctNames : names.Nodup)
    (distinct : Distinct entries) :
    Distinct (pick names entries ++ entries.filter fun entry => entry.1 ∉ names) := by
  rw [Distinct, keys_append, keys_pick, List.nodup_append]
  refine ⟨distinctNames.filter _, distinct.filter _, fun name picked other left same => ?_⟩
  obtain ⟨value, member⟩ := mem_keys.mp left
  have outside := (List.mem_filter.mp member).2
  exact absurd (List.mem_filter.mp picked).1 (same ▸ of_decide_eq_true outside)

-- The entries of some names are taken to the front of the others.
theorem pick_append_perm {names : List String} (distinctNames : names.Nodup)
    (distinct : Distinct entries) :
    (pick names entries ++ entries.filter fun entry => entry.1 ∉ names).Perm entries := by
  have distinctPicked := List.Nodup.of_map _ (distinct.pick_append distinctNames)
  refine (List.perm_ext_iff_of_nodup distinctPicked (List.Nodup.of_map _ distinct)).mpr
    fun (name, value) => ?_
  rw [List.mem_append, mem_pick distinct, List.mem_filter, decide_eq_true_eq]
  constructor
  · rintro (⟨-, member⟩ | ⟨member, -⟩) <;> exact member
  · intro member
    exact (em (name ∈ names)).imp (⟨·, member⟩) (⟨member, ·⟩)

end Ordered

namespace Definition

open Json (Decoded Members)

/-- The constraints that are missing when null is declared for them. A default of null is a default. -/
def nullableNames : List String :=
  ["type", "title", "description", "minimum", "maximum", "enum", "enumDescriptions"]

def counts (name : String) (value : Json) : Bool :=
  !(value.isNull && nullableNames.contains name)

/-- What a schema has to say of a parameter with some declared members: what these say, and what a
missing type and title stand for. -/
def completed (key : String) (members : Members) : Members :=
  let declared := members.filter fun (name, value) => counts name value
  Ordered.addMissing (Ordered.addMissing declared "type" (.str "string")) "title" (.str key)

namespace Parameter

def member? (parameter : Parameter) : String → Option Json
  | "type" => parameter.kind.map .str
  | "title" => parameter.title.map .str
  | "description" => parameter.description.map .str
  | "default" => parameter.defaultValue
  | "minimum" => parameter.minimum
  | "maximum" => parameter.maximum
  | "enum" => parameter.allowed.map .arr
  | "enumDescriptions" => parameter.allowedDescriptions.map fun texts => .arr (texts.map .str)
  | name => Ordered.get? parameter.extra name

section Taking
variable {parameter next : Parameter} {name : String} {value : Json}

theorem counts_of_unknown (unknown : name ∉ parameterNames) (value : Json) :
    counts name value = true := by
  have other : nullableNames.contains name = false := by
    rw [Bool.eq_false_iff, ne_eq, List.contains_iff_mem]
    exact fun listed => unknown ((by decide : nullableNames ⊆ parameterNames) listed)
  rw [counts, other, Bool.and_false]
  rfl

theorem member?_of_unknown (unknown : name ∉ parameterNames) :
    parameter.member? name = Ordered.get? parameter.extra name := by
  unfold member?
  split
  case h_9 => rfl
  all_goals exact absurd (by decide) unknown

-- A member is written as it was decoded, and null is not written.
theorem map_decodeOptional {α : Type} {decode : Json → Decoded α} {encode : α → Json}
    (inverse : ∀ given decoded, decode given = .ok decoded → encode decoded = given)
    (nullable : nullableNames.contains name = true) {result : Option α}
    (read : Json.decodeOptional decode value = .ok result) :
    result.map encode = if counts name value then some value else none := by
  have given (other : value.isNull = false) (read : (decode value).map some = .ok result) :
      result.map encode = if counts name value then some value else none := by
    have counted : counts name value = true := by rw [counts, other]; rfl
    cases decoded : decode value with
    | error cause => rw [decoded] at read; contradiction
    | ok found =>
        rw [decoded] at read
        cases read
        rw [if_pos counted]
        exact congrArg some (inverse value found decoded)
  cases value with
  | null =>
      cases read
      rw [counts, nullable]
      rfl
  | bool | int | float | str | arr | obj => exact given rfl read

theorem eq_of_decodeBound (nullable : nullableNames.contains name = true) {bound : Option Json}
    (read : decodeBound value = .ok bound) :
    bound = if counts name value then some value else none := by
  have inverse (given found : Json) (read : .ok given = (.ok found : Decoded Json)) :
      id found = given := (Except.ok.inj read).symm
  rw [← map_decodeOptional inverse nullable read, Option.map_id, id]

theorem decodeString_inverse (given : Json) (text : String)
    (read : Json.decodeString given = .ok text) : Json.str text = given := by
  cases given with
  | str => cases read; rfl
  | null | bool | int | float | arr | obj => contradiction

theorem decodeItems_inverse (given : Json) (items : List Json)
    (read : Json.decodeItems given = .ok items) : Json.arr items = given := by
  cases given with
  | arr => cases read; rfl
  | null | bool | int | float | str | obj => contradiction

theorem map_str_of_forall₂ {items : List Json} {texts : List String}
    (each : List.Forall₂ (fun item text => Json.decodeString item = .ok text) items texts) :
    texts.map .str = items := by
  induction each with
  | nil => rfl
  | @cons item text items texts first _ ih =>
      rw [List.map_cons, ih, decodeString_inverse item text first]

theorem decodeStrings_inverse (given : Json) (texts : List String)
    (read : Json.decodeStrings given = .ok texts) : Json.arr (texts.map .str) = given := by
  obtain ⟨items, listed, read⟩ := bind_eq_ok.mp read
  rw [map_str_of_forall₂ (forall₂_of_mapM_eq_ok read), decodeItems_inverse given items listed]

theorem member?_assign_self (taken : parameter.assign name value = .ok next) :
    next.member? name = if counts name value then some value else none := by
  by_cases known : name ∈ parameterNames
  · unfold assign at taken
    split at taken
    case h_4 =>
      cases taken
      rw [counts, show nullableNames.contains "default" = false from rfl, Bool.and_false]
      rfl
    case h_9 => simp_all [parameterNames]
    all_goals
      obtain ⟨decoded, read, same⟩ := bind_eq_ok.mp taken
      cases same
    case h_1 | h_2 | h_3 => exact map_decodeOptional decodeString_inverse rfl read
    case h_5 | h_6 => exact eq_of_decodeBound rfl read
    case h_7 => exact map_decodeOptional decodeItems_inverse rfl read
    case h_8 => exact map_decodeOptional decodeStrings_inverse rfl read
  · rw [assign_unknown _ _ known] at taken
    cases taken
    rw [member?_of_unknown known, Ordered.get?_insert, if_pos rfl, if_pos (counts_of_unknown known value)]

-- A member leaves what a parameter has under the other names.
theorem member?_assign_other (taken : parameter.assign name value = .ok next) {other : String}
    (apart : other ≠ name) : next.member? other = parameter.member? other := by
  by_cases known : name ∈ parameterNames
  · unfold assign at taken
    split at taken
    case h_4 =>
      cases taken
      unfold member?
      split <;> first | rfl | contradiction
    case h_9 => simp_all [parameterNames]
    all_goals
      obtain ⟨_, -, same⟩ := bind_eq_ok.mp taken
      cases same
      unfold member?
      split <;> first | rfl | contradiction
  · rw [assign_unknown _ _ known] at taken
    cases taken
    unfold member?
    split
    case h_9 => rw [Ordered.get?_insert, if_neg (Ne.symm apart)]
    all_goals rfl

theorem extra_assign (taken : parameter.assign name value = .ok next) :
    next.extra = if name ∈ parameterNames then parameter.extra
      else Ordered.insert parameter.extra name value := by
  split
  · next known =>
    unfold assign at taken
    split at taken
    case h_4 => cases taken; rfl
    case h_9 => simp_all [parameterNames]
    all_goals
      obtain ⟨_, -, same⟩ := bind_eq_ok.mp taken
      cases same
      rfl
  · next unknown =>
    rw [assign_unknown _ _ unknown] at taken
    cases taken
    rfl

end Taking

section Decoding
variable {soFar parameter : Parameter} {members : Members} {key name : String}

def unknownMembers (members : Members) : Members :=
  members.filter fun member => member.1 ∉ parameterNames

/-- A parameter has taken the declared members of a name, and nothing under other names. -/
theorem member?_assignAll (distinct : Ordered.Distinct members)
    (taken : soFar.assignAll members = .ok parameter) (name : String) :
    parameter.member? name = match Ordered.get? members name with
      | some value => if counts name value then some value else none
      | none => soFar.member? name := by
  induction members generalizing soFar with
  | nil => cases taken; rfl
  | cons member rest ih =>
      obtain ⟨key, value⟩ := member
      obtain ⟨fresh, distinct⟩ := Ordered.distinct_cons.mp distinct
      obtain ⟨next, assigned, taken⟩ := bind_eq_ok.mp taken
      rw [ih distinct taken, Ordered.get?]
      by_cases same : key = name
      · subst same
        rw [Ordered.get?_eq_none.mpr fresh, if_pos rfl, member?_assign_self assigned]
      · rw [if_neg same, member?_assign_other assigned (Ne.symm same)]

theorem extra_assignAll (taken : soFar.assignAll members = .ok parameter) :
    parameter.extra = Ordered.insertAll soFar.extra (unknownMembers members) := by
  induction members generalizing soFar with
  | nil => cases taken; rfl
  | cons member rest ih =>
      obtain ⟨key, value⟩ := member
      obtain ⟨next, assigned, taken⟩ := bind_eq_ok.mp taken
      rw [ih taken, extra_assign assigned, unknownMembers, unknownMembers]
      by_cases known : key ∈ parameterNames
      · rw [if_pos known, List.filter_cons_of_neg (by simpa using known)]
      · rw [if_neg known, List.filter_cons_of_pos (by simpa using known), Ordered.insertAll_cons]

theorem extra_of_decode (distinct : Ordered.Distinct members)
    (decoded : decode (.obj members) = .ok parameter) : parameter.extra = unknownMembers members := by
  rw [extra_assignAll decoded]
  exact Ordered.insertAll_nil _ (distinct.filter _)

theorem member?_of_decode (distinct : Ordered.Distinct members)
    (decoded : decode (.obj members) = .ok parameter) (name : String) : parameter.member? name =
      Ordered.get? (members.filter fun (name, value) => counts name value) name := by
  have none : blank.member? name = none := by
    unfold member?
    split <;> rfl
  rw [member?_assignAll distinct decoded, Ordered.get?_filter_entries distinct, none]
  cases Ordered.get? members name with
  | some value => rw [Option.filter_some]
  | none => rfl

theorem get?_completed (distinct : Ordered.Distinct members)
    (decoded : decode (.obj members) = .ok parameter) (key name : String) :
    Ordered.get? (completed key members) name = ((parameter.member? name).or
      (if "type" = name then some (.str "string") else none)).or
        (if "title" = name then some (.str key) else none) := by
  rw [completed, Ordered.get?_addMissing, Ordered.get?_addMissing, member?_of_decode distinct decoded]

theorem distinct_completed (distinct : Ordered.Distinct members) (key : String) :
    Ordered.Distinct (completed key members) :=
  ((distinct.filter _).addMissing _ _).addMissing _ _

theorem keys_unknownMembers (members : Members) : Ordered.keys (unknownMembers members) =
    (Ordered.keys members).filter fun name => name ∉ parameterNames := by
  rw [unknownMembers, Ordered.keys, Ordered.keys, List.filter_map]
  rfl

theorem unknownMembers_addMissing (known : name ∈ parameterNames) (members : Members) (value : Json) :
    unknownMembers (Ordered.addMissing members name value) = unknownMembers members := by
  unfold Ordered.addMissing
  split
  · rfl
  · rw [unknownMembers, List.filter_append, List.filter_cons_of_neg (by simpa using known),
      List.filter_nil, List.append_nil]
    rfl

theorem unknownMembers_completed (key : String) (members : Members) :
    unknownMembers (completed key members) = unknownMembers members := by
  rw [completed, unknownMembers_addMissing (by decide), unknownMembers_addMissing (by decide),
    unknownMembers, List.filter_filter]
  refine List.filter_congr fun member _ => ?_
  by_cases known : member.1 ∈ parameterNames
  · simp [known]
  · simp [known, counts_of_unknown known]

-- The constraints of a parameter are written in the order of their names.
theorem pick_completed (distinct : Ordered.Distinct members)
    (decoded : decode (.obj members) = .ok parameter) (key : String) :
    Ordered.pick parameterNames (completed key members) =
      [("type", .str (parameter.kind.getD "string")), ("title", .str (parameter.title.getD key))] ++
        parameter.constraints := by
  have each : Ordered.pick parameterNames (completed key members) = (parameterNames.map fun name =>
      (Ordered.get? (completed key members) name).map fun value => (name, value)).filterMap id := by
    rw [List.filterMap_map]
    rfl
  rw [each]
  simp only [get?_completed distinct decoded, parameterNames, List.map_cons, List.map_nil, member?]
  cases parameter.kind <;> cases parameter.title
  all_goals
    simp [constraints, Option.map_map, Function.comp_def]

theorem keepingPresent_of_disjoint {present added : Members}
    (apart : ∀ name ∈ Ordered.keys added, name ∉ Ordered.keys present) :
    keepingPresent present added = present ++ added := by
  refine congrArg (present ++ ·) (List.filter_eq_self.mpr fun entry member => ?_)
  have absent := apart entry.1 (List.mem_map_of_mem member)
  rw [Bool.not_eq_true', Bool.eq_false_iff, ne_eq, Ordered.contains_iff]
  exact absent

-- The schema of a parameter has the known constraints in front of the others.
theorem schema_eq (distinct : Ordered.Distinct members)
    (decoded : decode (.obj members) = .ok parameter) (key : String) :
    parameter.schema key = .obj (Ordered.pick parameterNames (completed key members) ++
      unknownMembers members) := by
  rw [pick_completed distinct decoded, schema, extra_of_decode distinct decoded,
    keepingPresent_of_disjoint]
  intro name unknown picked
  rw [← pick_completed distinct decoded, Ordered.keys_pick] at picked
  obtain ⟨value, member⟩ := Ordered.mem_keys.mp unknown
  exact of_decide_eq_true (List.mem_filter.mp member).2 (List.mem_filter.mp picked).1

/-- The schema of a parameter carries all of its declaration: up to the order of the members it is
what was declared, without nulls that stand for nothing, and with a type and a title if none were
declared. The known constraints stand in front of the other members, which keep their order. -/
theorem schema_perm_completed (distinct : Ordered.Distinct members)
    (decoded : decode (.obj members) = .ok parameter) (key : String) :
    ∃ written, parameter.schema key = .obj written ∧ written.Perm (completed key members) ∧
      Ordered.keys written =
        (parameterNames.filter fun name => name ∈ Ordered.keys (completed key members)) ++
          (Ordered.keys members).filter fun name => name ∉ parameterNames := by
  refine ⟨_, schema_eq distinct decoded key, ?_, ?_⟩
  · rw [← unknownMembers_completed key]
    exact Ordered.pick_append_perm (by decide) (distinct_completed distinct key)
  · rw [Ordered.keys_append, Ordered.keys_pick, keys_unknownMembers]

/-- Constraints in which null stands for nothing, for a default and for itself. -/
def sampleConstraints : Members :=
  [("pattern", .str "^a"), ("maximum", .int 5), ("default", .null), ("title", .null),
    ("minLength", .null), ("enum", .null), ("description", .str "Label text")]

theorem schema_perm_completed_sample : Ordered.Distinct sampleConstraints ∧
    decode (.obj sampleConstraints) = .ok ⟨none, none, some "Label text", some .null, none,
      some (.int 5), none, none, [("pattern", .str "^a"), ("minLength", .null)]⟩ ∧
    ∃ written, schema "label" ⟨none, none, some "Label text", some .null, none, some (.int 5), none,
        none, [("pattern", .str "^a"), ("minLength", .null)]⟩ = .obj written ∧
      written.Perm (completed "label" sampleConstraints) ∧ Ordered.keys written =
        ["type", "title", "description", "default", "maximum", "pattern", "minLength"] := by
  have distinct : Ordered.Distinct sampleConstraints := by decide
  exact ⟨distinct, rfl, schema_perm_completed distinct rfl "label"⟩

end Decoding

end Parameter

end Definition

end Toggles
