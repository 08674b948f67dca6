import Toggles.Proofs.WellFormed

/-! The normal form of a definition.

A feature is written with its children in a member of their own, however they were
spelled where it was read, and without the members that say nothing. What reading has
made of a feature can be written in such a way that no member is taken for another one,
so reading the normal form yields the feature again.
-/

set_option autoImplicit false

namespace Toggles.Definition

open Json (Members)

section Members
variable {α β γ : Type} {read : α → Members → β} {before next after : α}

/-- A reader gets from one state to another over members that may be left out. -/
def PassesOver (read : α → Members → β) (before : α) (members : List (Option (String × Json)))
    (after : α) : Prop :=
  ∀ rest, read before (members.filterMap id ++ rest) = read after rest

theorem PassesOver.nil : PassesOver read before [] before := fun _ => rfl

theorem PassesOver.given {member : String × Json} {others : List (Option (String × Json))}
    (first : ∀ rest, read before (member :: rest) = read next rest)
    (passes : PassesOver read next others after) :
    PassesOver read before (some member :: others) after :=
  fun rest => (first _).trans (passes rest)

-- A field is read from its member, or stays missing when it is not written.
theorem PassesOver.field {name : String} {encode : γ → Json} {field : Option γ} (set : Option γ → α)
    {others : List (Option (String × Json))} (missing : before = set none)
    (given : ∀ value, field = some value → ∀ rest,
      read before ((name, encode value) :: rest) = read (set (some value)) rest)
    (passes : PassesOver read (set field) others after) :
    PassesOver read before ((field.map fun value => (name, encode value)) :: others) after := by
  cases field with
  | none =>
      rw [missing]
      exact passes
  | some value => exact .given (given value rfl) passes

end Members

section Parameters
variable {parameter : Parameter} {name : String} {value : Json}

def parameterNames : List String :=
  ["type", "title", "description", "default", "minimum", "maximum", "enum", "enumDescriptions"]

/-- A parameter that is read back as it is written: no bound is written like one that is
missing, and no other constraint like a known one. -/
structure Parameter.Writable (parameter : Parameter) : Prop where
  minimum : parameter.minimum ≠ some .null
  maximum : parameter.maximum ≠ some .null
  distinct : Ordered.Distinct parameter.extra
  unknown : ∀ name ∈ Ordered.keys parameter.extra, name ∉ parameterNames

theorem Parameter.blank_writable : Parameter.blank.Writable :=
  ⟨nofun, nofun, List.nodup_nil, nofun⟩

theorem Parameter.decodeBound_ne_null {bound : Option Json} (decoded : decodeBound value = .ok bound) :
    bound ≠ some .null := by
  cases value <;> cases decoded <;> exact nofun

theorem Parameter.assign_unknown (parameter : Parameter) (value : Json)
    (unknown : name ∉ parameterNames) : parameter.assign name value =
      .ok { parameter with extra := Ordered.insert parameter.extra name value } := by
  unfold assign
  split
  case h_9 => rfl
  all_goals exact absurd (by decide) unknown

theorem Parameter.assign_writable {assigned : Parameter} (writable : parameter.Writable)
    (taken : parameter.assign name value = .ok assigned) : assigned.Writable := by
  by_cases known : name ∈ parameterNames
  · unfold assign at taken
    split at taken
    case h_4 => cases taken; exact ⟨writable.1, writable.2, writable.3, writable.4⟩
    case h_5 =>
      obtain ⟨bound, decoded, same⟩ := bind_eq_ok.mp taken
      cases same
      exact ⟨decodeBound_ne_null decoded, writable.2, writable.3, writable.4⟩
    case h_6 =>
      obtain ⟨bound, decoded, same⟩ := bind_eq_ok.mp taken
      cases same
      exact ⟨writable.1, decodeBound_ne_null decoded, writable.3, writable.4⟩
    case h_9 => simp_all [parameterNames]
    all_goals
      obtain ⟨_, -, same⟩ := bind_eq_ok.mp taken
      cases same
      exact ⟨writable.1, writable.2, writable.3, writable.4⟩
  · rw [assign_unknown _ _ known] at taken
    cases taken
    refine ⟨writable.minimum, writable.maximum, writable.distinct.insert, fun other member => ?_⟩
    rcases Ordered.mem_keys_insert.mp member with present | same
    · exact writable.unknown other present
    · exact same ▸ known

def Parameter.assignAll (soFar : Parameter) (members : Members) : Json.Decoded Parameter :=
  members.foldlM (fun parameter (name, value) => parameter.assign name value) soFar

theorem Parameter.assignAll_writable {members : Members} {soFar : Parameter}
    (writable : soFar.Writable) (taken : soFar.assignAll members = .ok parameter) :
    parameter.Writable := by
  induction members generalizing soFar with
  | nil => cases taken; exact writable
  | cons member rest ih =>
      obtain ⟨next, assigned, taken⟩ := bind_eq_ok.mp taken
      exact ih (assign_writable writable assigned) taken

theorem Parameter.decode_writable (decoded : decode value = .ok parameter) : parameter.Writable := by
  cases value with
  | obj members => exact assignAll_writable blank_writable decoded
  | null | bool | int | float | str | arr => contradiction

theorem Parameter.assignAll_unknown {added : Members} (soFar : Parameter)
    (unknown : ∀ name ∈ Ordered.keys added, name ∉ parameterNames) :
    soFar.assignAll added = .ok { soFar with extra := Ordered.insertAll soFar.extra added } := by
  induction added generalizing soFar with
  | nil => rfl
  | cons member rest ih =>
      obtain ⟨first, unknown⟩ := List.forall_mem_cons.mp unknown
      calc soFar.assignAll (member :: rest)
          = soFar.assign member.1 member.2 >>= fun next => next.assignAll rest := rfl
        _ = assignAll { soFar with extra := Ordered.insert soFar.extra member.1 member.2 } rest := by
            rw [assign_unknown _ _ first]; rfl
        _ = _ := ih _ unknown

theorem decodeStrings_texts (texts : List String) :
    Json.decodeStrings (.arr (texts.map .str)) = .ok texts :=
  mapM_map_eq_ok fun _ _ => rfl

theorem Parameter.decodeBound_of_ne_null (bound : value ≠ .null) :
    decodeBound value = .ok (some value) := by
  cases value with
  | null => contradiction
  | bool | int | float | str | arr | obj => rfl

theorem Parameter.assignAll_cons {soFar next : Parameter} (taken : soFar.assign name value = .ok next)
    (rest : Members) : soFar.assignAll ((name, value) :: rest) = next.assignAll rest := by
  exact congrArg (· >>= fun next => next.assignAll rest) taken

theorem Parameter.assignAll_minimum (soFar : Parameter) (bound : value ≠ .null) (rest : Members) :
    soFar.assignAll (("minimum", value) :: rest) =
      assignAll { soFar with minimum := some value } rest := by
  refine assignAll_cons ?_ rest
  rw [assign, decodeBound_of_ne_null bound]
  rfl

theorem Parameter.assignAll_maximum (soFar : Parameter) (bound : value ≠ .null) (rest : Members) :
    soFar.assignAll (("maximum", value) :: rest) =
      assignAll { soFar with maximum := some value } rest := by
  refine assignAll_cons ?_ rest
  rw [assign, decodeBound_of_ne_null bound]
  rfl

theorem Parameter.assignAll_texts (soFar : Parameter) (texts : List String) (rest : Members) :
    soFar.assignAll (("enumDescriptions", .arr (texts.map .str)) :: rest) =
      assignAll { soFar with allowedDescriptions := some texts } rest := by
  refine assignAll_cons ?_ rest
  rw [assign, Json.decodeOptional, decodeStrings_texts]
  · rfl
  · exact nofun

-- Every known constraint is taken from its own member, and what is left is unknown.
theorem Parameter.decode_toJson (writable : parameter.Writable) :
    decode parameter.toJson = .ok parameter := by
  obtain ⟨noMinimum, noMaximum, distinct, unknown⟩ := writable
  obtain ⟨kind, title, description, default, minimum, maximum, allowed, texts, extra⟩ := parameter
  have known : PassesOver assignAll blank
      [kind.map fun kind => ("type", .str kind),
        title.map fun title => ("title", .str title),
        description.map fun text => ("description", .str text),
        default.map fun value => ("default", value),
        minimum.map fun value => ("minimum", value),
        maximum.map fun value => ("maximum", value),
        allowed.map fun values => ("enum", .arr values),
        texts.map fun texts => ("enumDescriptions", .arr (texts.map .str))]
      ⟨kind, title, description, default, minimum, maximum, allowed, texts, []⟩ := by
    refine .field (⟨·, none, none, none, none, none, none, none, []⟩) rfl (fun _ _ _ => rfl) ?_
    refine .field (⟨kind, ·, none, none, none, none, none, none, []⟩) rfl (fun _ _ _ => rfl) ?_
    refine .field (⟨kind, title, ·, none, none, none, none, none, []⟩) rfl (fun _ _ _ => rfl) ?_
    refine .field (⟨kind, title, description, ·, none, none, none, none, []⟩) rfl
      (fun _ _ _ => rfl) ?_
    refine .field (⟨kind, title, description, default, ·, none, none, none, []⟩) rfl
      (fun bound given => assignAll_minimum _ fun null => noMinimum (null ▸ given)) ?_
    refine .field (⟨kind, title, description, default, minimum, ·, none, none, []⟩) rfl
      (fun bound given => assignAll_maximum _ fun null => noMaximum (null ▸ given)) ?_
    refine .field (⟨kind, title, description, default, minimum, maximum, ·, none, []⟩) rfl
      (fun _ _ _ => rfl) ?_
    refine .field (⟨kind, title, description, default, minimum, maximum, allowed, ·, []⟩) rfl
      (fun texts _ => assignAll_texts _ texts) ?_
    exact .nil
  rw [toJson, constraints, ← List.filterMap_append]
  refine (known extra).trans ?_
  rw [assignAll_unknown _ unknown, Ordered.insertAll_nil _ distinct]

end Parameters

section Metadata
variable {metadata : Metadata} {name : String} {value : Json}

structure Metadata.Writable (metadata : Metadata) : Prop where
  minimum : ∀ value, metadata.minimum = some value → value.isNumber = true
  maximum : ∀ value, metadata.maximum = some value → value.isNumber = true
  parameters : ∀ entry ∈ metadata.parameters, entry.2.Writable

theorem Metadata.blank_writable : Metadata.blank.Writable :=
  ⟨nofun, nofun, nofun⟩

theorem isNumber_of_readNumber {number : Json} (read : readNumber value = .ok number) :
    number.isNumber = true := by
  unfold readNumber at read
  split at read
  · next isNumber => cases read; exact isNumber
  · contradiction

theorem writable_of_readParameters {parameters : Ordered Parameter}
    (read : readParameters value = .ok parameters) : ∀ entry ∈ parameters, entry.2.Writable := by
  intro entry member
  cases value with
  | obj members =>
      obtain ⟨source, -, readEntry⟩ := exists_of_mem_mapM read member
      unfold readParameter at readEntry
      split at readEntry
      · next decoded => cases readEntry; exact Parameter.decode_writable decoded
      · contradiction
  | null | bool | int | float | str | arr => contradiction

theorem Metadata.assign?_writable {assigned : Metadata} (writable : metadata.Writable)
    (taken : metadata.assign? name value = some (.ok assigned)) : assigned.Writable := by
  unfold assign? at taken
  split at taken
  case h_5 => cases taken; exact ⟨writable.1, writable.2, writable.3⟩
  case h_6 =>
    obtain ⟨bound, read, same⟩ := bind_eq_ok.mp (Option.some.inj taken)
    cases same
    refine ⟨?_, writable.2, writable.3⟩
    rintro _ ⟨⟩
    exact isNumber_of_readNumber read
  case h_7 =>
    obtain ⟨bound, read, same⟩ := bind_eq_ok.mp (Option.some.inj taken)
    cases same
    refine ⟨writable.1, ?_, writable.3⟩
    rintro _ ⟨⟩
    exact isNumber_of_readNumber read
  case h_10 =>
    obtain ⟨parameters, read, same⟩ := bind_eq_ok.mp (Option.some.inj taken)
    cases same
    exact ⟨writable.1, writable.2, writable_of_readParameters read⟩
  case h_11 => contradiction
  all_goals
    obtain ⟨_, -, same⟩ := bind_eq_ok.mp (Option.some.inj taken)
    cases same
    exact ⟨writable.1, writable.2, writable.3⟩

theorem readStrings_texts (texts : List String) : readStrings (.arr (texts.map .str)) = .ok texts :=
  mapM_map_eq_ok fun _ _ => rfl

theorem readParameters_mapValues {parameters : Ordered Parameter}
    (writable : ∀ entry ∈ parameters, entry.2.Writable) :
    readParameters (.obj (Ordered.mapValues Parameter.toJson parameters)) = .ok parameters := by
  refine mapM_map_eq_ok fun entry member => ?_
  rw [readParameter, Parameter.decode_toJson (writable entry member)]

section Fields
variable (metadata)

theorem Metadata.assign?_min (number : value.isNumber = true) :
    metadata.assign? "min" value = some (.ok { metadata with minimum := some value }) := by
  rw [assign?, readNumber, if_pos number]
  rfl

theorem Metadata.assign?_max (number : value.isNumber = true) :
    metadata.assign? "max" value = some (.ok { metadata with maximum := some value }) := by
  rw [assign?, readNumber, if_pos number]
  rfl

theorem Metadata.assign?_texts (texts : List String) :
    metadata.assign? "enumDescriptions" (.arr (texts.map .str)) =
      some (.ok { metadata with allowedDescriptions := some texts }) := by
  rw [assign?, readStrings_texts]
  rfl

theorem Metadata.assign?_params {parameters : Ordered Parameter}
    (writable : ∀ entry ∈ parameters, entry.2.Writable) :
    metadata.assign? "params" (.obj (Ordered.mapValues Parameter.toJson parameters)) =
      some (.ok { metadata with parameters := parameters }) := by
  rw [assign?, readParameters_mapValues writable]
  rfl

end Fields

variable {path : String} {depth : Nat} {children : List (String × Feature)}

theorem readMembers_field {assigned : Metadata} (taken : metadata.assign? name value = some (.ok assigned))
    (rest : Members) : readMembers path depth ⟨metadata, children⟩ ((name, value) :: rest) =
      readMembers path depth ⟨assigned, children⟩ rest := by
  rw [readMembers, taken]

-- Every metadata field is read from its own member.
theorem readMembers_metadata (writable : metadata.Writable) (rest : Members) :
    readMembers path depth ⟨.blank, children⟩ (metadata.members ++ rest) =
      readMembers path depth ⟨metadata, children⟩ rest := by
  obtain ⟨minimumNumber, maximumNumber, parametersWritable⟩ := writable
  obtain ⟨title, description, enabled, kind, default, minimum, maximum, allowed, texts,
    parameters⟩ := metadata
  have passes : PassesOver (fun metadata => readMembers path depth ⟨metadata, children⟩) .blank
      [title.map fun text => ("title", .str text),
        description.map fun text => ("description", .str text),
        some ("enabled", .bool enabled),
        kind.map fun kind => ("type", .str kind),
        default.map fun value => ("default", value),
        minimum.map fun value => ("min", value),
        maximum.map fun value => ("max", value),
        allowed.map fun values => ("enum", .arr values),
        texts.map fun texts => ("enumDescriptions", .arr (texts.map .str)),
        if parameters.isEmpty then none
        else some ("params", .obj (Ordered.mapValues Parameter.toJson parameters))]
      ⟨title, description, enabled, kind, default, minimum, maximum, allowed, texts,
        parameters⟩ := by
    refine .field (⟨·, none, true, none, none, none, none, none, none, []⟩) rfl
      (fun _ _ => readMembers_field rfl) ?_
    refine .field (⟨title, ·, true, none, none, none, none, none, none, []⟩) rfl
      (fun _ _ => readMembers_field rfl) ?_
    refine .given (readMembers_field rfl) ?_
    refine .field (⟨title, description, enabled, ·, none, none, none, none, none, []⟩) rfl
      (fun _ _ => readMembers_field rfl) ?_
    refine .field (⟨title, description, enabled, kind, ·, none, none, none, none, []⟩) rfl
      (fun _ _ => readMembers_field rfl) ?_
    refine .field (⟨title, description, enabled, kind, default, ·, none, none, none, []⟩) rfl
      (fun _ given => readMembers_field (Metadata.assign?_min _ (minimumNumber _ given))) ?_
    refine .field (⟨title, description, enabled, kind, default, minimum, ·, none, none, []⟩) rfl
      (fun _ given => readMembers_field (Metadata.assign?_max _ (maximumNumber _ given))) ?_
    refine .field (⟨title, description, enabled, kind, default, minimum, maximum, ·, none, []⟩) rfl
      (fun _ _ => readMembers_field rfl) ?_
    refine .field (⟨title, description, enabled, kind, default, minimum, maximum, allowed, ·, []⟩)
      rfl (fun texts _ => readMembers_field (Metadata.assign?_texts _ texts)) ?_
    cases parameters with
    | nil => exact .nil
    | cons => exact .given (readMembers_field (Metadata.assign?_params _ parametersWritable)) .nil
  exact passes rest

end Metadata

section Features
variable {children : List (String × Feature)}

section Induction
variable {holds : Feature → Prop}

mutual

theorem Feature.induction_children
    (step : ∀ feature, (∀ entry ∈ feature.children, holds entry.2) → holds feature) :
    ∀ feature, holds feature
  | ⟨metadata, children⟩ => step ⟨metadata, children⟩ (forall_of_induction step children)

theorem forall_of_induction
    (step : ∀ feature, (∀ entry ∈ feature.children, holds entry.2) → holds feature) :
    ∀ features : List (String × Feature), ∀ entry ∈ features, holds entry.2
  | [] => nofun
  | (_, feature) :: rest =>
      List.forall_mem_cons.mpr ⟨feature.induction_children step, forall_of_induction step rest⟩

end

end Induction

inductive Feature.Writable : Feature → Prop where
  | feature {feature : Feature} (own : feature.metadata.Writable)
      (under : ∀ entry ∈ feature.children, entry.2.Writable) : Writable feature

theorem Feature.Writable.own {feature : Feature} (writable : feature.Writable) :
    feature.metadata.Writable := by
  cases writable with
  | feature own under => exact own

theorem Feature.Writable.under {feature : Feature} (writable : feature.Writable) :
    ∀ entry ∈ feature.children, entry.2.Writable := by
  cases writable with
  | feature own under => exact under

theorem writable_invariant : ReadingInvariant (fun _ _ => True) fun _ feature => feature.Writable where
  members := fun _ _ _ => trivial
  shallower := id
  blank := fun _ => .feature Metadata.blank_writable nofun
  field := fun _ taken writable => .feature (Metadata.assign?_writable writable.own taken) writable.under
  child := fun _ below writable => .feature writable.own fun entry member => by
    rcases Ordered.mem_insert member with same | present
    · exact same ▸ below
    · exact writable.under entry present

theorem Feature.toJson_eq (feature : Feature) : feature.toJson = .obj (feature.metadata.members ++
    if feature.children.isEmpty then [] else [("children", .obj (membersOf feature.children))]) := by
  obtain ⟨metadata, children⟩ := feature
  cases children with
  | nil => simp [toJson]
  | cons => simp [toJson]

theorem membersOf_eq_map (features : List (String × Feature)) :
    membersOf features = features.map fun entry => (entry.1, entry.2.toJson) := by
  induction features with
  | nil => rfl
  | cons entry rest ih => rw [membersOf, ih, List.map_cons]

theorem height_le_heightOf {entry : String × Feature} (member : entry ∈ children) :
    entry.2.height ≤ heightOf children := by
  induction children with
  | nil => contradiction
  | cons first rest ih =>
      rcases List.mem_cons.mp member with rfl | member
      · exact Nat.le_max_left _ _
      · exact Nat.le_trans (ih member) (Nat.le_max_right _ _)

-- Children that are read by their names are put behind those that are there.
theorem readChildren_membersOf {path : String} {depth : Nat} (soFar : List (String × Feature))
    (unreserved : ∀ name ∈ Ordered.keys children, name ∉ reservedNames)
    (each : ∀ entry ∈ children, ∀ path,
      readFeature path (depth + 1) entry.2.toJson = .ok entry.2) :
    readChildren path depth soFar (membersOf children) = .ok (Ordered.insertAll soFar children) := by
  induction children generalizing soFar with
  | nil => rw [membersOf, readChildren]; rfl
  | cons entry rest ih =>
      obtain ⟨name, feature⟩ := entry
      obtain ⟨free, unreserved⟩ := List.forall_mem_cons.mp unreserved
      obtain ⟨first, each⟩ := List.forall_mem_cons.mp each
      rw [membersOf, readChildren, if_neg free, first]
      exact ih _ unreserved each

theorem readMembers_children {path : String} {depth : Nat} {metadata : Metadata} {members : Members}
    (read : readChildren path depth [] members = .ok children) :
    readMembers path depth ⟨metadata, []⟩ [("children", .obj members)] =
      .ok ⟨metadata, children⟩ := by
  have noField : metadata.assign? "children" (.obj members) = none :=
    assign?_eq_none.mpr (by decide)
  rw [readMembers, noField]
  simp only [↓reduceIte, read]
  exact readMembers.eq_1 path depth ⟨metadata, children⟩

theorem Feature.height_eq (feature : Feature) : feature.height = heightOf feature.children + 1 := by
  obtain ⟨metadata, children⟩ := feature
  rw [height]

-- A feature that lies deep enough for its height is read from its normal form.
theorem readFeature_toJson (feature : Feature) : feature.Writable → SoundChildren feature.children →
    ∀ path depth, feature.height + depth ≤ maximumDepth + 1 →
      readFeature path depth feature.toJson = .ok feature := by
  induction feature using Feature.induction_children with
  | step feature ih =>
      intro writable sound path depth within
      have each : ∀ entry ∈ feature.children, ∀ path,
          readFeature path (depth + 1) entry.2.toJson = .ok entry.2 := by
        intro entry member path
        have lower := height_le_heightOf member
        refine ih entry member (writable.under entry member) (sound.under entry member) path _ ?_
        rw [Feature.height_eq] at within
        omega
      have children : readChildren path depth [] (membersOf feature.children) =
          .ok feature.children := by
        rw [readChildren_membersOf [] sound.unreserved each, Ordered.insertAll_nil _ sound.distinct]
      have notDeeper : ¬maximumDepth < depth := by
        rw [Feature.height_eq] at within
        omega
      rw [Feature.toJson_eq, readFeature, if_neg notDeeper, readMembers_metadata writable.own]
      obtain ⟨metadata, under⟩ := feature
      split
      · next leaf =>
          cases List.isEmpty_iff.mp leaf
          exact readMembers.eq_1 path depth ⟨metadata, []⟩
      · exact readMembers_children children

end Features

section Explicit

/-- A feature whose children all stand in a member of their own, on every level. -/
inductive ExplicitForm : Json → Prop where
  | feature {members : Members}
      (known : ∀ name ∈ Ordered.keys members, name ∈ metadataNames ∨ name = "children")
      (under : ∀ children, ("children", .obj children) ∈ members →
        ∀ entry ∈ children, ExplicitForm entry.2) : ExplicitForm (.obj members)

-- Each field is given by its own name, if it is given at all.
theorem Metadata.keys_members_subset (metadata : Metadata) :
    Ordered.keys metadata.members ⊆ metadataNames := by
  intro name member
  obtain ⟨value, member⟩ := Ordered.mem_keys.mp member
  obtain ⟨field, present, same⟩ := List.mem_filterMap.mp member
  simp only [List.mem_cons, List.not_mem_nil, or_false] at present
  rcases present with rfl | rfl | rfl | rfl | rfl | rfl | rfl | rfl | rfl | rfl
  case inr.inr.inl => cases same; decide
  case inr.inr.inr.inr.inr.inr.inr.inr.inr =>
    by_cases empty : metadata.parameters.isEmpty = true
    · rw [if_pos empty] at same
      contradiction
    · rw [if_neg empty] at same
      cases same
      decide
  all_goals
    obtain ⟨_, -, same⟩ := Option.map_eq_some_iff.mp same
    cases same
    decide

theorem explicitForm_toJson (feature : Feature) : ExplicitForm feature.toJson := by
  induction feature using Feature.induction_children with
  | step feature ih =>
      have known := feature.metadata.keys_members_subset
      have noChildren {value : Json} : ("children", value) ∉ feature.metadata.members := fun member =>
        absurd (known (Ordered.mem_keys.mpr ⟨value, member⟩)) (by decide)
      rw [Feature.toJson_eq]
      refine .feature (fun name member => ?_) fun children member => ?_
      · rw [Ordered.keys_append, List.mem_append] at member
        refine member.imp (fun own => known own) fun added => ?_
        split at added
        · contradiction
        · simpa using added
      · rcases List.mem_append.mp member with own | added
        · exact absurd own noChildren
        · split at added
          · contradiction
          · cases List.mem_singleton.mp added
            rw [membersOf_eq_map]
            exact List.forall_mem_map.mpr ih

end Explicit

/-- Reading the normal form of a feature or of a definition that has been read yields the
same feature or definition, whichever way children were spelled. The normal form spells
all of them in one way, so it is its own normal form. -/
theorem read_normalForm (value : Json) :
    (∀ feature, Feature.read value = .ok feature →
      ExplicitForm feature.toJson ∧ Feature.read feature.toJson = .ok feature) ∧
    ∀ tree, Tree.read value = .ok tree →
      (∀ entry ∈ membersOf tree, ExplicitForm entry.2) ∧ Tree.read tree.toJson = .ok tree := by
  constructor
  · intro feature read
    have writable := readFeature_holds writable_invariant value trivial read
    have sound := readFeature_holds soundChildren_invariant value trivial read
    have height := readFeature_holds height_invariant value trivial read
    exact ⟨explicitForm_toJson feature, readFeature_toJson feature writable sound "" 1 height⟩
  · intro tree read
    have writable := Tree.holds_of_read writable_invariant trivial read
    have sound := Tree.sound_of_read read
    have height := Tree.holds_of_read height_invariant trivial read
    have each : ∀ entry ∈ tree, readEntry (entry.1, entry.2.toJson) = .ok entry := by
      intro entry member
      rw [readEntry, readFeature_toJson entry.2 (writable entry member) (sound entry member) _ 1
        (height entry member)]
      rfl
    rw [Tree.toJson, membersOf_eq_map]
    refine ⟨?_, mapM_map_eq_ok each⟩
    exact List.forall_mem_map.mpr fun entry _ => explicitForm_toJson entry.2

def sampleSpellings : Json :=
  .obj [("search", .obj [
    ("ranking", .obj [("min", .int 1)]),
    ("default", .null),
    ("params", .obj [("limit", .obj [("minimum", .null), ("step", .int 5), ("default", .null)])]),
    ("children", .obj [("title", .obj [("note", .str "beta")])])])]

def sampleNormalForm : Json :=
  .obj [("search", .obj [
    ("enabled", .bool true),
    ("default", .null),
    ("params", .obj [("limit", .obj [("default", .null), ("step", .int 5)])]),
    ("children", .obj [
      ("ranking", .obj [("enabled", .bool true), ("min", .int 1)]),
      ("title", .obj [("enabled", .bool true)])])])]

/-- A default of null is kept, a bound of null is none. A definition may also be read as a
single feature, whose children it then has. -/
theorem read_normalForm_sample :
    (∃ tree, Tree.read sampleSpellings = .ok tree ∧ tree.toJson = sampleNormalForm ∧
      Tree.read sampleNormalForm = .ok tree) ∧
    ∃ feature, Feature.read sampleSpellings = .ok feature ∧
      Feature.read feature.toJson = .ok feature := by
  obtain ⟨features, trees⟩ := read_normalForm sampleSpellings
  obtain ⟨tree, read⟩ : ∃ tree, Tree.read sampleSpellings = .ok tree := ⟨_, rfl⟩
  obtain ⟨feature, readFeature⟩ : ∃ feature, Feature.read sampleSpellings = .ok feature := ⟨_, rfl⟩
  have normal : tree.toJson = sampleNormalForm := by
    cases read
    rfl
  exact ⟨⟨tree, read, normal, normal ▸ (trees tree read).2⟩,
    ⟨feature, readFeature, (features feature readFeature).2⟩⟩

end Toggles.Definition
