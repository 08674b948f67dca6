import Toggles.Proofs.Definition

/-! Well-formed definitions.

What a definition has to be is said of each member by its name alone, whatever members
stand beside it. Reading takes the members in their order into a feature that it
builds up, and neither the order nor what was built before decides whether it succeeds.
-/

set_option autoImplicit false

namespace Toggles.Definition

def metadataNames : List String :=
  ["title", "description", "type", "enabled", "default", "min", "max", "enum", "enumDescriptions",
    "params"]

def FieldFits (name : String) (value : Json) : Prop :=
  match name with
  | "title" | "description" | "type" => ∃ text, value = .str text
  | "enabled" => ∃ flag, value = .bool flag
  | "min" | "max" => value.isNumber = true
  | "enum" => ∃ items, value = .arr items
  | "enumDescriptions" => ∃ items, value = .arr items ∧ ∀ item ∈ items, ∃ text, item = .str text
  | "params" => ∃ members, value = .obj members ∧
      ∀ entry ∈ members, ∃ parameter, Parameter.decode entry.2 = .ok parameter
  | _ => True

section Forms
variable (fields : List String)

mutual

/-- A value that describes a feature at a depth, where members of some names are
metadata fields. -/
inductive WellFormedAt : Nat → Json → Prop where
  | feature {depth : Nat} {members : Json.Members} (within : depth ≤ maximumDepth)
      (each : ∀ entry ∈ members, WellFormedMember depth entry.1 entry.2) :
      WellFormedAt depth (.obj members)

/-- A member of a feature at a depth: a metadata field, the children by their names, a
child of its own, or something that is none of these and no object. -/
inductive WellFormedMember : Nat → String → Json → Prop where
  | field {depth : Nat} {name : String} {value : Json} (known : name ∈ fields)
      (fits : FieldFits name value) : WellFormedMember depth name value
  | explicit {depth : Nat} {members : Json.Members} (unknown : "children" ∉ fields)
      (unreserved : ∀ entry ∈ members, entry.1 ∉ reservedNames)
      (each : ∀ entry ∈ members, WellFormedAt (depth + 1) entry.2) :
      WellFormedMember depth "children" (.obj members)
  | flattened {depth : Nat} {name : String} {value : Json} (unknown : name ∉ fields)
      (other : name ≠ "children") (child : WellFormedAt (depth + 1) value) :
      WellFormedMember depth name value
  | ignored {depth : Nat} {name : String} {value : Json} (unknown : name ∉ fields)
      (other : name ≠ "children") (noObject : value.isObject = false) :
      WellFormedMember depth name value

end

def WellFormed (value : Json) : Prop :=
  ∃ members, value = .obj members ∧ ∀ entry ∈ members, WellFormedAt fields 1 entry.2

variable {fields} {depth : Nat} {name : String} {value : Json}

theorem wellFormedAt_iff : WellFormedAt fields depth value ↔ depth ≤ maximumDepth ∧
    ∃ members, value = .obj members ∧
      ∀ entry ∈ members, WellFormedMember fields depth entry.1 entry.2 := by
  constructor
  · intro wellFormed
    cases wellFormed with
    | feature within each => exact ⟨within, _, rfl, each⟩
  · rintro ⟨within, members, rfl, each⟩
    exact .feature within each

theorem wellFormedMember_field (known : name ∈ fields) :
    WellFormedMember fields depth name value ↔ FieldFits name value := by
  constructor
  · intro wellFormed
    cases wellFormed with
    | field known fits => exact fits
    | explicit unknown | flattened unknown | ignored unknown => exact absurd known unknown
  · exact .field known

theorem wellFormedMember_children (unknown : "children" ∉ fields) :
    WellFormedMember fields depth "children" value ↔ ∃ members, value = .obj members ∧
      ∀ entry ∈ members, entry.1 ∉ reservedNames ∧ WellFormedAt fields (depth + 1) entry.2 := by
  constructor
  · intro wellFormed
    cases wellFormed with
    | field known => exact absurd known unknown
    | explicit _ unreserved each =>
        exact ⟨_, rfl, fun entry member => ⟨unreserved entry member, each entry member⟩⟩
    | flattened _ other | ignored _ other => exact absurd rfl other
  · rintro ⟨members, rfl, each⟩
    exact .explicit unknown (fun entry member => (each entry member).1)
      fun entry member => (each entry member).2

theorem wellFormedMember_other (unknown : name ∉ fields) (other : name ≠ "children") :
    WellFormedMember fields depth name value ↔
      (value.isObject = true → WellFormedAt fields (depth + 1) value) := by
  constructor
  · intro wellFormed object
    cases wellFormed with
    | field known => exact absurd known unknown
    | explicit => exact absurd rfl other
    | flattened _ _ child => exact child
    | ignored _ _ noObject => exact absurd object (Bool.eq_false_iff.mp noObject)
  · intro child
    cases object : value.isObject with
    | true => exact .flattened unknown other (child object)
    | false => exact .ignored unknown other object

end Forms

section Fields
variable {name : String} {value : Json}

theorem isOk_readString : (readString value).isOk = true ↔ ∃ text, value = .str text := by
  cases value <;> simp [readString, Except.isOk, Except.toBool]

theorem isOk_readBool : (readBool value).isOk = true ↔ ∃ flag, value = .bool flag := by
  cases value <;> simp [readBool, Except.isOk, Except.toBool]

theorem isOk_readNumber : (readNumber value).isOk = true ↔ value.isNumber = true := by
  unfold readNumber
  split <;> simp_all [Except.isOk, Except.toBool]

theorem isOk_readItems : (readItems value).isOk = true ↔ ∃ items, value = .arr items := by
  cases value <;> simp [readItems, Except.isOk, Except.toBool]

theorem isOk_readStrings : (readStrings value).isOk = true ↔
    ∃ items, value = .arr items ∧ ∀ item ∈ items, ∃ text, item = .str text := by
  cases value with
  | arr items =>
      have each : (readStrings (.arr items)).isOk = true ↔ (items.mapM readString).isOk = true :=
        Iff.rfl
      rw [each, isOk_mapM]
      simp only [isOk_readString, Json.arr.injEq, exists_eq_left']
  | null | bool | int | float | str | obj =>
      exact iff_of_false Bool.false_ne_true (by simp)

theorem isOk_readParameter {entry : String × Json} : (readParameter entry).isOk = true ↔
    ∃ parameter, Parameter.decode entry.2 = .ok parameter := by
  unfold readParameter
  split <;> simp_all [Except.isOk, Except.toBool]

theorem isOk_readParameters : (readParameters value).isOk = true ↔ ∃ members, value = .obj members ∧
    ∀ entry ∈ members, ∃ parameter, Parameter.decode entry.2 = .ok parameter := by
  cases value with
  | obj members =>
      rw [readParameters, isOk_mapM]
      simp only [isOk_readParameter, Json.obj.injEq, exists_eq_left']
  | null | bool | int | float | str | arr =>
      exact iff_of_false Bool.false_ne_true (by simp)

theorem assign?_eq_none {metadata : Metadata} :
    metadata.assign? name value = none ↔ name ∉ metadataNames := by
  unfold Metadata.assign?
  split
  case h_11 => simp_all [metadataNames]
  all_goals simp [metadataNames]

-- A field is taken exactly when its value fits.
theorem isOk_assign? {metadata : Metadata} {taken : Field Metadata}
    (assigned : metadata.assign? name value = some taken) :
    taken.isOk = true ↔ FieldFits name value := by
  have only {α : Type} {read : Field α} {next : α → Metadata} :
      (read >>= fun value => pure (next value) : Field Metadata).isOk = true ↔ read.isOk = true :=
    (isOk_bind fun _ => iff_of_true rfl trivial).trans (and_iff_left trivial)
  unfold Metadata.assign? at assigned
  split at assigned
  case h_11 => contradiction
  case h_5 => cases assigned; exact iff_of_true rfl trivial
  all_goals
    cases assigned
    refine only.trans ?_
  · exact isOk_readString
  · exact isOk_readString
  · exact isOk_readString
  · exact isOk_readBool
  · exact isOk_readNumber
  · exact isOk_readNumber
  · exact isOk_readItems
  · exact isOk_readStrings
  · exact isOk_readParameters

theorem known_of_assign? {metadata : Metadata} {taken : Field Metadata}
    (assigned : metadata.assign? name value = some taken) : name ∈ metadataNames :=
  Classical.not_not.mp fun unknown => by simp [assign?_eq_none.mpr unknown] at assigned

theorem isOk_assign?_iff_wellFormed {metadata : Metadata} {taken : Field Metadata} {depth : Nat}
    (assigned : metadata.assign? name value = some taken) :
    taken.isOk = true ↔ WellFormedMember metadataNames depth name value :=
  (isOk_assign? assigned).trans (wellFormedMember_field (known_of_assign? assigned)).symm

end Fields

section Reading

mutual

theorem isOk_readFeature : (value : Json) → {path : String} → {depth : Nat} →
    ((readFeature path depth value).isOk = true ↔ WellFormedAt metadataNames depth value)
  | .obj members, path, depth => by
      rw [readFeature, wellFormedAt_iff]
      split
      · next tooDeep =>
          exact iff_of_false Bool.false_ne_true fun wellFormed => Nat.not_lt.mpr wellFormed.1 tooDeep
      · next within =>
          rw [isOk_readMembers members]
          simp only [Json.obj.injEq, exists_eq_left', Nat.le_of_not_lt within, true_and]
  | .null, _, _ | .bool _, _, _ | .int _, _, _ | .float _, _, _ | .str _, _, _ | .arr _, _, _ => by
      rw [wellFormedAt_iff]
      refine iff_of_false ?_ (by simp)
      unfold readFeature
      split <;> exact Bool.false_ne_true

-- What has been read of a feature does not decide whether the rest can be read.
theorem isOk_readMembers : (members : List (String × Json)) → {path : String} → {depth : Nat} →
    {soFar : Feature} → ((readMembers path depth soFar members).isOk = true ↔
      ∀ entry ∈ members, WellFormedMember metadataNames depth entry.1 entry.2)
  | [], _, _, _ => by
      rw [readMembers]
      exact iff_of_true rfl (by simp)
  | (name, value) :: rest, path, depth, soFar => by
      have others {soFar : Feature} :
          (readMembers path depth soFar rest).isOk = true ↔
            ∀ entry ∈ rest, WellFormedMember metadataNames depth entry.1 entry.2 :=
        isOk_readMembers rest
      rw [readMembers, List.forall_mem_cons]
      split
      · next metadata assigned =>
          rw [others]
          exact (and_iff_right ((isOk_assign?_iff_wellFormed assigned).mp rfl)).symm
      · next expected assigned =>
          refine iff_of_false Bool.false_ne_true fun both => Bool.false_ne_true ?_
          exact (isOk_assign?_iff_wellFormed assigned).mpr both.1
      · next noField =>
          have unknown := assign?_eq_none.mp noField
          split
          · next same =>
              subst same
              rw [wellFormedMember_children unknown]
              split
              · next members =>
                  rw [isOk_bind fun children => others, isOk_readChildren members]
                  simp only [Json.obj.injEq, exists_eq_left']
              · next noObject =>
                  refine iff_of_false Bool.false_ne_true ?_
                  rintro ⟨⟨members, rfl, -⟩, -⟩
                  exact noObject members rfl
          · next other =>
              rw [wellFormedMember_other unknown other]
              split
              · next object =>
                  refine (isOk_bind fun child => others).trans ?_
                  simp only [isOk_readFeature value, object, forall_const]
              · next noObject =>
                  exact others.trans (and_iff_right fun object => absurd object noObject).symm

theorem isOk_readChildren : (members : List (String × Json)) → {path : String} → {depth : Nat} →
    {soFar : List (String × Feature)} → ((readChildren path depth soFar members).isOk = true ↔
      ∀ entry ∈ members, entry.1 ∉ reservedNames ∧
        WellFormedAt metadataNames (depth + 1) entry.2)
  | [], _, _, _ => by
      rw [readChildren]
      exact iff_of_true rfl (by simp)
  | (name, value) :: rest, path, depth, soFar => by
      rw [readChildren, List.forall_mem_cons]
      split
      · next reserved =>
          exact iff_of_false Bool.false_ne_true fun wellFormed => wellFormed.1.1 reserved
      · next unreserved =>
          rw [isOk_bind fun child => isOk_readChildren rest, isOk_readFeature value]
          simp only [unreserved, not_false_eq_true, true_and]

end

theorem isOk_read {value : Json} :
    (Tree.read value).isOk = true ↔ WellFormed metadataNames value := by
  cases value with
  | obj members =>
      have entries : (Tree.read (.obj members)).isOk = true ↔
          ∀ entry ∈ members, (readEntry entry).isOk = true := isOk_mapM
      have each {entry : String × Json} : (readEntry entry).isOk = true ↔
          WellFormedAt metadataNames 1 entry.2 :=
        (isOk_bind fun _ => iff_of_true rfl trivial).trans
          ((and_iff_left trivial).trans (isOk_readFeature entry.2))
      simp only [entries, each, WellFormed, Json.obj.injEq, exists_eq_left']
  | null | bool | int | float | str | arr =>
      exact iff_of_false Bool.false_ne_true (by simp [WellFormed])

end Reading

section Heights
variable {children : List (String × Feature)}

theorem heightOf_insert_le (name : String) (feature : Feature) :
    heightOf (Ordered.insert children name feature) ≤ max feature.height (heightOf children) := by
  induction children with
  | nil => simp [Ordered.insert, heightOf]
  | cons entry rest ih =>
      simp only [Ordered.insert]
      split <;> simp only [heightOf] <;> omega

theorem heightOf_le {bound : Nat} (each : ∀ entry ∈ children, entry.2.height ≤ bound) :
    heightOf children ≤ bound := by
  induction children with
  | nil => exact Nat.zero_le bound
  | cons entry rest ih =>
      obtain ⟨first, each⟩ := List.forall_mem_cons.mp each
      exact Nat.max_le.mpr ⟨first, ih each⟩

-- Nothing under a feature lies deeper than features may lie.
theorem height_invariant : ReadingInvariant (fun _ _ => True)
    fun depth feature => feature.height + depth ≤ maximumDepth + 1 where
  members := fun _ _ _ => trivial
  shallower := id
  blank := fun within => by
    simp only [Feature.height, heightOf]
    omega
  field := fun _ _ height => by
    simp only [Feature.height] at height ⊢
    exact height
  child := fun {_ _ children name feature} _ below height => by
    have inserted := @heightOf_insert_le children name feature
    simp only [Feature.height] at height ⊢
    omega

theorem heightOf_le_of_read {value : Json} {tree : Tree} (read : Tree.read value = .ok tree) :
    heightOf tree ≤ maximumDepth :=
  heightOf_le fun entry member => by
    have height : entry.2.height + 1 ≤ maximumDepth + 1 :=
      Tree.holds_of_read height_invariant trivial read entry member
    exact Nat.le_of_succ_le_succ height

end Heights

section Defaults

/-- The children that a member of a feature spells: all those under the children member, or
the object that the member has for its value. -/
def spelledBy (entry : String × Json) : Json.Members :=
  if entry.1 ∈ metadataNames then []
  else
    match entry.2 with
    | .obj members => if entry.1 = "children" then members else [entry]
    | _ => []

mutual

/-- A feature keeps the default of the value that describes it as that is, and so do its
children, which are those that the value spells. Of the members of a name the last one counts. -/
inductive KeepsDefaults : Json → Feature → Prop where
  | feature {members : Json.Members} {feature : Feature}
      (here : feature.metadata.defaultValue = Ordered.get? (Ordered.ofList members) "default")
      (under : EachKeepsDefaults (Ordered.ofList (members.flatMap spelledBy)) feature.children) :
      KeepsDefaults (.obj members) feature

/-- Features have the names of the members that describe them, in the same order, and keep
their defaults. -/
inductive EachKeepsDefaults : Json.Members → List (String × Feature) → Prop where
  | nil : EachKeepsDefaults [] []
  | cons {name : String} {value : Json} {feature : Feature} {members : Json.Members}
      {features : List (String × Feature)} (first : KeepsDefaults value feature)
      (others : EachKeepsDefaults members features) :
      EachKeepsDefaults ((name, value) :: members) ((name, feature) :: features)

end

section Members
variable {name : String} {value : Json} {spelled : Json.Members}
  {children : List (String × Feature)}

theorem EachKeepsDefaults.insert {feature : Feature} (each : EachKeepsDefaults spelled children)
    (name : String) (kept : KeepsDefaults value feature) :
    EachKeepsDefaults (Ordered.insert spelled name value)
      (Ordered.insert children name feature) := by
  induction spelled generalizing children with
  | nil =>
      cases each
      exact .cons kept .nil
  | cons entry rest ih =>
      cases each with
      | cons first others =>
          simp only [Ordered.insert]
          split
          · exact .cons kept others
          · exact .cons first (ih others)

theorem spelledBy_field (known : name ∈ metadataNames) : spelledBy (name, value) = [] :=
  if_pos known

theorem spelledBy_children {members : Json.Members} :
    spelledBy ("children", .obj members) = members :=
  rfl

theorem spelledBy_object {members : Json.Members} (unknown : name ∉ metadataNames)
    (other : name ≠ "children") : spelledBy (name, .obj members) = [(name, .obj members)] := by
  simp [spelledBy, unknown, other]

theorem spelledBy_noObject (noObject : value.isObject = false) : spelledBy (name, value) = [] := by
  cases value with
  | obj => contradiction
  | null | bool | int | float | str | arr => simp [spelledBy]

theorem defaultValue_of_assign? {metadata assigned : Metadata}
    (taken : metadata.assign? name value = some (.ok assigned)) :
    assigned.defaultValue = if name = "default" then some value else metadata.defaultValue := by
  unfold Metadata.assign? at taken
  split at taken
  case h_5 => cases taken; rfl
  case h_11 => contradiction
  all_goals
    obtain ⟨_, -, same⟩ := bind_eq_ok.mp (Option.some.inj taken)
    cases same
    rfl

end Members

mutual

theorem keepsDefaults_of_readFeature : (value : Json) → {path : String} → {depth : Nat} →
    {feature : Feature} → readFeature path depth value = .ok feature → KeepsDefaults value feature
  | .obj members, _, _, _, read => by
      obtain ⟨-, _, same, read⟩ := readFeature_eq_ok read
      cases same
      have start : Metadata.blank.defaultValue = Ordered.get? [] "default" := rfl
      obtain ⟨here, under⟩ := keepsDefaults_of_readMembers members start .nil read
      exact .feature here under
  | .null, _, _, _, read | .bool _, _, _, _, read | .int _, _, _, _, read
  | .float _, _, _, _, read | .str _, _, _, _, read | .arr _, _, _, _, read => by
      obtain ⟨-, _, same, -⟩ := readFeature_eq_ok read
      contradiction

-- The members that were read before are remembered as a map, and likewise the children that
-- they spell.
theorem keepsDefaults_of_readMembers : (members : List (String × Json)) →
    {seen spelled : Json.Members} → {path : String} → {depth : Nat} → {metadata : Metadata} →
    {soFar : List (String × Feature)} → {feature : Feature} →
    metadata.defaultValue = Ordered.get? seen "default" → EachKeepsDefaults spelled soFar →
    readMembers path depth ⟨metadata, soFar⟩ members = .ok feature →
    feature.metadata.defaultValue = Ordered.get? (Ordered.insertAll seen members) "default" ∧
      EachKeepsDefaults (Ordered.insertAll spelled (members.flatMap spelledBy)) feature.children
  | [], _, _, _, _, _, _, _, here, under, read => by
      rw [readMembers] at read
      cases read
      exact ⟨here, under⟩
  | (name, value) :: rest, seen, spelled, path, depth, metadata, soFar, feature, here, under,
      read => by
      rw [Ordered.insertAll_cons, List.flatMap_cons, Ordered.insertAll_append]
      rcases readMembers_cons read with ⟨assigned, taken, read⟩ | ⟨noField, children, taken, read⟩
      · have next : assigned.defaultValue =
            Ordered.get? (Ordered.insert seen name value) "default" := by
          rw [defaultValue_of_assign? taken, Ordered.get?_insert, ← here]
        rw [spelledBy_field (known_of_assign? taken)]
        exact keepsDefaults_of_readMembers rest next under read
      · have unknown := assign?_eq_none.mp noField
        have next : metadata.defaultValue =
            Ordered.get? (Ordered.insert seen name value) "default" := by
          have other : name ≠ "default" := fun same => unknown (same ▸ by decide)
          rw [Ordered.get?_insert, if_neg other]
          exact here
        have after : EachKeepsDefaults (Ordered.insertAll spelled (spelledBy (name, value)))
            children := by
          cases taken with
          | explicit readAll =>
              rw [spelledBy_children]
              exact keepsDefaults_of_readChildren _ under readAll
          | flattened other readChild =>
              rw [spelledBy_object unknown other]
              exact under.insert name (keepsDefaults_of_readFeature _ readChild)
          | ignored _ noObject =>
              rw [spelledBy_noObject noObject]
              exact under
        exact keepsDefaults_of_readMembers rest next after read

theorem keepsDefaults_of_readChildren : (members : List (String × Json)) →
    {spelled : Json.Members} → {path : String} → {depth : Nat} →
    {soFar children : List (String × Feature)} → EachKeepsDefaults spelled soFar →
    readChildren path depth soFar members = .ok children →
    EachKeepsDefaults (Ordered.insertAll spelled members) children
  | [], _, _, _, _, _, under, read => by
      rw [readChildren] at read
      cases read
      exact under
  | (name, value) :: rest, spelled, path, depth, soFar, children, under, read => by
      obtain ⟨-, child, readChild, read⟩ := readChildren_cons read
      have after := under.insert name (keepsDefaults_of_readFeature value readChild)
      exact keepsDefaults_of_readChildren rest after read

end

-- At the top level the features are the members themselves.
theorem keepsDefaults_of_read {value : Json} {tree : Tree} (read : Tree.read value = .ok tree) :
    ∃ members, value = .obj members ∧ EachKeepsDefaults members tree := by
  unfold Tree.read at read
  split at read
  · next members =>
      refine ⟨members, rfl, ?_⟩
      have paired := forall₂_of_mapM_eq_ok read
      clear read
      induction paired with
      | nil => exact .nil
      | cons first others ih =>
          obtain ⟨feature, readFeature, same⟩ := bind_eq_ok.mp first
          cases same
          exact .cons (keepsDefaults_of_readFeature _ readFeature) ih
  · contradiction

end Defaults

/-- A definition can be read exactly when it is well formed. What is read is at most as
high as features may lie deep, below the top level no feature has a reserved name, and every
feature keeps the default it is given, whatever that is. -/
theorem exists_read_iff_wellFormed (value : Json) :
    ((∃ tree, Tree.read value = .ok tree) ↔ WellFormed metadataNames value) ∧
      ∀ tree, Tree.read value = .ok tree →
        heightOf tree ≤ maximumDepth ∧ (∀ entry ∈ tree, SoundChildren entry.2.children) ∧
          ∃ members, value = .obj members ∧ EachKeepsDefaults members tree :=
  ⟨isOk_iff.symm.trans isOk_read, fun _ read =>
    ⟨heightOf_le_of_read read, Tree.sound_of_read read, keepsDefaults_of_read read⟩⟩

/-- A feature with children in both spellings, one of them under a name that metadata have. -/
def sampleDescription : Json :=
  .obj [("ranking", .obj []), ("default", .obj [("title", .int 5)]),
    ("children", .obj [("title", .obj [])])]

def sampleDescribed : Feature :=
  ⟨{ Metadata.blank with defaultValue := some (.obj [("title", .int 5)]) },
    [("ranking", ⟨.blank, []⟩), ("title", ⟨.blank, []⟩)]⟩

/-- The default is kept as it stands, though it is an object. -/
theorem exists_read_iff_wellFormed_sample :
    WellFormed metadataNames (.obj [("search", sampleDescription)]) ∧
      heightOf [("search", sampleDescribed)] ≤ maximumDepth ∧
        KeepsDefaults sampleDescription sampleDescribed := by
  obtain ⟨readable, whenRead⟩ := exists_read_iff_wellFormed (.obj [("search", sampleDescription)])
  obtain ⟨height, -, members, same, kept⟩ := whenRead [("search", sampleDescribed)] rfl
  cases same
  cases kept with
  | cons search others => exact ⟨readable.mp ⟨_, rfl⟩, height, search⟩

/-- A definition with a default that is an object, though not one that describes a feature. -/
def sampleObjectDefault : Json :=
  .obj [("search", .obj [("default", .obj [("title", .int 5)])])]

/-- A default may be any object. It would have to describe a feature if defaults were no
metadata. -/
theorem read_sampleObjectDefault :
    (∃ tree, Tree.read sampleObjectDefault = .ok tree) ∧
      ¬WellFormed (metadataNames.erase "default") sampleObjectDefault := by
  refine ⟨⟨_, rfl⟩, ?_⟩
  rintro ⟨features, same, each⟩
  cases same
  have search := each _ List.mem_cons_self
  obtain ⟨-, members, same, each⟩ := wellFormedAt_iff.mp search
  cases same
  have default := each _ List.mem_cons_self
  have child := (wellFormedMember_other (by decide) (by decide)).mp default rfl
  obtain ⟨-, members, same, each⟩ := wellFormedAt_iff.mp child
  cases same
  have title := each _ List.mem_cons_self
  obtain ⟨text, same⟩ := (wellFormedMember_field (by decide)).mp title
  contradiction

end Toggles.Definition
