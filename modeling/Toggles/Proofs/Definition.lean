import Toggles.Definition.Reader
import Toggles.Proofs.Json
import Toggles.Proofs.Success

/-! What reading a definition ensures.

Children are told apart by their names, and none of them is named like the state of
a feature: a flattened child would have been taken for metadata, and an explicit one
is refused. Parameters are told apart when the value that was read is proper.
-/

set_option autoImplicit false

namespace Toggles.Definition

section Reserved
variable {name : String}

theorem mem_reservedNames :
    name ∈ reservedNames ↔ name = "enabled" ∨ name = "params" ∨ name = "children" := by
  simp [reservedNames]

theorem notMem_reservedNames :
    name ∉ reservedNames ↔ name ≠ "enabled" ∧ name ≠ "params" ∧ name ≠ "children" := by
  simp [reservedNames]

end Reserved

/-- Children at every depth have names of their own that are not reserved. -/
inductive SoundChildren : List (String × Feature) → Prop where
  | level {children : List (String × Feature)} (distinct : Ordered.Distinct children)
      (unreserved : ∀ name ∈ Ordered.keys children, name ∉ reservedNames)
      (under : ∀ entry ∈ children, SoundChildren entry.2.children) : SoundChildren children

section Levels
variable {children : List (String × Feature)}

theorem SoundChildren.distinct (sound : SoundChildren children) : Ordered.Distinct children := by
  cases sound with
  | level distinct unreserved under => exact distinct

theorem SoundChildren.unreserved (sound : SoundChildren children) :
    ∀ name ∈ Ordered.keys children, name ∉ reservedNames := by
  cases sound with
  | level distinct unreserved under => exact unreserved

theorem SoundChildren.under (sound : SoundChildren children) :
    ∀ entry ∈ children, SoundChildren entry.2.children := by
  cases sound with
  | level distinct unreserved under => exact under

theorem SoundChildren.nil : SoundChildren [] :=
  .level List.nodup_nil (by simp) (by simp)

theorem SoundChildren.insert {name : String} {feature : Feature} (sound : SoundChildren children)
    (unreserved : name ∉ reservedNames) (under : SoundChildren feature.children) :
    SoundChildren (Ordered.insert children name feature) := by
  refine .level sound.distinct.insert (fun other member => ?_) fun entry member => ?_
  · rcases Ordered.mem_keys_insert.mp member with present | same
    · exact sound.unreserved other present
    · exact same ▸ unreserved
  · rcases Ordered.mem_insert member with same | present
    · exact same ▸ under
    · exact sound.under entry present

end Levels

section Reading

-- Metadata fields take the names of the state, so what is no field is not reserved
-- unless it is the member for children.
theorem unreserved_of_assign?_eq_none {metadata : Metadata} {name : String} {value : Json}
    (noField : metadata.assign? name value = none) (other : name ≠ "children") :
    name ∉ reservedNames := by
  intro member
  rcases mem_reservedNames.mp member with rfl | rfl | rfl
  · simp [Metadata.assign?] at noField
  · simp [Metadata.assign?] at noField
  · exact other rfl

/-- How a member that is no metadata changes the children of a feature. -/
inductive TakesMember (path : String) (depth : Nat) (before : List (String × Feature)) :
    String → Json → List (String × Feature) → Prop where
  | explicit {members : Json.Members} {after : List (String × Feature)}
      (read : readChildren path depth before members = .ok after) :
      TakesMember path depth before "children" (.obj members) after
  | flattened {name : String} {members : Json.Members} {child : Feature}
      (other : name ≠ "children")
      (read : readFeature (childPath path name) (depth + 1) (.obj members) = .ok child) :
      TakesMember path depth before name (.obj members) (Ordered.insert before name child)
  | ignored {name : String} {value : Json} (other : name ≠ "children")
      (noObject : value.isObject = false) : TakesMember path depth before name value before

-- A member that is read is metadata or changes the children.
theorem readMembers_cons {path name : String} {depth : Nat} {soFar feature : Feature} {value : Json}
    {rest : List (String × Json)}
    (read : readMembers path depth soFar ((name, value) :: rest) = .ok feature) :
    (∃ metadata, soFar.metadata.assign? name value = some (.ok metadata) ∧
      readMembers path depth ⟨metadata, soFar.children⟩ rest = .ok feature) ∨
    (soFar.metadata.assign? name value = none ∧ ∃ children,
      TakesMember path depth soFar.children name value children ∧
        readMembers path depth ⟨soFar.metadata, children⟩ rest = .ok feature) := by
  unfold readMembers at read
  split at read
  · next metadata assigned => exact .inl ⟨metadata, assigned, read⟩
  · contradiction
  · next noField =>
      refine .inr ⟨noField, ?_⟩
      split at read
      · next same =>
          split at read
          · obtain ⟨children, taken, read⟩ := bind_eq_ok.mp read
            exact ⟨children, same ▸ .explicit taken, read⟩
          · contradiction
      · next other =>
          split at read
          · next object =>
              obtain ⟨child, readChild, readRest⟩ := bind_eq_ok.mp read
              cases value with
              | obj members => exact ⟨_, .flattened other readChild, readRest⟩
              | null | bool | int | float | str | arr => contradiction
          · next noObject =>
              exact ⟨soFar.children, .ignored other (Bool.eq_false_iff.mpr noObject), read⟩

-- Only an object within the depth is read as a feature.
theorem readFeature_eq_ok {path : String} {depth : Nat} {value : Json} {feature : Feature}
    (read : readFeature path depth value = .ok feature) :
    depth ≤ maximumDepth ∧ ∃ members, value = .obj members ∧
      readMembers path depth ⟨.blank, []⟩ members = .ok feature := by
  unfold readFeature at read
  split at read
  · contradiction
  · next within =>
      split at read
      · next members => exact ⟨Nat.le_of_not_lt within, members, rfl, read⟩
      · contradiction

theorem readChildren_cons {path name : String} {depth : Nat} {soFar children : List (String × Feature)}
    {value : Json} {rest : List (String × Json)}
    (read : readChildren path depth soFar ((name, value) :: rest) = .ok children) :
    name ∉ reservedNames ∧ ∃ child, readFeature (childPath path name) (depth + 1) value = .ok child ∧
      readChildren path depth (Ordered.insert soFar name child) rest = .ok children := by
  unfold readChildren at read
  split at read
  · contradiction
  · next unreserved =>
      obtain ⟨child, readChild, read⟩ := bind_eq_ok.mp read
      exact ⟨unreserved, child, readChild, read⟩

/-- A property of features at their depths that every step of reading keeps, when the
values that are read are given to have another one. What is given of the parts of a value is
given at the next depth, and at every lesser one too. -/
structure ReadingInvariant (given : Nat → Json → Prop) (holds : Nat → Feature → Prop) : Prop where
  members : ∀ {depth : Nat} {members : Json.Members}, given depth (.obj members) →
    ∀ entry ∈ members, given (depth + 1) entry.2
  shallower : ∀ {depth : Nat} {value : Json}, given (depth + 1) value → given depth value
  blank : ∀ {depth : Nat}, depth ≤ maximumDepth → holds depth ⟨.blank, []⟩
  field : ∀ {depth : Nat} {metadata assigned : Metadata} {children : List (String × Feature)}
    {name : String} {value : Json}, given (depth + 1) value →
      metadata.assign? name value = some (.ok assigned) →
      holds depth ⟨metadata, children⟩ → holds depth ⟨assigned, children⟩
  child : ∀ {depth : Nat} {metadata : Metadata} {children : List (String × Feature)}
    {name : String} {feature : Feature}, name ∉ reservedNames → holds (depth + 1) feature →
      holds depth ⟨metadata, children⟩ → holds depth ⟨metadata, Ordered.insert children name feature⟩

section Invariants
variable {given : Nat → Json → Prop} {holds : Nat → Feature → Prop}
  (invariant : ReadingInvariant given holds)
include invariant

mutual

theorem readFeature_holds : (value : Json) → {depth : Nat} → given depth value → {path : String} →
    {feature : Feature} → readFeature path depth value = .ok feature → holds depth feature
  | .obj members, depth, start, path, feature, read => by
      obtain ⟨within, _, same, read⟩ := readFeature_eq_ok read
      cases same
      exact readMembers_holds members (invariant.members start) (invariant.blank within) read
  | .null, _, _, _, _, read | .bool _, _, _, _, _, read | .int _, _, _, _, _, read
  | .float _, _, _, _, _, read | .str _, _, _, _, _, read | .arr _, _, _, _, _, read => by
      obtain ⟨-, _, same, -⟩ := readFeature_eq_ok read
      contradiction

theorem readMembers_holds : (members : List (String × Json)) → {depth : Nat} →
    (∀ entry ∈ members, given (depth + 1) entry.2) → {path : String} →
    {soFar feature : Feature} → holds depth soFar →
    readMembers path depth soFar members = .ok feature → holds depth feature
  | [], _, _, _, soFar, feature, before, read => by
      rw [readMembers] at read
      cases read
      exact before
  | (name, value) :: rest, depth, start, path, ⟨metadata, soFar⟩, feature, before, read => by
      obtain ⟨first, start⟩ := List.forall_mem_cons.mp start
      rcases readMembers_cons read with ⟨assigned, taken, read⟩ | ⟨noField, children, taken, read⟩
      · exact readMembers_holds rest start (invariant.field first taken before) read
      · have after : holds depth ⟨metadata, children⟩ := by
          cases taken with
          | explicit readMembers =>
              have below := invariant.members first
              exact readChildren_holds _ (fun entry member => invariant.shallower (below entry member))
                before readMembers
          | flattened other readChild =>
              exact invariant.child (unreserved_of_assign?_eq_none noField other)
                (readFeature_holds _ first readChild) before
          | ignored => exact before
        exact readMembers_holds rest start after read

theorem readChildren_holds : (members : List (String × Json)) → {depth : Nat} →
    (∀ entry ∈ members, given (depth + 1) entry.2) → {path : String} → {metadata : Metadata} →
    {soFar children : List (String × Feature)} → holds depth ⟨metadata, soFar⟩ →
    readChildren path depth soFar members = .ok children → holds depth ⟨metadata, children⟩
  | [], _, _, _, _, soFar, children, before, read => by
      rw [readChildren] at read
      cases read
      exact before
  | (name, value) :: rest, depth, start, path, metadata, soFar, children, before, read => by
      obtain ⟨first, start⟩ := List.forall_mem_cons.mp start
      obtain ⟨unreserved, child, readChild, read⟩ := readChildren_cons read
      have after := invariant.child unreserved (readFeature_holds value first readChild) before
      exact readChildren_holds rest start after read

end

-- What reading keeps holds of every feature of a definition.
theorem Tree.holds_of_read {value : Json} {tree : Tree} (start : given 0 value)
    (read : Tree.read value = .ok tree) : ∀ entry ∈ tree, holds 1 entry.2 := by
  intro entry member
  unfold Tree.read at read
  split at read
  · obtain ⟨source, present, readEntry⟩ := exists_of_mem_mapM read member
    obtain ⟨feature, readFeature, same⟩ := bind_eq_ok.mp readEntry
    cases same
    exact readFeature_holds invariant _ (invariant.members start source present) readFeature
  · contradiction

end Invariants

theorem soundChildren_invariant :
    ReadingInvariant (fun _ _ => True) fun _ feature => SoundChildren feature.children where
  members := fun _ _ _ => trivial
  shallower := id
  blank := fun _ => .nil
  field := fun _ _ sound => sound
  child := fun unreserved under sound => sound.insert unreserved under

-- The children of every feature of a definition that has been read are sound.
theorem Tree.sound_of_read {value : Json} {tree : Tree} (read : Tree.read value = .ok tree) :
    ∀ entry ∈ tree, SoundChildren entry.2.children :=
  Tree.holds_of_read soundChildren_invariant trivial read

end Reading

section Parameters

/-- No parameter of a feature, or of one under it, is declared twice. -/
inductive DistinctParameters : Feature → Prop where
  | feature {feature : Feature} (here : Ordered.Distinct feature.metadata.parameters)
      (under : ∀ entry ∈ feature.children, DistinctParameters entry.2) : DistinctParameters feature

theorem DistinctParameters.here {feature : Feature} (distinct : DistinctParameters feature) :
    Ordered.Distinct feature.metadata.parameters := by
  cases distinct with
  | feature here under => exact here

theorem DistinctParameters.under {feature : Feature} (distinct : DistinctParameters feature) :
    ∀ entry ∈ feature.children, DistinctParameters entry.2 := by
  cases distinct with
  | feature here under => exact under

-- Parameters keep the names of the members they are read from.
theorem keys_of_readParameters {members : Json.Members} {parameters : Ordered Parameter}
    (read : readParameters (.obj members) = .ok parameters) :
    Ordered.keys parameters = Ordered.keys members := by
  have paired := forall₂_of_mapM_eq_ok read
  clear read
  induction paired with
  | nil => rfl
  | cons first others ih =>
      unfold readParameter at first
      split at first
      · cases first
        simp [ih]
      · contradiction

theorem assign?_distinct {metadata assigned : Metadata} {name : String} {value : Json}
    (proper : value.Proper) (taken : metadata.assign? name value = some (.ok assigned))
    (distinct : Ordered.Distinct metadata.parameters) : Ordered.Distinct assigned.parameters := by
  unfold Metadata.assign? at taken
  split at taken
  case h_10 =>
    obtain ⟨parameters, read, same⟩ := bind_eq_ok.mp (Option.some.inj taken)
    cases same
    cases value with
    | obj members =>
        rw [Ordered.Distinct, keys_of_readParameters read]
        exact proper.1
    | null | bool | int | float | str | arr => contradiction
  case h_5 => cases taken; exact distinct
  case h_11 => contradiction
  all_goals
    obtain ⟨_, -, same⟩ := bind_eq_ok.mp (Option.some.inj taken)
    cases same
    exact distinct

theorem distinctParameters_invariant :
    ReadingInvariant (fun _ => Json.Proper) fun _ feature => DistinctParameters feature where
  members := fun proper => Json.properMembers_iff.mp proper.2
  shallower := id
  blank := fun _ => .feature List.nodup_nil (by simp)
  field := fun proper taken distinct => .feature (assign?_distinct proper taken distinct.here)
    distinct.under
  child := fun _ below distinct => .feature distinct.here fun entry member => by
    rcases Ordered.mem_insert member with same | present
    · exact same ▸ below
    · exact distinct.under entry present

end Parameters

-- The features of a definition keep the names of the members they are read from.
theorem Tree.keys_of_read {members : Json.Members} {tree : Tree}
    (read : Tree.read (.obj members) = .ok tree) : Ordered.keys tree = Ordered.keys members := by
  have paired := forall₂_of_mapM_eq_ok read
  clear read
  induction paired with
  | nil => rfl
  | cons first others ih =>
      obtain ⟨feature, -, same⟩ := bind_eq_ok.mp first
      cases same
      simp [ih]

end Toggles.Definition
