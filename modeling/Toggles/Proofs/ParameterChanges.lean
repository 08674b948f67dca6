import Toggles.Proofs.Reversal

/-! The lines that a changed feature gets for its parameters.

Parameters are compared down to the names at which they part: both have objects above such a
name, and at it only one of them has a value, or both have different values that are not both
objects. The lines name exactly these places, each of them once and in the order in which the
members are compared, and nothing is said of what is equal.
-/

set_option autoImplicit false

namespace Toggles.Json

variable {before after : Json}

theorem memberAlong?_append (value : Json) (front behind : List String) :
    value.memberAlong? (front ++ behind) =
      (value.memberAlong? front).bind fun member => member.memberAlong? behind :=
  List.foldlM_append

theorem memberAlong?_obj (members : Members) (name : String) (rest : List String) :
    (obj members).memberAlong? (name :: rest) =
      (Ordered.get? members name).bind fun member => member.memberAlong? rest :=
  rfl

theorem memberAlong?_single (members : Members) (name : String) :
    (obj members).memberAlong? [name] = Ordered.get? members name :=
  Option.bind_fun_some _

-- Equal values have equal members.
theorem Same.member? (same : Same before after) (name : String) :
    Option.Rel Same (before.member? name) (after.member? name) := by
  cases same with
  | obj names members =>
      simp only [Json.member?]
      cases found : Ordered.get? _ name with
      | none =>
          have absent := mt (names name).mpr (Ordered.get?_eq_none.mp found)
          rw [Ordered.get?_eq_none.mpr absent]
          exact .none
      | some value =>
          have present := (names name).mp (Ordered.isSome_get?.mp (Option.isSome_of_eq_some found))
          obtain ⟨other, foundOther⟩ := Option.isSome_iff_exists.mp (Ordered.isSome_get?.mpr present)
          rw [foundOther]
          exact .some (members name value other found foundOther)
  | null | bool | int | float | str | arr => exact .none

theorem Same.memberAlong? (same : Same before after) (names : List String) :
    Option.Rel Same (before.memberAlong? names) (after.memberAlong? names) := by
  induction names generalizing before after with
  | nil => exact .some same
  | cons name rest ih =>
      rw [memberAlong?_cons, memberAlong?_cons]
      have members := same.member? name
      generalize before.member? name = left, after.member? name = right at members
      cases members with
      | none => exact .none
      | some same => exact ih same

end Toggles.Json

namespace Toggles.Document

open Json (Members)

def chainPath (path : String) (chain : List String) : String :=
  ".".intercalate (path :: chain)

inductive LineOf (path : String) : Option Json → Option Json → String → Prop where
  | added (value : Json) :
      LineOf path none (some value) (path ++ ": added (" ++ value.compact ++ ")")
  | removed (value : Json) : LineOf path (some value) none (path ++ ": removed")
  | replaced {before after : Json} (different : ¬Json.Same before after)
      (whole : before.isObject = false ∨ after.isObject = false) :
      LineOf path (some before) (some after)
        (path ++ ": " ++ before.compact ++ " → " ++ after.compact)

/-- Two values part at the end of a chain of names, and not before it: at each earlier place of
the chain both have objects. -/
structure PartAt (path : String) (before after : Json) (chain : List String) (line : String) :
    Prop where
  objects : ∀ front, front <+: chain → front ≠ chain → ∃ members others,
    before.memberAlong? front = some (.obj members) ∧ after.memberAlong? front = some (.obj others)
  line : LineOf (chainPath path chain) (before.memberAlong? chain) (after.memberAlong? chain) line

/-- The names of two objects in the order in which they are compared: those of the first one,
then those that only the second has. -/
def comparedNames (before after : Members) : List String :=
  Ordered.keys before ++ (Ordered.keys after).filter fun name => decide (name ∉ Ordered.keys before)

/-- The order of chains: where two chains have different names for the first time, the name that
is compared first decides. -/
inductive Precedes : Json → Json → List String → List String → Prop where
  | apart {before after : Members} {name other : String} {rest restOther : List String}
      (order : [name, other].Sublist (comparedNames before after)) :
      Precedes (.obj before) (.obj after) (name :: rest) (other :: restOther)
  | under {before after : Members} {old new : Json} {name : String} {rest restOther : List String}
      (present : Ordered.get? before name = some old)
      (presentAfter : Ordered.get? after name = some new)
      (below : Precedes old new rest restOther) :
      Precedes (.obj before) (.obj after) (name :: rest) (name :: restOther)

section Names
variable {before after : Members} {name : String}

theorem mem_comparedNames : name ∈ comparedNames before after ↔
    name ∈ Ordered.keys before ∨ name ∈ Ordered.keys after := by
  by_cases present : name ∈ Ordered.keys before <;> simp [comparedNames, present]

theorem nodup_comparedNames (distinct : Ordered.Distinct before)
    (distinctAfter : Ordered.Distinct after) : (comparedNames before after).Nodup := by
  refine List.nodup_append.mpr ⟨distinct, List.Nodup.filter _ distinctAfter, ?_⟩
  rintro name member other kept rfl
  simp only [List.mem_filter, decide_eq_true_eq] at kept
  exact kept.2 member

theorem Precedes.ne {left right : Json} {chain other : List String} (proper : left.Proper)
    (properRight : right.Proper) (precedes : Precedes left right chain other) : chain ≠ other := by
  induction precedes with
  | apart order =>
      intro same
      cases same
      have nodup := (nodup_comparedNames proper.1 properRight.1).sublist order
      simp at nodup
  | under present presentAfter below ih =>
      intro same
      cases same
      exact ih (proper.2.get? present) (properRight.2.get? presentAfter) rfl

def memberChanges (path : String) (before after : Members) (name : String) : List Change :=
  match Ordered.get? before name, Ordered.get? after name with
  | some old, some new => changedValue (path ++ "." ++ name) old new
  | some _, none => [.removed (path ++ "." ++ name)]
  | none, some value => [.added (path ++ "." ++ name) value]
  | none, none => []

theorem comparedNames_eq (before after : Members) : comparedNames before after =
    Ordered.keys before ++ Ordered.keys (Ordered.without after before) := by
  have absent (entry : String × Json) :
      decide (entry.1 ∉ Ordered.keys before) = !Ordered.contains before entry.1 := by
    rw [decide_not, ← Bool.decide_coe (Ordered.contains before entry.1)]
    simp only [Ordered.contains_iff]
  simp only [comparedNames, Ordered.keys, Ordered.without, List.filter_map, Function.comp_def]
  simp only [← Ordered.keys.eq_def, absent]

-- Objects are compared name by name.
theorem changedObject_eq_flatMap (path : String) (distinct : Ordered.Distinct before)
    (distinctAfter : Ordered.Distinct after) : changedObject path before after =
      (comparedNames before after).flatMap (memberChanges path before after) := by
  rw [changedObject_eq, Ordered.comparison, comparedNames_eq, List.flatMap_append, Ordered.keys,
    Ordered.keys, List.flatMap_map, List.flatMap_map]
  refine congrArg₂ (· ++ ·) (List.flatMap_congr fun entry member => ?inBefore) ?onlyAfter
  case inBefore =>
    rw [memberChanges, Ordered.get?_of_mem distinct member]
    cases Ordered.get? after entry.1 <;> rfl
  case onlyAfter =>
    rw [List.map_eq_flatMap]
    refine List.flatMap_congr fun entry member => ?_
    obtain ⟨member, absent⟩ := List.mem_filter.mp member
    have absent : Ordered.get? before entry.1 = none := by
      simpa [Ordered.contains] using absent
    rw [memberChanges, Ordered.get?_of_mem distinctAfter member, absent]

end Names

section Places
variable {path name line : String} {before after : Json} {chain rest : List String}

theorem partAt_nil : PartAt path before after [] line ↔ LineOf path (some before) (some after) line :=
  ⟨PartAt.line, fun line => ⟨fun _ front other => absurd (List.prefix_nil.mp front) other, line⟩⟩

theorem PartAt.of_cons (parts : PartAt path before after (name :: rest) line) :
    ∃ members others, before = .obj members ∧ after = .obj others := by
  obtain ⟨members, others, here, there⟩ := parts.objects [] List.nil_prefix (by simp)
  exact ⟨members, others, Option.some.inj here, Option.some.inj there⟩

/-- Two members of one name part at the end of a chain below them. Where only one of them is
there, the chain ends at the name. -/
inductive MembersPart (path : String) : Option Json → Option Json → List String → String → Prop where
  | both {old new : Json} {chain : List String} {line : String}
      (parts : PartAt path old new chain line) : MembersPart path (some old) (some new) chain line
  | single {old new : Option Json} {line : String} (alone : old = none ∨ new = none)
      (words : LineOf path old new line) : MembersPart path old new [] line

theorem partAt_cons {before after : Members} :
    PartAt path (.obj before) (.obj after) (name :: rest) line ↔
      MembersPart (path ++ "." ++ name) (Ordered.get? before name) (Ordered.get? after name) rest
        line := by
  constructor
  · rintro ⟨objects, words⟩
    -- Below the name both members are objects, so that a chain that goes on has both.
    have further (bottom : rest ≠ []) : ∃ members others,
        Ordered.get? before name = some (.obj members) ∧
          Ordered.get? after name = some (.obj others) := by
      have first : [name] ≠ name :: rest := by simpa using bottom.symm
      have below := objects [name] (by simp) first
      rwa [Json.memberAlong?_single, Json.memberAlong?_single] at below
    by_cases alone : Ordered.get? before name = none ∨ Ordered.get? after name = none
    · have bottom : rest = [] := by
        by_contra goes
        obtain ⟨members, others, here, there⟩ := further goes
        simp [here, there] at alone
      subst bottom
      rw [Json.memberAlong?_single, Json.memberAlong?_single] at words
      exact .single alone words
    · rw [not_or, ← Ne, ← Ne, Option.ne_none_iff_exists', Option.ne_none_iff_exists'] at alone
      obtain ⟨⟨old, here⟩, ⟨new, there⟩⟩ := alone
      rw [Json.memberAlong?_obj, Json.memberAlong?_obj, here, there] at words
      rw [here, there]
      refine .both ⟨fun front beginning other => ?_, words⟩
      have objects := objects (name :: front) ((List.prefix_cons_inj name).mpr beginning)
        fun same => other (List.cons.inj same).2
      rwa [Json.memberAlong?_obj, Json.memberAlong?_obj, here, there] at objects
  · intro parts
    generalize here : Ordered.get? before name = left, there : Ordered.get? after name = right at parts
    cases parts with
    | both parts =>
        refine ⟨fun front beginning other => ?_, ?_⟩
        · rcases List.prefix_cons_iff.mp beginning with rfl | ⟨behind, rfl, below⟩
          · exact ⟨before, after, rfl, rfl⟩
          · rw [Json.memberAlong?_obj, Json.memberAlong?_obj, here, there]
            exact parts.objects behind below fun same => other (same ▸ rfl)
        · rw [Json.memberAlong?_obj, Json.memberAlong?_obj, here, there]
          exact parts.line
    | single alone words =>
        refine ⟨fun front beginning other => ?_, ?_⟩
        · rcases List.prefix_cons_iff.mp beginning with rfl | ⟨behind, rfl, below⟩
          · exact ⟨before, after, rfl, rfl⟩
          · exact absurd (congrArg _ (List.prefix_nil.mp below)) other
        · rwa [Json.memberAlong?_single, Json.memberAlong?_single, here, there]

end Places

/-- Chains with their lines: the places at which two values part, in order, and no others. -/
structure Enumerates (path : String) (before after : Json) (chains : List (List String))
    (lines : List String) : Prop where
  each : List.Forall₂ (PartAt path before after) chains lines
  ordered : chains.Pairwise (Precedes before after)
  complete : ∀ chain line, PartAt path before after chain line → chain ∈ chains

structure EnumeratesUnder (path : String) (before after : Members) (names : List String)
    (chains : List (List String)) (lines : List String) : Prop where
  each : List.Forall₂ (PartAt path (.obj before) (.obj after)) chains lines
  ordered : chains.Pairwise (Precedes (.obj before) (.obj after))
  complete : ∀ name ∈ names, ∀ rest line,
    PartAt path (.obj before) (.obj after) (name :: rest) line → name :: rest ∈ chains
  within : ∀ chain ∈ chains, ∃ name ∈ names, ∃ rest, chain = name :: rest

section Enumeration
variable {path : String}

-- Values that are not both objects part at once or not at all.
theorem enumerates_whole {before after : Json} (proper : before.Proper) (properAfter : after.Proper)
    (whole : before.isObject = false ∨ after.isObject = false) :
    ∃ chains, Enumerates path before after chains
      ((changedValue path before after).map Change.line) := by
  have top {chain : List String} {line : String} (parts : PartAt path before after chain line) :
      chain = [] := by
    cases chain with
    | nil => rfl
    | cons name rest =>
        obtain ⟨members, others, rfl, rfl⟩ := parts.of_cons
        simp [Json.isObject] at whole
  rw [changedValue_eq path whole]
  by_cases same : Json.Same before after
  · refine ⟨[], ?_, .nil, fun chain line parts => ?_⟩
    · rw [if_pos (same.equivalent proper properAfter)]
      exact .nil
    · cases top parts
      cases parts.line with
      | replaced different => exact absurd same different
  · refine ⟨[[]], ?_, List.pairwise_singleton _ _, fun chain line parts => by simp [top parts]⟩
    rw [if_neg (mt (Json.same_of_equivalent proper properAfter) same)]
    exact .cons (partAt_nil.mpr (.replaced same whole)) .nil

variable {before after : Members} {name : String} {names namesNext : List String}
  {chains chainsNext : List (List String)} {lines linesNext : List String}

theorem EnumeratesUnder.append (first : EnumeratesUnder path before after names chains lines)
    (second : EnumeratesUnder path before after namesNext chainsNext linesNext)
    (order : ∀ name ∈ names, ∀ other ∈ namesNext,
      [name, other].Sublist (comparedNames before after)) :
    EnumeratesUnder path before after (names ++ namesNext) (chains ++ chainsNext)
      (lines ++ linesNext) where
  each := List.rel_append first.each second.each
  ordered := by
    refine List.pairwise_append.mpr ⟨first.ordered, second.ordered, fun chain member other next => ?_⟩
    obtain ⟨name, named, rest, rfl⟩ := first.within chain member
    obtain ⟨name', named', rest', rfl⟩ := second.within other next
    exact .apart (order name named name' named')
  complete name member rest line parts := by
    rcases List.mem_append.mp member with member | member
    · exact List.mem_append_left _ (first.complete name member rest line parts)
    · exact List.mem_append_right _ (second.complete name member rest line parts)
  within chain member := by
    rcases List.mem_append.mp member with member | member
    · obtain ⟨name, named, starts⟩ := first.within chain member
      exact ⟨name, List.mem_append_left _ named, starts⟩
    · obtain ⟨name, named, starts⟩ := second.within chain member
      exact ⟨name, List.mem_append_right _ named, starts⟩

-- Below a name that both objects have, the places are those of its two members.
theorem enumeratesUnder_both {old new : Json} (present : Ordered.get? before name = some old)
    (presentAfter : Ordered.get? after name = some new)
    (below : Enumerates (path ++ "." ++ name) old new chains lines) :
    EnumeratesUnder path before after [name] (chains.map (name :: ·)) lines where
  each := by
    rw [List.forall₂_map_left_iff]
    refine below.each.imp fun chain line parts => partAt_cons.mpr ?_
    rw [present, presentAfter]
    exact .both parts
  ordered := List.pairwise_map.mpr (below.ordered.imp (.under present presentAfter))
  complete first member rest line parts := by
    cases List.mem_singleton.mp member
    have parts := partAt_cons.mp parts
    rw [present, presentAfter] at parts
    cases parts with
    | both parts => exact List.mem_map_of_mem (below.complete rest line parts)
    | single alone => simp at alone
  within chain member := by
    obtain ⟨rest, -, rfl⟩ := List.mem_map.mp member
    exact ⟨name, List.mem_singleton_self name, rest, rfl⟩

-- A name that only one object has is a place itself.
theorem enumeratesUnder_single {line : String}
    (alone : Ordered.get? before name = none ∨ Ordered.get? after name = none)
    (words : LineOf (path ++ "." ++ name) (Ordered.get? before name) (Ordered.get? after name) line) :
    EnumeratesUnder path before after [name] [[name]] [line] where
  each := .cons (partAt_cons.mpr (.single alone words)) .nil
  ordered := List.pairwise_singleton _ _
  complete first member rest line parts := by
    cases List.mem_singleton.mp member
    have parts := partAt_cons.mp parts
    generalize Ordered.get? before name = old, Ordered.get? after name = new at alone parts
    cases parts with
    | both parts => simp at alone
    | single => exact List.mem_singleton_self _
  within chain member := ⟨name, List.mem_singleton_self name, [], List.mem_singleton.mp member⟩

theorem enumeratesUnder_absent (absent : Ordered.get? before name = none)
    (absentAfter : Ordered.get? after name = none) :
    EnumeratesUnder path before after [name] [] [] where
  each := .nil
  ordered := .nil
  complete first member rest line parts := by
    cases List.mem_singleton.mp member
    have parts := partAt_cons.mp parts
    rw [absent, absentAfter] at parts
    cases parts with
    | single alone words => cases words
  within _ member := absurd member List.not_mem_nil

theorem exists_enumeratesUnder_name
    (below : ∀ old new, Ordered.get? before name = some old → Ordered.get? after name = some new →
      ∃ chains, Enumerates (path ++ "." ++ name) old new chains
        ((changedValue (path ++ "." ++ name) old new).map Change.line)) :
    ∃ chains, EnumeratesUnder path before after [name] chains
      ((memberChanges path before after name).map Change.line) := by
  rw [memberChanges]
  cases present : Ordered.get? before name with
  | none =>
      cases presentAfter : Ordered.get? after name with
      | none => exact ⟨[], enumeratesUnder_absent present presentAfter⟩
      | some value =>
          refine ⟨[[name]], enumeratesUnder_single (.inl present) ?_⟩
          rw [present, presentAfter]
          exact .added value
  | some old =>
      cases presentAfter : Ordered.get? after name with
      | none =>
          refine ⟨[[name]], enumeratesUnder_single (.inr presentAfter) ?_⟩
          rw [present, presentAfter]
          exact .removed old
      | some new =>
          obtain ⟨chains, enumerates⟩ := below old new present presentAfter
          exact ⟨_, enumeratesUnder_both present presentAfter enumerates⟩

-- Name after name, the places under all of them are put together in their order.
theorem exists_enumeratesUnder (sublist : names.Sublist (comparedNames before after))
    (each : ∀ name ∈ names, ∃ chains, EnumeratesUnder path before after [name] chains
      ((memberChanges path before after name).map Change.line)) :
    ∃ chains, EnumeratesUnder path before after names chains
      ((names.flatMap (memberChanges path before after)).map Change.line) := by
  induction names with
  | nil => exact ⟨[], .nil, .nil, by simp, by simp⟩
  | cons name rest ih =>
      obtain ⟨here, each⟩ := List.forall_mem_cons.mp each
      obtain ⟨chains, first⟩ := here
      obtain ⟨chainsNext, further⟩ := ih (List.sublist_of_cons_sublist sublist) each
      rw [List.flatMap_cons, List.map_append]
      refine ⟨chains ++ chainsNext, first.append further fun name' here other next => ?_⟩
      cases List.mem_singleton.mp here
      exact ((List.singleton_sublist.mpr next).cons_cons name).trans sublist

theorem enumerates_of_names (enumerates : EnumeratesUnder path before after
      (comparedNames before after) chains lines) :
    Enumerates path (.obj before) (.obj after) chains lines where
  each := enumerates.each
  ordered := enumerates.ordered
  complete chain line parts := by
    cases chain with
    | nil =>
        cases parts.line with
        | replaced different whole => simp [Json.isObject] at whole
    | cons name rest =>
        refine enumerates.complete name (mem_comparedNames.mpr ?_) rest line parts
        by_contra absent
        rw [not_or, ← Ordered.get?_eq_none, ← Ordered.get?_eq_none] at absent
        have parts := partAt_cons.mp parts
        rw [absent.1, absent.2] at parts
        cases parts with
        | single alone words => cases words

theorem exists_enumerates (before : Json) : ∀ {after : Json} {path : String}, before.Proper →
    after.Proper → ∃ chains, Enumerates path before after chains
      ((changedValue path before after).map Change.line) := by
  induction before using Json.induction_parts with
  | scalar before _ noMembers =>
      intro after path proper properAfter
      refine enumerates_whole proper properAfter (.inl ?_)
      cases before with
      | obj members => exact absurd rfl (noMembers members)
      | null | bool | int | float | str | arr => rfl
  | arr items =>
      intro after path proper properAfter
      exact enumerates_whole proper properAfter (.inl rfl)
  | obj members ih =>
      intro after path proper properAfter
      cases after with
      | obj others =>
          have each (name : String) : ∃ chains, EnumeratesUnder path members others [name] chains
              ((memberChanges path members others name).map Change.line) :=
            exists_enumeratesUnder_name fun old new present presentAfter =>
              ih _ (Ordered.mem_of_get? present) (proper.2.get? present)
                (properAfter.2.get? presentAfter)
          obtain ⟨chains, enumerates⟩ := exists_enumeratesUnder (.refl _) fun name _ => each name
          rw [changedValue, ← changedObject,
            changedObject_eq_flatMap path proper.1 properAfter.1]
          exact ⟨chains, enumerates_of_names enumerates⟩
      | null | bool | int | float | str | arr =>
          exact enumerates_whole proper properAfter (.inr rfl)

end Enumeration

section Exactness
variable {path : String} {before after old new : Json} {chains : List (List String)}
  {lines : List String} {chain front : List String} {line : String}

theorem LineOf.unique {old new : Option Json} {other : String} (words : LineOf path old new line)
    (words' : LineOf path old new other) : line = other := by
  cases words <;> cases words' <;> rfl

theorem Enumerates.exists_line (enumerates : Enumerates path before after chains lines)
    (member : chain ∈ chains) : ∃ line, (chain, line) ∈ chains.zip lines := by
  rw [← List.map_fst_zip (Nat.le_of_eq enumerates.each.length_eq)] at member
  obtain ⟨⟨_, line⟩, entry, rfl⟩ := List.mem_map.mp member
  exact ⟨line, entry⟩

theorem Enumerates.mem_zip_iff (enumerates : Enumerates path before after chains lines) :
    (chain, line) ∈ chains.zip lines ↔ PartAt path before after chain line := by
  have each {line : String} (entry : (chain, line) ∈ chains.zip lines) :
      PartAt path before after chain line :=
    (List.forall₂_iff_zip.mp enumerates.each).2 entry
  refine ⟨each, fun parts => ?_⟩
  obtain ⟨other, entry⟩ := enumerates.exists_line (enumerates.complete chain line parts)
  rwa [parts.line.unique (each entry).line]

-- Where both values are objects, only members of theirs part.
theorem not_partAt_of_objects (here : before.memberAlong? chain = some old)
    (there : after.memberAlong? chain = some new) (object : old.isObject = true)
    (objectAfter : new.isObject = true) : ¬PartAt path before after chain line := by
  intro parts
  have words := parts.line
  rw [here, there] at words
  cases words with
  | replaced different whole => simp [object, objectAfter] at whole

-- Nothing parts within equal values.
theorem not_partAt_of_same (here : before.memberAlong? front = some old)
    (there : after.memberAlong? front = some new) (same : Json.Same old new)
    (within : front <+: chain) : ¬PartAt path before after chain line := by
  intro parts
  obtain ⟨behind, rfl⟩ := within
  have words := parts.line
  rw [Json.memberAlong?_append, Json.memberAlong?_append, here, there, Option.bind_some,
    Option.bind_some] at words
  have alike := same.memberAlong? behind
  generalize old.memberAlong? behind = left, new.memberAlong? behind = right at words alike
  cases words with
  | added | removed => cases alike
  | replaced different => exact different (Option.rel_some_some.mp alike)

end Exactness

/-- The lines for the parameters of a changed feature stand behind the one for its flag. They are
those of the places at which the parameters part, each place once and in the order of comparison:
no line for a pair of objects, and none for anything within equal values. -/
theorem parameter_lines_exact {before after : Feature}
    (proper : (Json.obj before.paramMembers).Proper)
    (properAfter : (Json.obj after.paramMembers).Proper) :
    ∃ entries : List (List String × String),
      (before.changes after).map Change.line =
        (if before.enabled = after.enabled then []
          else ["enabled: " ++ flagText before.enabled ++ " → " ++ flagText after.enabled]) ++
        entries.map Prod.snd ∧
      (∀ chain line, (chain, line) ∈ entries ↔
        PartAt "params" (.obj before.paramMembers) (.obj after.paramMembers) chain line) ∧
      (entries.map Prod.fst).Pairwise
        (Precedes (.obj before.paramMembers) (.obj after.paramMembers)) ∧
      (entries.map Prod.fst).Nodup ∧
      ∀ front old new, (Json.obj before.paramMembers).memberAlong? front = some old →
        (Json.obj after.paramMembers).memberAlong? front = some new →
        (old.isObject = true → new.isObject = true → front ∉ entries.map Prod.fst) ∧
        (Json.Same old new → ∀ chain ∈ entries.map Prod.fst, ¬front <+: chain) := by
  obtain ⟨chains, enumerates⟩ : ∃ chains, Enumerates "params" (.obj before.paramMembers)
      (.obj after.paramMembers) chains _ := exists_enumerates _ proper properAfter
  rw [changedValue, ← changedObject] at enumerates
  have length := enumerates.each.length_eq
  have names : (chains.zip ((changedObject "params" before.paramMembers
      after.paramMembers).map Change.line)).map Prod.fst = chains :=
    List.map_fst_zip (Nat.le_of_eq length)
  refine ⟨_, ?lines, fun chain line => enumerates.mem_zip_iff, ?_, ?_, ?_⟩
  case lines =>
    rw [Feature.changes, List.map_append, List.map_snd_zip (Nat.le_of_eq length.symm)]
    split <;> rfl
  all_goals rw [names]
  · exact enumerates.ordered
  · exact enumerates.ordered.imp fun precedes => precedes.ne proper properAfter
  · intro front old new here there
    refine ⟨fun object objectAfter member => ?_, fun same chain member within => ?_⟩
    all_goals
      obtain ⟨line, entry⟩ := enumerates.exists_line member
      have parts := enumerates.mem_zip_iff.mp entry
    · exact not_partAt_of_objects here there object objectAfter parts
    · exact not_partAt_of_same here there same within parts

/-- Parameters with an object for a number, an object that is gone, an integer for a binary64
number, and an array of an object whose members change places. -/
def sampleOldParameters : Feature :=
  ⟨true, some [("size", .int 5), ("layout", .obj [("columns", .int 2), ("rows", .obj [])]),
    ("order", .arr [.obj [("by", .str "name"), ("down", .bool true)]])], none, []⟩

def sampleNewParameters : Feature :=
  ⟨false, some [("order", .arr [.obj [("down", .bool true), ("by", .str "name")]]),
    ("theme", .str "dark"), ("layout", .obj [("columns", .float (.zero false))]),
    ("size", .obj [])], none, []⟩

theorem parameter_lines_exact_sample : (Json.obj sampleOldParameters.paramMembers).Proper ∧
    (Json.obj sampleNewParameters.paramMembers).Proper ∧
    ∃ entries : List (List String × String),
      (sampleOldParameters.changes sampleNewParameters).map Change.line =
        "enabled: true → false" :: entries.map Prod.snd ∧
      (["layout", "rows"], "params.layout.rows: removed") ∈ entries ∧
      ["layout"] ∉ entries.map Prod.fst ∧ ["order"] ∉ entries.map Prod.fst := by
  have proper : (Json.obj sampleOldParameters.paramMembers).Proper := by decide
  have properAfter : (Json.obj sampleNewParameters.paramMembers).Proper := by decide
  obtain ⟨entries, lines, exact, -, -, silent⟩ := parameter_lines_exact proper properAfter
  have same : Json.Same (.arr [.obj [("by", .str "name"), ("down", .bool true)]])
      (.arr [.obj [("down", .bool true), ("by", .str "name")]]) :=
    Json.same_of_equivalent (by decide) (by decide) (by decide)
  refine ⟨proper, properAfter, entries, lines, (exact _ _).mpr ?_, ?_, ?_⟩
  · exact partAt_cons.mpr (.both (partAt_cons.mpr (.single (.inr rfl) (.removed _))))
  · exact (silent ["layout"] _ _ rfl rfl).1 rfl rfl
  · exact fun member => (silent ["order"] _ _ rfl rfl).2 same _ member (List.prefix_refl _)

end Toggles.Document
