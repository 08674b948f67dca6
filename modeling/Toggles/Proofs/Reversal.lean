import Mathlib.Data.List.Nodup
import Mathlib.Data.List.Perm.Basic
import Toggles.Proofs.SameState

/-! What becomes of a difference when its documents change places.

Both comparisons meet the same names, but each in the order of the document that it starts from, so
that their results correspond one to one without standing in the same order. The maps of features
and the objects of parameters are compared alike: what is in both, what is only in the first and
what is only in the second. When the maps change places the last two do so too.
-/

set_option autoImplicit false

namespace Toggles

section Matching
variable {α β γ δ : Type} {r : α → β → Prop} {p : γ → δ → Prop}

/-- The items of two lists correspond one to one, in whatever order. -/
def Matched (r : α → β → Prop) (first : List α) (second : List β) : Prop :=
  ∃ arranged, List.Forall₂ r first arranged ∧ arranged.Perm second

namespace Matched
variable {first firstNext : List α} {second secondNext : List β}

theorem nil : Matched r [] [] :=
  ⟨[], .nil, .nil⟩

theorem append (matched : Matched r first second) (next : Matched r firstNext secondNext) :
    Matched r (first ++ firstNext) (second ++ secondNext) := by
  obtain ⟨arranged, each, perm⟩ := matched
  obtain ⟨arrangedNext, eachNext, permNext⟩ := next
  exact ⟨arranged ++ arrangedNext, List.rel_append each eachNext, perm.append permNext⟩

theorem of_perm {other : List α} {otherSecond : List β} (matched : Matched r first second)
    (perm : other.Perm first) (permSecond : second.Perm otherSecond) :
    Matched r other otherSecond := by
  obtain ⟨arranged, each, arrangedPerm⟩ := matched
  obtain ⟨rearranged, each, rearrangedPerm⟩ := List.perm_comp_forall₂ perm each
  exact ⟨rearranged, each, (rearrangedPerm.trans arrangedPerm).trans permSecond⟩

theorem map {items : List γ} {f : γ → α} {g : γ → β} (each : ∀ item ∈ items, r (f item) (g item)) :
    Matched r (items.map f) (items.map g) := by
  refine ⟨items.map g, ?_, .refl _⟩
  rw [List.forall₂_map_left_iff, List.forall₂_map_right_iff]
  exact List.forall₂_same.mpr each

theorem flatMap {items : List γ} {f : γ → List α} {g : γ → List β}
    (each : ∀ item ∈ items, Matched r (f item) (g item)) :
    Matched r (items.flatMap f) (items.flatMap g) := by
  induction items with
  | nil => exact nil
  | cons item rest ih =>
      obtain ⟨here, each⟩ := List.forall_mem_cons.mp each
      rw [List.flatMap_cons, List.flatMap_cons]
      exact here.append (ih each)

theorem filterMap (matched : Matched r first second) {f : α → Option γ} {g : β → Option δ}
    (related : ∀ item other, r item other → Option.Rel p (f item) (g other)) :
    Matched p (first.filterMap f) (second.filterMap g) := by
  obtain ⟨arranged, each, perm⟩ := matched
  exact ⟨arranged.filterMap g, List.rel_filterMap (fun {item other} => related item other) each,
    perm.filterMap g⟩

theorem length_eq (matched : Matched r first second) : first.length = second.length := by
  obtain ⟨arranged, each, perm⟩ := matched
  exact each.length_eq.trans perm.length_eq

-- Items that are matched as equals are the same items.
theorem perm {items others : List α} (matched : Matched Eq items others) : items.Perm others := by
  obtain ⟨arranged, each, perm⟩ := matched
  rw [List.forall₂_eq_eq_eq] at each
  exact each ▸ perm

end Matched

end Matching

namespace Ordered

section Comparing
variable {α β : Type}

def shared (first second : Ordered α) : List (String × α × α) :=
  first.filterMap fun entry => (get? second entry.1).map fun other => (entry.1, entry.2, other)

def without (first second : Ordered α) : Ordered α :=
  first.filter fun entry => !contains second entry.1

variable {first second : Ordered α}

theorem mem_shared (distinct : Distinct first) {name : String} {value other : α} :
    (name, value, other) ∈ shared first second ↔
      get? first name = some value ∧ get? second name = some other := by
  rw [get?_eq_some distinct, shared, List.mem_filterMap]
  constructor
  · rintro ⟨⟨key, present⟩, member, found⟩
    obtain ⟨_, found, same⟩ := Option.map_eq_some_iff.mp found
    cases same
    exact ⟨member, found⟩
  · rintro ⟨member, found⟩
    exact ⟨(name, value), member, by rw [found, Option.map_some]⟩

theorem nodup_shared (distinct : Distinct first) : (shared first second).Nodup := by
  have entries : first.Nodup := List.Nodup.of_map Prod.fst distinct
  refine entries.filterMap ?_
  rintro ⟨name, value⟩ ⟨key, present⟩ triple found foundOther
  obtain ⟨_, -, rfl⟩ := Option.map_eq_some_iff.mp found
  obtain ⟨_, -, same⟩ := Option.map_eq_some_iff.mp foundOther
  cases same
  rfl

-- Either way the same names are shared.
theorem shared_swap (distinct : Distinct first) (distinctSecond : Distinct second) :
    ((shared first second).map fun entry => (entry.1, entry.2.2, entry.2.1)).Perm
      (shared second first) := by
  have injective : Function.Injective fun entry : String × α × α =>
      (entry.1, entry.2.2, entry.2.1) := by
    rintro ⟨name, value, other⟩ ⟨_, _, _⟩ same
    cases same
    rfl
  rw [List.perm_ext_iff_of_nodup ((nodup_shared distinct).map injective)
    (nodup_shared distinctSecond)]
  rintro ⟨name, value, other⟩
  rw [mem_shared distinctSecond, and_comm, ← mem_shared distinct, List.mem_map]
  constructor
  · rintro ⟨⟨_, _, _⟩, member, same⟩
    cases same
    exact member
  · intro member
    exact ⟨_, member, rfl⟩

/-- What a comparison of two maps yields: something for each name that both have, and one item
for each that only one of them has. -/
def comparison (both : String → α → α → List β) (gone new : String → α → β)
    (before after : Ordered α) : List β :=
  (before.flatMap fun entry =>
    (get? after entry.1).elim [gone entry.1 entry.2] (both entry.1 entry.2)) ++
  (without after before).map fun entry => new entry.1 entry.2

variable {both : String → α → α → List β} {gone new : String → α → β}

theorem flatMap_perm (both : String → α → α → List β) (gone : String → α → β)
    (before after : Ordered α) :
    (before.flatMap fun entry =>
      (get? after entry.1).elim [gone entry.1 entry.2] (both entry.1 entry.2)).Perm
    ((shared before after).flatMap (fun entry => both entry.1 entry.2.1 entry.2.2) ++
      (without before after).map fun entry => gone entry.1 entry.2) := by
  induction before with
  | nil => exact .nil
  | cons entry rest ih =>
      rw [List.flatMap_cons]
      cases found : get? after entry.1 with
      | some other =>
          have present : contains after entry.1 = true := Option.isSome_of_eq_some found
          simp only [shared, without, List.filterMap_cons, found, Option.map_some, present,
            List.filter_cons, Bool.not_true, Bool.false_eq_true, if_false, List.flatMap_cons,
            List.append_assoc]
          exact .append_left _ ih
      | none =>
          have absent : contains after entry.1 = false := by rw [contains, found]; rfl
          simp only [shared, without, List.filterMap_cons, found, Option.map_none, absent,
            List.filter_cons, Bool.not_false, if_true, List.map_cons]
          exact (ih.cons _).trans List.perm_middle.symm

-- When the maps change places, what was gone is new and what was new is gone.
theorem comparison_swap {r : β → β → Prop} {before after : Ordered α} (distinct : Distinct before)
    (distinctAfter : Distinct after)
    (shares : ∀ name old new, get? before name = some old → get? after name = some new →
      Matched r (both name old new) (both name new old))
    (loses : ∀ name value, r (gone name value) (new name value))
    (gains : ∀ name value, r (new name value) (gone name value)) :
    Matched r (comparison both gone new before after) (comparison both gone new after before) := by
  have inBoth : Matched r
      ((shared before after).flatMap fun entry => both entry.1 entry.2.1 entry.2.2)
      ((shared after before).flatMap fun entry => both entry.1 entry.2.1 entry.2.2) := by
    refine .of_perm (.flatMap (g := fun entry => both entry.1 entry.2.2 entry.2.1) ?_) (.refl _) ?_
    · rintro ⟨name, old, new⟩ member
      obtain ⟨present, presentAfter⟩ := (mem_shared distinct).mp member
      exact shares name old new present presentAfter
    · have swapped := (shared_swap distinct distinctAfter).flatMap_right
        fun entry => both entry.1 entry.2.1 entry.2.2
      rwa [List.flatMap_map] at swapped
  have onlyBefore : Matched r
      ((without before after).map fun entry => gone entry.1 entry.2)
      ((without before after).map fun entry => new entry.1 entry.2) :=
    .map fun entry _ => loses entry.1 entry.2
  have onlyAfter : Matched r
      ((without after before).map fun entry => new entry.1 entry.2)
      ((without after before).map fun entry => gone entry.1 entry.2) :=
    .map fun entry _ => gains entry.1 entry.2
  refine .of_perm ((inBoth.append onlyBefore).append onlyAfter)
    ((flatMap_perm both gone before after).append_right _) ?_
  rw [List.append_assoc]
  refine (List.Perm.append_left _ List.perm_append_comm).trans ?_
  rw [← List.append_assoc]
  exact (flatMap_perm both gone after before).symm.append_right _

end Comparing

end Ordered

namespace Document

open Definition (childPath)
open Json (Members)

section Changes

/-- The same change, seen from the other side. -/
inductive Change.Mirrors : Change → Change → Prop where
  | enabled (before after : Bool) : Mirrors (.enabled before after) (.enabled after before)
  | added (path : String) (value : Json) : Mirrors (.added path value) (.removed path)
  | removed (path : String) (value : Json) : Mirrors (.removed path) (.added path value)
  | replaced (path : String) (before after : Json) :
      Mirrors (.replaced path before after) (.replaced path after before)

theorem changedObject_eq (path : String) (before after : Members) :
    changedObject path before after = Ordered.comparison
      (fun name => changedValue (path ++ "." ++ name)) (fun name _ => .removed (path ++ "." ++ name))
      (fun name value => .added (path ++ "." ++ name) value) before after := by
  have members (entries : Members) : changedMembers path after entries = entries.flatMap fun entry =>
      (Ordered.get? after entry.1).elim [.removed (path ++ "." ++ entry.1)]
        (changedValue (path ++ "." ++ entry.1) entry.2) := by
    induction entries with
    | nil => rfl
    | cons entry rest ih =>
        rw [changedMembers, List.flatMap_cons, ih]
        cases Ordered.get? after entry.1 <;> rfl
  rw [changedObject, members]
  rfl

-- Values that are not both objects are compared as a whole.
theorem changedValue_eq {before after : Json} (path : String)
    (scalar : before.isObject = false ∨ after.isObject = false) :
    changedValue path before after =
      if before.equivalent after then [] else [.replaced path before after] := by
  cases before <;> cases after <;> simp_all [changedValue, Json.isObject]

theorem equivalent_comm {before after : Json} (proper : before.Proper) (properAfter : after.Proper) :
    before.equivalent after = after.equivalent before := by
  rw [Bool.eq_iff_iff, Json.equivalent_iff_same proper properAfter,
    Json.equivalent_iff_same properAfter proper]
  exact ⟨Json.Same.symm, Json.Same.symm⟩

theorem changedValue_swap_whole {before after : Json} (path : String) (proper : before.Proper)
    (properAfter : after.Proper) (scalar : before.isObject = false ∨ after.isObject = false) :
    Matched Change.Mirrors (changedValue path before after) (changedValue path after before) := by
  rw [changedValue_eq path scalar, changedValue_eq path scalar.symm,
    equivalent_comm properAfter proper]
  split
  · exact .nil
  · exact ⟨_, .cons (.replaced path before after) .nil, .refl _⟩

theorem changedValue_swap (before : Json) : ∀ {after : Json} (path : String), before.Proper →
    after.Proper →
    Matched Change.Mirrors (changedValue path before after) (changedValue path after before) := by
  induction before using Json.induction_parts with
  | scalar before _ noMembers =>
      intro after path proper properAfter
      refine changedValue_swap_whole path proper properAfter (.inl ?_)
      cases before with
      | obj members => exact absurd rfl (noMembers members)
      | null | bool | int | float | str | arr => rfl
  | arr items =>
      intro after path proper properAfter
      exact changedValue_swap_whole path proper properAfter (.inl rfl)
  | obj members ih =>
      intro after path proper properAfter
      cases after with
      | obj others =>
          rw [changedValue, changedValue, ← changedObject, ← changedObject, changedObject_eq,
            changedObject_eq]
          refine Ordered.comparison_swap proper.1 properAfter.1 ?_ (fun name value => .removed _ value)
            fun name value => .added _ value
          intro name old new present presentAfter
          exact ih _ (Ordered.mem_of_get? present) _ (proper.2.get? present)
            (properAfter.2.get? presentAfter)
      | null | bool | int | float | str | arr =>
          exact changedValue_swap_whole path proper properAfter (.inr rfl)

theorem Feature.changes_swap {before after : Feature} (proper : before.ProperMembers)
    (properAfter : after.ProperMembers) :
    Matched Change.Mirrors (before.changes after) (after.changes before) := by
  refine .append ?_ ?_
  · simp only [eq_comm (a := after.enabled)]
    split
    · exact .nil
    · exact ⟨_, .cons (.enabled before.enabled after.enabled) .nil, .refl _⟩
  · have objects := changedValue_swap (.obj before.paramMembers) "params" proper.params
      properAfter.params
    rwa [changedValue, changedValue, ← changedObject, ← changedObject] at objects

end Changes

section Reports

structure Modified.Mirrors (entry other : Modified) : Prop where
  path : entry.path = other.path
  changes : Matched Change.Mirrors entry.changes other.changes

inductive Report.Mirrors : Report → Report → Prop where
  | added (entry : Added) : Mirrors (.added entry) (.removed entry.path)
  | removed (entry : Added) : Mirrors (.removed entry.path) (.added entry)
  | modified {entry other : Modified} (mirrors : entry.Mirrors other) :
      Mirrors (.modified entry) (.modified other)

theorem modification_swap {before after : Feature} (path : String) (proper : before.ProperMembers)
    (properAfter : after.ProperMembers) :
    Matched Report.Mirrors (modification path before after).reports
      (modification path after before).reports := by
  have changes := Feature.changes_swap proper properAfter
  have empty : (after.changes before).isEmpty = (before.changes after).isEmpty := by
    rw [Bool.eq_iff_iff, List.isEmpty_iff_length_eq_zero, List.isEmpty_iff_length_eq_zero,
      changes.length_eq]
  simp only [modification, empty]
  split
  · exact .nil
  · have mirrors : Modified.Mirrors ⟨path, before.changes after⟩ ⟨path, after.changes before⟩ :=
      ⟨rfl, changes⟩
    exact ⟨_, .cons (.modified mirrors) .nil, .refl _⟩

def sharedReports (parent name : String) (old new : Feature) : List Report :=
  (differencesAt (childPath parent name) new old).reports

theorem reports_differencesBetween (parent : String) (before after : Features) :
    (differencesBetween parent before after).reports.Perm (Ordered.comparison (sharedReports parent)
      (fun name _ => .removed (childPath parent name))
      (fun name feature => .added ⟨childPath parent name, feature.enabled⟩) before after) := by
  have under (entries : Features) : (differencesUnder parent after entries).reports.Perm
      (entries.flatMap fun entry => (Ordered.get? after entry.1).elim
        [.removed (childPath parent entry.1)] (sharedReports parent entry.1 entry.2)) := by
    induction entries with
    | nil => exact .nil
    | cons entry rest ih =>
        rw [List.flatMap_cons]
        refine (Difference.reports_append _ _).trans (.append (.of_eq ?_) ih)
        cases Ordered.get? after entry.1 <;> rfl
  have added : Difference.reports ⟨addedFeatures parent before after, [], []⟩ =
      (Ordered.without after before).map fun entry =>
        .added ⟨childPath parent entry.1, entry.2.enabled⟩ := by
    simp [Difference.reports, addedFeatures, Ordered.without]
  refine (Difference.reports_append _ _).trans (List.perm_append_comm.trans ?_)
  rw [added]
  exact (under before).append_right _

-- The induction is on the first document, whose features decide which levels are compared.
theorem differencesBetween_swap (parent : String) {before after : Features}
    (proper : EveryLevel ProperLevel before) (properAfter : EveryLevel ProperLevel after) :
    Matched Report.Mirrors (differencesBetween parent before after).reports
      (differencesBetween parent after before).reports := by
  induction proper generalizing parent after with
  | @level before level under ih =>
      have shares : ∀ name old new, Ordered.get? before name = some old →
          Ordered.get? after name = some new →
          Matched Report.Mirrors (sharedReports parent name old new)
            (sharedReports parent name new old) := by
        intro name old new present presentAfter
        have member := Ordered.mem_of_get? present
        have memberAfter := Ordered.mem_of_get? presentAfter
        have own := modification_swap (childPath parent name) (level.members _ member)
          (properAfter.here.members _ memberAfter)
        have below := ih name old member (childPath parent name) (properAfter.get? presentAfter)
        rw [sharedReports, sharedReports, differencesAt_eq, differencesAt_eq]
        exact (own.append below).of_perm (Difference.reports_append _ _)
          (Difference.reports_append _ _).symm
      refine (Ordered.comparison_swap level.distinct properAfter.here.distinct shares
        (fun name feature => .removed ⟨_, feature.enabled⟩) fun name feature => .added _).of_perm
          (reports_differencesBetween parent before after) ?_
      exact (reports_differencesBetween parent after before).symm

end Reports

section Parts

def Report.addedPath? : Report → Option String
  | .added entry => some entry.path
  | _ => none

def Report.removedPath? : Report → Option String
  | .removed path => some path
  | _ => none

def Report.modified? : Report → Option Modified
  | .modified entry => some entry
  | _ => none

namespace Difference
variable (difference : Difference)

theorem addedPaths_eq :
    difference.added.map Added.path = difference.reports.filterMap Report.addedPath? := by
  simp [reports, List.filterMap_map, Report.addedPath?, Function.comp_def]

theorem removed_eq : difference.removed = difference.reports.filterMap Report.removedPath? := by
  simp [reports, List.filterMap_map, Report.removedPath?, Function.comp_def]

theorem modified_eq : difference.modified = difference.reports.filterMap Report.modified? := by
  simp [reports, List.filterMap_map, Report.modified?, Function.comp_def]

end Difference

namespace Report.Mirrors
variable {report other : Report} (mirrors : report.Mirrors other)
include mirrors

theorem addedPath? : Option.Rel Eq report.addedPath? other.removedPath? := by
  cases mirrors with
  | added entry => exact .some rfl
  | removed | modified => exact .none

theorem removedPath? : Option.Rel Eq report.removedPath? other.addedPath? := by
  cases mirrors with
  | removed entry => exact .some rfl
  | added | modified => exact .none

theorem modified? : Option.Rel Modified.Mirrors report.modified? other.modified? := by
  cases mirrors with
  | modified mirrors => exact .some mirrors
  | added | removed => exact .none

end Report.Mirrors

end Parts

/-- When two documents change places, what was added is removed and what was removed is added, and
the same features are modified. The changes of each of them correspond one to one: a flag or a value
that was replaced is replaced the other way, and a parameter that was added is removed. -/
theorem difference_swap {before after : Document} (proper : before.Proper)
    (properAfter : after.Proper) :
    ((difference before after).added.map Added.path).Perm (difference after before).removed ∧
    (difference before after).removed.Perm ((difference after before).added.map Added.path) ∧
    Matched Modified.Mirrors (difference before after).modified (difference after before).modified := by
  have reports := differencesBetween_swap (wayPath []) proper properAfter
  rw [← difference_eq, ← difference_eq] at reports
  simp only [Difference.addedPaths_eq, Difference.removed_eq, Difference.modified_eq]
  exact ⟨(reports.filterMap fun _ _ => Report.Mirrors.addedPath?).perm,
    (reports.filterMap fun _ _ => Report.Mirrors.removedPath?).perm,
    reports.filterMap fun _ _ => Report.Mirrors.modified?⟩

def sampleEarlier : Document :=
  ⟨none, "v1", none, [
    ("search", ⟨true, some [("limit", .int 1), ("mode", .str "fast")],
      some [("ranking", ⟨true, none, none, []⟩)], []⟩),
    ("export", ⟨false, none, none, []⟩)]⟩

def sampleLater : Document :=
  ⟨none, "v2", none, [
    ("search", ⟨false, some [("depth", .null), ("limit", .int 2)],
      some [("synonyms", ⟨false, none, none, []⟩)], []⟩)]⟩

/-- Each of the four changes to a feature has its counterpart. -/
theorem difference_swap_sample : sampleEarlier.Proper ∧ sampleLater.Proper ∧
    (difference sampleEarlier sampleLater).removed = ["search.ranking", "export"] ∧
    ["search.ranking", "export"].Perm ((difference sampleLater sampleEarlier).added.map Added.path) ∧
    (difference sampleLater sampleEarlier).modified.map (·.changes.map Change.line) =
      [["enabled: false → true", "params.depth: removed", "params.limit: 2 → 1",
        "params.mode: added (\"fast\")"]] ∧
    Matched Modified.Mirrors (difference sampleEarlier sampleLater).modified
      (difference sampleLater sampleEarlier).modified := by
  have proper : sampleEarlier.Proper := by decide
  have properLater : sampleLater.Proper := by decide
  obtain ⟨-, removed, modified⟩ := difference_swap proper properLater
  exact ⟨proper, properLater, by decide, removed, by decide +kernel, modified⟩

end Document

end Toggles
