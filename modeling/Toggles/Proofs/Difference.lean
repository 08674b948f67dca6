import Toggles.Document.Difference
import Toggles.Proofs.Document
import Toggles.Proofs.Path

/-! What a difference reports, in terms of the questions that documents answer.

Two documents are compared level by level: two levels meet when the same way leads
to both. Everything that is reported is reported where levels meet, so the paths in
a difference are read off the two documents without following the comparison.
-/

set_option autoImplicit false

namespace Toggles.Document

open Definition (childPath)
open Json (Members equivalentMembers)

section Parameters

theorem addedMembers_eq_nil {path : String} {before after : Members} :
    addedMembers path before after = [] ↔
      ∀ name ∈ Ordered.keys after, name ∈ Ordered.keys before := by
  simp only [addedMembers, List.map_eq_nil_iff, List.filter_eq_nil_iff, Bool.not_eq_true',
    Bool.not_eq_false, Ordered.contains_iff]
  exact ⟨fun all name member => by
    obtain ⟨value, member⟩ := Ordered.mem_keys.mp member
    exact all (name, value) member, fun all entry member => all entry.1 (List.mem_map_of_mem member)⟩

mutual

theorem changedValue_eq_nil : (before : Json) → {after : Json} → {path : String} →
    before.Proper → after.Proper →
    (changedValue path before after = [] ↔ before.equivalent after = true)
  | .obj before, .obj after, path, proper, properAfter => by
      rw [changedValue, List.append_eq_nil_iff, addedMembers_eq_nil,
        changedMembers_eq_nil before proper.2 properAfter.2,
        Json.equivalent_obj proper.1 properAfter.1]
  | .obj _, .null, _, _, _ | .obj _, .bool _, _, _, _ | .obj _, .int _, _, _, _
  | .obj _, .float _, _, _, _ | .obj _, .str _, _, _, _ | .obj _, .arr _, _, _, _
  | .null, _, _, _, _ | .bool _, _, _, _, _ | .int _, _, _, _, _ | .float _, _, _, _, _
  | .str _, _, _, _, _ | .arr _, _, _, _, _ => by
      simp [changedValue]

theorem changedMembers_eq_nil : (before : List (String × Json)) → {after : Members} →
    {path : String} → Json.ProperMembers before → Json.ProperMembers after →
    (changedMembers path after before = [] ↔ equivalentMembers before after = true)
  | [], _, _, _, _ => by simp [changedMembers, equivalentMembers]
  | (name, value) :: rest, after, path, proper, properAfter => by
      rw [changedMembers, List.append_eq_nil_iff, equivalentMembers, Bool.and_eq_true,
        changedMembers_eq_nil rest proper.2 properAfter]
      refine and_congr_left fun _ => ?_
      cases found : Ordered.get? after name with
      | none => simp
      | some other => exact changedValue_eq_nil value proper.1 (properAfter.get? found)

end

-- Nothing is reported of equal parameters, and something of others.
theorem changedObject_eq_nil {path : String} {before after : Members}
    (proper : (Json.obj before).Proper) (properAfter : (Json.obj after).Proper) :
    changedObject path before after = [] ↔
      (Json.obj before).equivalent (.obj after) = true := by
  rw [← changedValue_eq_nil (.obj before) proper properAfter, changedValue, changedObject]

theorem Feature.changes_eq_nil {before after : Feature} (proper : before.ProperMembers)
    (properAfter : after.ProperMembers) :
    before.changes after = [] ↔ before.enabled = after.enabled ∧
      (Json.obj before.paramMembers).equivalent (.obj after.paramMembers) = true := by
  rw [changes, List.append_eq_nil_iff, changedObject_eq_nil proper.params properAfter.params]
  simp

end Parameters

section Reports

inductive Report where
  | added (entry : Added)
  | removed (path : String)
  | modified (entry : Modified)

def Report.path : Report → String
  | .added entry => entry.path
  | .removed path => path
  | .modified entry => entry.path

namespace Difference

def reports (difference : Difference) : List Report :=
  difference.added.map .added ++ difference.removed.map .removed ++
    difference.modified.map .modified

@[simp] theorem reports_none : Difference.none.reports = [] := rfl

@[simp] theorem added_mem_reports {difference : Difference} {entry : Added} :
    .added entry ∈ difference.reports ↔ entry ∈ difference.added := by
  simp [reports]

@[simp] theorem removed_mem_reports {difference : Difference} {path : String} :
    .removed path ∈ difference.reports ↔ path ∈ difference.removed := by
  simp [reports]

@[simp] theorem modified_mem_reports {difference : Difference} {entry : Modified} :
    .modified entry ∈ difference.reports ↔ entry ∈ difference.modified := by
  simp [reports]

theorem reports_append (first second : Difference) :
    (first ++ second).reports.Perm (first.reports ++ second.reports) := by
  show (reports ⟨first.added ++ second.added, first.removed ++ second.removed,
    first.modified ++ second.modified⟩).Perm _
  simp only [reports, List.map_append, List.append_assoc]
  refine .append_left _ ((List.perm_append_comm_assoc _ _ _).trans (.append_left _ ?_))
  exact (List.Perm.append_left _ (List.perm_append_comm_assoc _ _ _)).trans
    (List.perm_append_comm_assoc _ _ _)

@[simp] theorem mem_reports_append {first second : Difference} {report : Report} :
    report ∈ (first ++ second).reports ↔ report ∈ first.reports ∨ report ∈ second.reports := by
  rw [(reports_append first second).mem_iff, List.mem_append]

theorem append_none (difference : Difference) : difference ++ Difference.none = difference := by
  show Difference.append _ _ = _
  simp [append, Difference.none]

theorem append_assoc (first second third : Difference) :
    first ++ second ++ third = first ++ (second ++ third) := by
  show Difference.append (Difference.append _ _) _ = Difference.append _ (Difference.append _ _)
  simp [append]

end Difference

end Reports

section Meeting

def differencesBetween (parent : String) (before after : Features) : Difference :=
  ⟨addedFeatures parent before after, [], []⟩ ++ differencesUnder parent after before

-- Documents are compared as two levels at the top.
theorem difference_eq (before after : Document) :
    difference before after = differencesBetween (wayPath []) before.features after.features := rfl

theorem differencesAt_eq (path : String) (before after : Feature) :
    differencesAt path after before =
      modification path before after ++
        differencesBetween path before.childFeatures after.childFeatures := by
  obtain ⟨enabled, params, children, extra⟩ := before
  cases children with
  | none =>
      rw [differencesAt, differencesBetween]
      simp [Feature.childFeatures, differencesUnder, Difference.append_none]
  | some children =>
      rw [differencesAt, differencesBetween, Difference.append_assoc]
      rfl

/-- What is reported of two levels that meet at a path, apart from what is under them. -/
inductive ReportedAt (path : String) (before after : Features) : Report → Prop where
  | added {name : String} {feature : Feature} (present : Ordered.get? after name = some feature)
      (absent : Ordered.get? before name = none) :
      ReportedAt path before after (.added ⟨childPath path name, feature.enabled⟩)
  | removed {name : String} {feature : Feature} (present : Ordered.get? before name = some feature)
      (absent : Ordered.get? after name = none) :
      ReportedAt path before after (.removed (childPath path name))
  | modified {name : String} {old new : Feature} (present : Ordered.get? before name = some old)
      (presentAfter : Ordered.get? after name = some new) (changed : old.changes new ≠ []) :
      ReportedAt path before after (.modified ⟨childPath path name, old.changes new⟩)

/-- The same way leads from two levels to two lower ones. -/
inductive Meet : Features → Features → List String → Features → Features → Prop where
  | here {before after : Features} : Meet before after [] before after
  | under {before after lower lowerAfter : Features} {name : String} {old new : Feature}
      {way : List String} (present : Ordered.get? before name = some old)
      (presentAfter : Ordered.get? after name = some new)
      (below : Meet old.childFeatures new.childFeatures way lower lowerAfter) :
      Meet before after (name :: way) lower lowerAfter

theorem mem_addedFeatures {parent : String} {before after : Features} {entry : Added}
    (distinct : Ordered.Distinct after) :
    entry ∈ addedFeatures parent before after ↔ ∃ name feature,
      Ordered.get? after name = some feature ∧ Ordered.get? before name = none ∧
        entry = ⟨childPath parent name, feature.enabled⟩ := by
  simp only [addedFeatures, List.mem_map, List.mem_filter, Prod.exists,
    Ordered.get?_eq_some distinct, Ordered.get?_eq_none, Bool.not_eq_true', ← Bool.not_eq_true,
    Ordered.contains_iff, and_assoc, eq_comm (a := entry)]

theorem mem_modification {path : String} {before after : Feature} {report : Report} :
    report ∈ (modification path before after).reports ↔
      before.changes after ≠ [] ∧ report = .modified ⟨path, before.changes after⟩ := by
  simp only [modification]
  split
  · next same => simp [List.isEmpty_iff.mp same]
  · next changed => simpa [Difference.reports, List.isEmpty_iff] using fun _ => changed

def differencesFor (parent : String) (after : Features) (name : String) (old : Feature) :
    Difference :=
  match Ordered.get? after name with
  | some new => differencesAt (childPath parent name) new old
  | none => ⟨[], [childPath parent name], []⟩

theorem differencesUnder_cons (parent : String) (after : Features) (name : String) (old : Feature)
    (rest : List (String × Feature)) :
    differencesUnder parent after ((name, old) :: rest) =
      differencesFor parent after name old ++ differencesUnder parent after rest := rfl

theorem mem_differencesUnder {parent : String} {before after : Features} {report : Report} :
    report ∈ (differencesUnder parent after before).reports ↔ ∃ entry ∈ before,
      report ∈ (differencesFor parent after entry.1 entry.2).reports := by
  induction before with
  | nil => simp [differencesUnder]
  | cons entry rest ih =>
      obtain ⟨name, old⟩ := entry
      rw [differencesUnder_cons, Difference.mem_reports_append, ih, List.exists_mem_cons_iff]

-- One step of the comparison: the level itself, and the levels under features that
-- both have.
theorem mem_differencesBetween {parent : String} {before after : Features} {report : Report}
    (distinct : Ordered.Distinct before) (distinctAfter : Ordered.Distinct after) :
    report ∈ (differencesBetween parent before after).reports ↔
      ReportedAt parent before after report ∨ ∃ name old new,
        Ordered.get? before name = some old ∧ Ordered.get? after name = some new ∧
          report ∈ (differencesBetween (childPath parent name) old.childFeatures
            new.childFeatures).reports := by
  rw [differencesBetween, Difference.mem_reports_append, mem_differencesUnder]
  constructor
  · rintro (own | ⟨⟨name, old⟩, member, reported⟩)
    · obtain ⟨entry, member, rfl⟩ : ∃ entry ∈ addedFeatures parent before after,
          Report.added entry = report := by simpa [Difference.reports] using own
      obtain ⟨name, feature, present, absent, rfl⟩ := (mem_addedFeatures distinctAfter).mp member
      exact .inl (.added present absent)
    · have present := Ordered.get?_of_mem distinct member
      cases found : Ordered.get? after name with
      | none =>
          have same : report = .removed (childPath parent name) := by
            simpa [differencesFor, found, Difference.reports] using reported
          exact .inl (same ▸ .removed present found)
      | some new =>
          simp only [differencesFor, found, differencesAt_eq, Difference.mem_reports_append,
            mem_modification] at reported
          rcases reported with ⟨changed, rfl⟩ | below
          · exact .inl (.modified present found changed)
          · exact .inr ⟨name, old, new, present, found, below⟩
  · rintro (own | ⟨name, old, new, present, found, below⟩)
    · cases own with
      | added present absent =>
          refine .inl (Difference.added_mem_reports.mpr ?_)
          exact (mem_addedFeatures distinctAfter).mpr ⟨_, _, present, absent, rfl⟩
      | removed present absent =>
          exact .inr ⟨_, Ordered.mem_of_get? present, by
            simp [differencesFor, absent, Difference.reports]⟩
      | modified present presentAfter changed =>
          refine .inr ⟨_, Ordered.mem_of_get? present, ?_⟩
          simp only [differencesFor, presentAfter, differencesAt_eq, Difference.mem_reports_append]
          exact .inl (mem_modification.mpr ⟨changed, rfl⟩)
    · refine .inr ⟨_, Ordered.mem_of_get? present, ?_⟩
      simp only [differencesFor, found, differencesAt_eq, Difference.mem_reports_append]
      exact .inr below

-- The whole comparison reports what is reported where levels meet.
theorem mem_differencesBetween_iff {parent : String} {before after : Features} {report : Report}
    (proper : EveryLevel ProperLevel before) (properAfter : EveryLevel ProperLevel after) :
    report ∈ (differencesBetween parent before after).reports ↔ ∃ way lower lowerAfter,
      Meet before after way lower lowerAfter ∧
        ReportedAt (way.foldl childPath parent) lower lowerAfter report := by
  induction proper generalizing parent after with
  | @level before level under ih =>
      rw [mem_differencesBetween level.distinct properAfter.here.distinct]
      constructor
      · rintro (own | ⟨name, old, new, present, found, below⟩)
        · exact ⟨[], before, after, .here, own⟩
        · have member := Ordered.mem_of_get? present
          obtain ⟨way, lower, lowerAfter, meet, reported⟩ :=
            (ih name old member (properAfter.get? found)).mp below
          exact ⟨name :: way, lower, lowerAfter, .under present found meet, reported⟩
      · rintro ⟨way, lower, lowerAfter, meet, reported⟩
        cases meet with
        | here => exact .inl reported
        | @under _ _ _ _ name old new way present found meet =>
            have member := Ordered.mem_of_get? present
            exact .inr ⟨name, old, new, present, found,
              (ih name old member (properAfter.get? found)).mpr ⟨way, _, _, meet, reported⟩⟩

end Meeting

section Ways
variable {before after lower lowerAfter : Features} {way : List String}

theorem Meet.symm (meet : Meet before after way lower lowerAfter) :
    Meet after before way lowerAfter lower := by
  induction meet with
  | here => exact .here
  | under present presentAfter below ih => exact .under presentAfter present ih

-- From where levels meet, a name leads on as it does on the lower level.
theorem Meet.follow? (meet : Meet before after way lower lowerAfter) (name : String) :
    follow? before (way ++ [name]) = Ordered.get? lower name := by
  induction meet with
  | here => rfl
  | under present presentAfter below ih =>
      rw [List.cons_append, follow?_cons _ _ (by simp), present, Option.bind_some, ih]

theorem Meet.reached (meet : Meet before after way lower lowerAfter) :
    way = [] ∨ (Document.follow? before way).isSome = true := by
  induction meet with
  | here => exact .inl rfl
  | @under _ _ _ _ name old new way present presentAfter below ih =>
      by_cases bottom : way = []
      · subst bottom
        exact .inr (by simp [Document.follow?, present])
      · rw [follow?_cons _ _ bottom, present, Option.bind_some]
        exact .inr (ih.resolve_left bottom)

-- Levels meet along every way that both have.
theorem exists_meet (reached : way = [] ∨
    (follow? before way).isSome = true ∧ (follow? after way).isSome = true) :
    ∃ lower lowerAfter, Meet before after way lower lowerAfter := by
  induction way generalizing before after with
  | nil => exact ⟨before, after, .here⟩
  | cons name rest ih =>
      obtain ⟨first, second⟩ := reached.resolve_left (List.cons_ne_nil name rest)
      by_cases bottom : rest = []
      · subst bottom
        obtain ⟨old, present⟩ := Option.isSome_iff_exists.mp first
        obtain ⟨new, presentAfter⟩ := Option.isSome_iff_exists.mp second
        exact ⟨_, _, .under present presentAfter .here⟩
      · rw [follow?_cons _ _ bottom] at first second
        obtain ⟨feature, first⟩ := Option.isSome_iff_exists.mp first
        obtain ⟨old, present, first⟩ := Option.bind_eq_some_iff.mp first
        obtain ⟨featureAfter, second⟩ := Option.isSome_iff_exists.mp second
        obtain ⟨new, presentAfter, second⟩ := Option.bind_eq_some_iff.mp second
        have below : (follow? old.childFeatures rest).isSome = true ∧
            (follow? new.childFeatures rest).isSome = true := by simp [first, second]
        obtain ⟨lower, lowerAfter, meet⟩ := ih (.inr below)
        exact ⟨lower, lowerAfter, .under present presentAfter meet⟩

-- The feature before the last one on a way.
theorem reached_of_follow?_snoc {feature : Feature} {name : String}
    (found : follow? before (way ++ [name]) = some feature) :
    way = [] ∨ (follow? before way).isSome = true := by
  rw [follow?_snoc] at found
  split at found
  · next top => exact .inl top
  · obtain ⟨parent, present, -⟩ := Option.bind_eq_some_iff.mp found
    exact .inr (by simp [present])

end Ways

section PlainNames

def PlainLevel (features : Features) : Prop :=
  ∀ name ∈ Ordered.keys features, PlainName name

/-- Every name of a feature can stand in a path. -/
def Plain (document : Document) : Prop :=
  EveryLevel PlainLevel document.features

instance : DecidablePred PlainLevel := fun features =>
  inferInstanceAs (Decidable (∀ name ∈ Ordered.keys features, PlainName name))

instance (document : Document) : Decidable document.Plain :=
  inferInstanceAs (Decidable (EveryLevel PlainLevel document.features))

theorem PlainLevel.get? {features : Features} (plain : PlainLevel features) {name : String}
    {feature : Feature} (found : Ordered.get? features name = some feature) : PlainName name :=
  plain name (Ordered.isSome_get?.mp (by simp [found]))

theorem plainNames_of_follow? {features : Features} {way : List String} {feature : Feature}
    (plain : EveryLevel PlainLevel features) (found : follow? features way = some feature) :
    ∀ name ∈ way, PlainName name := by
  induction way generalizing features with
  | nil => simp
  | cons name rest ih =>
      by_cases bottom : rest = []
      · subst bottom
        simpa using plain.here.get? found
      · rw [follow?_cons _ _ bottom] at found
        obtain ⟨next, present, found⟩ := Option.bind_eq_some_iff.mp found
        exact List.forall_mem_cons.mpr ⟨plain.here.get? present, ih (plain.get? present) found⟩

theorem plainNames_snoc {above : List String} {name : String}
    (plainAbove : ∀ other ∈ above, PlainName other) (plain : PlainName name) :
    ∀ other ∈ above ++ [name], PlainName other := by
  simpa [or_imp, forall_and] using ⟨plainAbove, plain⟩

/-- A path with its way down: the path that a difference builds along the way is the
one whose names are the way. -/
structure Leads (path : String) (way : List String) (name : String) : Prop where
  path_eq : path = wayPath (way ++ [name])
  names_eq : pathNames path = way ++ [name]
  plain : ∀ other ∈ way ++ [name], PlainName other

theorem Leads.of_wayPath {way : List String} {name : String}
    (plain : ∀ other ∈ way ++ [name], PlainName other) :
    Leads (wayPath (way ++ [name])) way name :=
  ⟨rfl, pathNames_wayPath (by simp) plain, plain⟩

theorem exists_leads {path : String} (plain : ∀ name ∈ pathNames path, PlainName name) :
    ∃ way name, Leads path way name := by
  rcases List.eq_nil_or_concat (pathNames path) with none | ⟨way, name, names⟩
  · exact absurd none (pathNames_ne_nil path)
  · rw [List.concat_eq_append] at names
    refine ⟨way, name, ?_, names, names ▸ plain⟩
    rw [← names, wayPath_pathNames plain]

end PlainNames

/-- The feature above a path exists, unless the path is one of the top level. -/
def HasParent (document : Document) (path : String) : Prop :=
  ∀ parent name, '.' ∉ name.toList → path = parent ++ "." ++ name →
    document.hasFeature parent = true

theorem Leads.hasParent_iff {document : Document} {path name : String} {way : List String}
    (leads : Leads path way name) :
    document.HasParent path ↔
      way = [] ∨ (follow? document.features way).isSome = true := by
  constructor
  · intro parents
    by_cases top : way = []
    · exact .inl top
    · have plain : ∀ other ∈ way, PlainName other :=
        fun other member => leads.plain other (List.mem_append_left _ member)
      have dotless : '.' ∉ name.toList := (leads.plain name (by simp)).2
      have written : path = wayPath way ++ "." ++ name := by
        rw [leads.path_eq, wayPath_snoc, childPath, if_neg]
        simpa using wayPath_ne_empty top plain
      have found := parents _ _ dotless written
      rw [hasFeature, feature?, pathNames_wayPath top plain] at found
      exact .inr found
  · intro reached parent last dotless written
    have names := leads.names_eq
    rw [written, pathNames_dot dotless] at names
    obtain ⟨same, -⟩ := List.append_inj' names rfl
    have nonempty : way ≠ [] := same ▸ pathNames_ne_nil parent
    rw [hasFeature, feature?, same]
    exact reached.resolve_left nonempty

section Exactness
variable {before after : Document} {path : String}

theorem hasFeature_iff {document : Document} :
    document.hasFeature path = true ↔ ∃ feature, document.feature? path = some feature :=
  Option.isSome_iff_exists

theorem hasFeature_eq_false {document : Document} :
    document.hasFeature path = false ↔ document.feature? path = none := by
  simp [hasFeature]

theorem isEnabled_of_feature? {document : Document} {feature : Feature}
    (found : document.feature? path = some feature) : document.isEnabled path = feature.enabled := by
  simp [isEnabled, found]

theorem Leads.feature? {document : Document} {name : String} {way : List String}
    (leads : Leads path way name) :
    document.feature? path = follow? document.features (way ++ [name]) := by
  rw [Document.feature?, leads.names_eq]

theorem exists_leads_of_feature? {feature : Feature} (plain : before.Plain)
    (found : before.feature? path = some feature) : ∃ way name, Leads path way name :=
  exists_leads (plainNames_of_follow? plain found)

theorem Leads.of_follow? {features : Features} {way : List String} {name : String}
    {feature : Feature} (plain : EveryLevel PlainLevel features)
    (found : follow? features (way ++ [name]) = some feature) :
    Leads (childPath (way.foldl childPath "") name) way name := by
  have written := wayPath_snoc way name
  rw [wayPath] at written
  exact written ▸ .of_wayPath (plainNames_of_follow? plain found)

theorem Leads.exists_meet {name : String} {way : List String} (leads : Leads path way name)
    (parent : before.HasParent path) (parentAfter : after.HasParent path) :
    ∃ lower lowerAfter, Meet before.features after.features way lower lowerAfter := by
  refine Document.exists_meet ?_
  rcases leads.hasParent_iff.mp parent with top | reached
  · exact .inl top
  · exact (leads.hasParent_iff.mp parentAfter).imp id fun reachedAfter => ⟨reached, reachedAfter⟩

theorem Leads.hasParent_of_feature? {feature : Feature} {name : String} {way : List String}
    (leads : Leads path way name) (found : before.feature? path = some feature) :
    before.HasParent path :=
  leads.hasParent_iff.mpr (reached_of_follow?_snoc (leads.feature? ▸ found))

theorem Leads.path_eq_foldl {name : String} {way : List String} (leads : Leads path way name) :
    path = childPath (way.foldl childPath "") name :=
  leads.path_eq.trans (wayPath_snoc way name)

theorem Leads.get? {name : String} {way : List String} {lower lowerAfter : Features}
    (leads : Leads path way name)
    (meet : Meet before.features after.features way lower lowerAfter) :
    Ordered.get? lower name = before.feature? path :=
  (leads.feature?.trans (meet.follow? name)).symm

-- An added feature is one that only the second document has, under a feature that
-- both have.
theorem mem_added_iff (proper : before.Proper) (properAfter : after.Proper)
    (plainAfter : after.Plain) {enabled : Bool} :
    ⟨path, enabled⟩ ∈ (difference before after).added ↔
      after.hasFeature path = true ∧ before.hasFeature path = false ∧ before.HasParent path ∧
        enabled = after.isEnabled path := by
  rw [← Difference.added_mem_reports]
  refine (mem_differencesBetween_iff proper properAfter).trans ⟨?_, ?_⟩
  · rintro ⟨way, lower, lowerAfter, meet, reported⟩
    cases reported with
    | @added name feature present absent =>
        have leads := Leads.of_follow? plainAfter ((meet.symm.follow? name).trans present)
        have found := (leads.get? meet.symm).symm.trans present
        have missing := (leads.get? meet).symm.trans absent
        exact ⟨hasFeature_iff.mpr ⟨feature, found⟩, hasFeature_eq_false.mpr missing,
          leads.hasParent_iff.mpr meet.reached, (isEnabled_of_feature? found).symm⟩
  · rintro ⟨has, missing, parent, rfl⟩
    obtain ⟨feature, found⟩ := hasFeature_iff.mp has
    obtain ⟨way, name, leads⟩ := exists_leads_of_feature? plainAfter found
    obtain ⟨lower, lowerAfter, meet⟩ := leads.exists_meet parent (leads.hasParent_of_feature? found)
    refine ⟨way, lower, lowerAfter, meet, ?_⟩
    rw [isEnabled_of_feature? found, leads.path_eq_foldl]
    exact .added ((leads.get? meet.symm).trans found)
      ((leads.get? meet).trans (hasFeature_eq_false.mp missing))

-- A removed feature is one that only the first document has, under a feature that
-- both have.
theorem mem_removed_iff (proper : before.Proper) (properAfter : after.Proper)
    (plain : before.Plain) :
    path ∈ (difference before after).removed ↔
      before.hasFeature path = true ∧ after.hasFeature path = false ∧ after.HasParent path := by
  rw [← Difference.removed_mem_reports]
  refine (mem_differencesBetween_iff proper properAfter).trans ⟨?_, ?_⟩
  · rintro ⟨way, lower, lowerAfter, meet, reported⟩
    cases reported with
    | @removed name feature present absent =>
        have leads := Leads.of_follow? plain ((meet.follow? name).trans present)
        have found := (leads.get? meet).symm.trans present
        have missing := (leads.get? meet.symm).symm.trans absent
        exact ⟨hasFeature_iff.mpr ⟨feature, found⟩, hasFeature_eq_false.mpr missing,
          leads.hasParent_iff.mpr meet.symm.reached⟩
  · rintro ⟨has, missing, parent⟩
    obtain ⟨feature, found⟩ := hasFeature_iff.mp has
    obtain ⟨way, name, leads⟩ := exists_leads_of_feature? plain found
    obtain ⟨lower, lowerAfter, meet⟩ := leads.exists_meet (leads.hasParent_of_feature? found) parent
    refine ⟨way, lower, lowerAfter, meet, ?_⟩
    rw [leads.path_eq_foldl]
    exact .removed ((leads.get? meet).trans found)
      ((leads.get? meet.symm).trans (hasFeature_eq_false.mp missing))

-- A modified feature is one that both documents have and that changed itself.
theorem mem_modified_iff (proper : before.Proper) (properAfter : after.Proper)
    (plain : before.Plain) {entry : Modified} :
    entry ∈ (difference before after).modified ↔ ∃ old new,
      before.feature? entry.path = some old ∧ after.feature? entry.path = some new ∧
        old.changes new ≠ [] ∧ entry.changes = old.changes new := by
  rw [← Difference.modified_mem_reports]
  refine (mem_differencesBetween_iff proper properAfter).trans ⟨?_, ?_⟩
  · rintro ⟨way, lower, lowerAfter, meet, reported⟩
    cases reported with
    | @modified name old new present presentAfter changed =>
        have leads := Leads.of_follow? plain ((meet.follow? name).trans present)
        exact ⟨old, new, (leads.get? meet).symm.trans present,
          (leads.get? meet.symm).symm.trans presentAfter, changed, rfl⟩
  · obtain ⟨path, changes⟩ := entry
    rintro ⟨old, new, found, foundAfter, changed, same⟩
    simp only at found foundAfter same
    obtain ⟨way, name, leads⟩ := exists_leads_of_feature? plain found
    obtain ⟨lower, lowerAfter, meet⟩ := leads.exists_meet (leads.hasParent_of_feature? found)
      (leads.hasParent_of_feature? foundAfter)
    refine ⟨way, lower, lowerAfter, meet, ?_⟩
    rw [same, leads.path_eq_foldl]
    exact .modified ((leads.get? meet).trans found) ((leads.get? meet.symm).trans foundAfter) changed

end Exactness

section Uniqueness

/-- Levels on which nothing is repeated, under names that can stand in paths. -/
structure Sound (features : Features) : Prop where
  proper : EveryLevel ProperLevel features
  plain : EveryLevel PlainLevel features

variable {above : List String} {before after : Features} {report : Report}

theorem Sound.get? (sound : Sound before) {name : String} {feature : Feature}
    (found : Ordered.get? before name = some feature) : Sound feature.childFeatures :=
  ⟨sound.proper.get? found, sound.plain.get? found⟩

theorem foldl_childPath_wayPath (above way : List String) :
    way.foldl childPath (wayPath above) = wayPath (above ++ way) := by
  simp [wayPath]

-- The paths reported under a path have its names and at least one more.
theorem names_of_mem_between (plainAbove : ∀ name ∈ above, PlainName name) (sound : Sound before)
    (soundAfter : Sound after)
    (reported : report ∈ (differencesBetween (wayPath above) before after).reports) :
    ∃ name rest, pathNames report.path = above ++ name :: rest := by
  obtain ⟨way, lower, lowerAfter, meet, reported⟩ :=
    (mem_differencesBetween_iff sound.proper soundAfter.proper).mp reported
  have names (name : String) (plainWay : ∀ other ∈ way ++ [name], PlainName other) :
      ∃ first rest, pathNames (childPath (way.foldl childPath (wayPath above)) name) =
        above ++ first :: rest := by
    have plainNames : ∀ other ∈ above ++ (way ++ [name]), PlainName other := fun other member =>
      (List.mem_append.mp member).elim (plainAbove other) (plainWay other)
    obtain ⟨first, rest, same⟩ := List.exists_cons_of_ne_nil (List.append_ne_nil_of_right_ne_nil way
      (List.cons_ne_nil name []))
    rw [foldl_childPath_wayPath, ← wayPath_snoc, List.append_assoc,
      pathNames_wayPath (by simp) plainNames, same]
    exact ⟨first, rest, rfl⟩
  cases reported with
  | @added name feature present absent =>
      have found := (meet.symm.follow? name).trans present
      exact names name (plainNames_of_follow? soundAfter.plain found)
  | @removed name feature present absent =>
      exact names name (plainNames_of_follow? sound.plain ((meet.follow? name).trans present))
  | @modified name old new present presentAfter changed =>
      exact names name (plainNames_of_follow? sound.plain ((meet.follow? name).trans present))

-- The paths reported at and under a feature begin with its path.
theorem names_of_mem_at {name : String} {old new : Feature}
    (plainAt : ∀ other ∈ above ++ [name], PlainName other) (sound : Sound old.childFeatures)
    (soundAfter : Sound new.childFeatures)
    (reported : report ∈ (differencesAt (wayPath (above ++ [name])) new old).reports) :
    ∃ rest, pathNames report.path = above ++ name :: rest := by
  rw [differencesAt_eq, Difference.mem_reports_append, mem_modification] at reported
  rcases reported with ⟨-, rfl⟩ | below
  · exact ⟨[], pathNames_wayPath (by simp) plainAt⟩
  · obtain ⟨first, rest, names⟩ := names_of_mem_between plainAt sound soundAfter below
    exact ⟨first :: rest, by simpa using names⟩

namespace Difference

def NoRepeats (difference : Difference) : Prop :=
  (difference.reports.map Report.path).Nodup

theorem NoRepeats.append {first second : Difference} (noRepeats : first.NoRepeats)
    (noRepeatsAfter : second.NoRepeats)
    (apart : ∀ report ∈ first.reports, ∀ other ∈ second.reports, report.path ≠ other.path) :
    (first ++ second).NoRepeats := by
  refine ((reports_append first second).map Report.path).nodup_iff.mpr ?_
  rw [List.map_append, List.nodup_append]
  refine ⟨noRepeats, noRepeatsAfter, ?_⟩
  simpa only [List.forall_mem_map] using apart

end Difference

theorem addedFeatures_noRepeats (plainAbove : ∀ name ∈ above, PlainName name)
    (soundAfter : Sound after) :
    Difference.NoRepeats ⟨addedFeatures (wayPath above) before after, [], []⟩ := by
  have distinct : after.Pairwise fun first second => first.1 ≠ second.1 :=
    List.pairwise_map.mp soundAfter.proper.here.distinct
  have names {entry : String × Feature} (member : entry ∈ after) :
      pathNames (childPath (wayPath above) entry.1) = above ++ [entry.1] :=
    pathNames_childPath plainAbove (soundAfter.plain.here _ (List.mem_map_of_mem member))
  simp only [Difference.NoRepeats, Difference.reports, addedFeatures, List.map_nil, List.append_nil,
    List.map_map]
  refine List.pairwise_map.mpr ((distinct.filter _).imp_of_mem ?_)
  intro first second member memberSecond different same
  have paths := congrArg pathNames same
  simp only [Function.comp_apply, Report.path, names (List.mem_of_mem_filter member),
    names (List.mem_of_mem_filter memberSecond)] at paths
  exact different (by simpa using paths)

theorem modification_noRepeats {path : String} {old new : Feature} :
    (modification path old new).NoRepeats := by
  unfold modification
  simp only
  split
  · exact List.nodup_nil
  · simp [Difference.NoRepeats, Difference.reports]

-- The paths reported for a feature of the first level begin with its path.
theorem names_of_mem_for {name : String} {old : Feature}
    (plainAt : ∀ other ∈ above ++ [name], PlainName other) (sound : Sound old.childFeatures)
    (soundAfter : Sound after)
    (reported : report ∈ (differencesFor (wayPath above) after name old).reports) :
    ∃ rest, pathNames report.path = above ++ name :: rest := by
  rw [differencesFor, ← wayPath_snoc] at reported
  split at reported
  · next new found => exact names_of_mem_at plainAt sound (soundAfter.get? found) reported
  · have same : report = .removed (wayPath (above ++ [name])) := by
      simpa [Difference.reports] using reported
    exact ⟨[], same ▸ pathNames_wayPath (by simp) plainAt⟩

theorem names_of_mem_under (plainAbove : ∀ name ∈ above, PlainName name)
    (soundAfter : Sound after)
    (sound : ∀ entry ∈ before, PlainName entry.1 ∧ Sound entry.2.childFeatures)
    (reported : report ∈ (differencesUnder (wayPath above) after before).reports) :
    ∃ name ∈ Ordered.keys before, ∃ rest, pathNames report.path = above ++ name :: rest := by
  obtain ⟨⟨name, old⟩, member, reported⟩ := mem_differencesUnder.mp reported
  obtain ⟨plain, sound⟩ := sound _ member
  have plainAt := plainNames_snoc plainAbove plain
  exact ⟨name, List.mem_map_of_mem member, names_of_mem_for plainAt sound soundAfter reported⟩

theorem differencesUnder_noRepeats (plainAbove : ∀ name ∈ above, PlainName name)
    (soundAfter : Sound after) (distinct : Ordered.Distinct before)
    (sound : ∀ entry ∈ before, PlainName entry.1 ∧ Sound entry.2.childFeatures)
    (noRepeats : ∀ entry ∈ before, ∀ new, Ordered.get? after entry.1 = some new →
      (differencesAt (wayPath (above ++ [entry.1])) new entry.2).NoRepeats) :
    (differencesUnder (wayPath above) after before).NoRepeats := by
  induction before with
  | nil => exact List.nodup_nil
  | cons entry others ih =>
      obtain ⟨name, old⟩ := entry
      obtain ⟨fresh, distinct⟩ := Ordered.distinct_cons.mp distinct
      obtain ⟨⟨plain, soundOld⟩, sound⟩ := List.forall_mem_cons.mp sound
      obtain ⟨first, noRepeats⟩ := List.forall_mem_cons.mp noRepeats
      have plainAt := plainNames_snoc plainAbove plain
      have own : (differencesFor (wayPath above) after name old).NoRepeats := by
        rw [differencesFor, ← wayPath_snoc]
        split
        · next new found => exact first new found
        · simp [Difference.NoRepeats, Difference.reports]
      rw [differencesUnder_cons]
      refine own.append (ih distinct sound noRepeats) fun report member other memberOther same => ?_
      obtain ⟨front, names⟩ := names_of_mem_for plainAt soundOld soundAfter member
      obtain ⟨head, present, back, namesOther⟩ :=
        names_of_mem_under plainAbove soundAfter sound memberOther
      rw [same, namesOther] at names
      -- Under the same path stand the same names, so both reports are about one feature.
      have equal : head = name := (List.cons.inj (List.append_cancel_left names)).1
      exact fresh (equal ▸ present)

-- No path is reported twice of two levels and everything under them.
theorem differencesBetween_noRepeats (plainAbove : ∀ name ∈ above, PlainName name)
    (sound : Sound before) (soundAfter : Sound after) :
    (differencesBetween (wayPath above) before after).NoRepeats := by
  obtain ⟨proper, plain⟩ := sound
  induction proper generalizing above after with
  | @level before level under ih =>
      have children : ∀ entry ∈ before, PlainName entry.1 ∧ Sound entry.2.childFeatures :=
        fun entry member => ⟨plain.here _ (List.mem_map_of_mem member),
          under _ _ member, plain.under member⟩
      refine (addedFeatures_noRepeats plainAbove soundAfter).append
        (differencesUnder_noRepeats plainAbove soundAfter level.distinct children ?_) ?_
      · rintro ⟨name, old⟩ member new found
        have plainAt := plainNames_snoc plainAbove (children _ member).1
        rw [differencesAt_eq]
        refine modification_noRepeats.append
          (ih name old member plainAt (soundAfter.get? found) (plain.under member)) ?_
        rintro report own other below same
        rw [mem_modification] at own
        obtain ⟨first, rest, names⟩ :=
          names_of_mem_between plainAt (children _ member).2 (soundAfter.get? found) below
        rw [← same, own.2, Report.path, pathNames_wayPath (by simp) plainAt] at names
        simpa using congrArg List.length names
      · rintro report own other below same
        obtain ⟨entry, member, rfl⟩ : ∃ entry ∈ addedFeatures (wayPath above) before after,
            Report.added entry = report := by simpa [Difference.reports] using own
        obtain ⟨name, feature, present, absent, rfl⟩ :=
          (mem_addedFeatures soundAfter.proper.here.distinct).mp member
        obtain ⟨head, member, rest, names⟩ := names_of_mem_under plainAbove soundAfter children below
        rw [← same, Report.path,
          pathNames_childPath plainAbove (soundAfter.plain.here.get? present)] at names
        have equal : name = head := (List.cons.inj (List.append_cancel_left names)).1
        exact Ordered.get?_eq_none.mp absent (equal ▸ member)

end Uniqueness

theorem proper_of_follow? {features : Features} {way : List String} {feature : Feature}
    (proper : EveryLevel ProperLevel features) (found : follow? features way = some feature) :
    feature.Proper := by
  induction way generalizing features with
  | nil => contradiction
  | cons name rest ih =>
      by_cases bottom : rest = []
      · subst bottom
        exact proper.feature_proper (Ordered.mem_of_get? found)
      · rw [follow?_cons _ _ bottom] at found
        obtain ⟨next, present, found⟩ := Option.bind_eq_some_iff.mp found
        exact ih (proper.get? present) found

/-- The parameters at a path; a missing object counts as an empty one. -/
def paramsAt (document : Document) (path : String) : Json :=
  .obj ((document.params? path).getD [])

theorem paramsAt_of_feature? {document : Document} {path : String} {feature : Feature}
    (found : document.feature? path = some feature) :
    document.paramsAt path = .obj feature.paramMembers := by
  simp [paramsAt, params?, found, Feature.paramMembers]

-- A path is reported as modified when its feature is in both documents with another
-- flag or other parameters.
theorem mem_modified_paths_iff {before after : Document} {path : String} (proper : before.Proper)
    (properAfter : after.Proper) (plain : before.Plain) :
    path ∈ (difference before after).modified.map Modified.path ↔
      before.hasFeature path = true ∧ after.hasFeature path = true ∧
        (before.isEnabled path ≠ after.isEnabled path ∨
          (before.paramsAt path).equivalent (after.paramsAt path) = false) := by
  have changed {old new : Feature} (found : before.feature? path = some old)
      (foundAfter : after.feature? path = some new) :
      old.changes new ≠ [] ↔ before.isEnabled path ≠ after.isEnabled path ∨
        (before.paramsAt path).equivalent (after.paramsAt path) = false := by
    have members := (proper_of_follow? proper found).members
    have membersAfter := (proper_of_follow? properAfter foundAfter).members
    rw [Ne, Feature.changes_eq_nil members membersAfter, not_and_or, Bool.not_eq_true,
      isEnabled_of_feature? found, isEnabled_of_feature? foundAfter, paramsAt_of_feature? found,
      paramsAt_of_feature? foundAfter]
  constructor
  · intro reported
    obtain ⟨entry, member, rfl⟩ := List.mem_map.mp reported
    obtain ⟨old, new, found, foundAfter, different, -⟩ :=
      (mem_modified_iff proper properAfter plain).mp member
    exact ⟨hasFeature_iff.mpr ⟨old, found⟩, hasFeature_iff.mpr ⟨new, foundAfter⟩,
      (changed found foundAfter).mp different⟩
  · rintro ⟨has, hasAfter, different⟩
    obtain ⟨old, found⟩ := hasFeature_iff.mp has
    obtain ⟨new, foundAfter⟩ := hasFeature_iff.mp hasAfter
    refine List.mem_map.mpr ⟨⟨path, old.changes new⟩, ?_, rfl⟩
    exact (mem_modified_iff proper properAfter plain).mpr
      ⟨old, new, found, foundAfter, (changed found foundAfter).mpr different, rfl⟩

/-- A difference reports exactly the features that one document has and the other
does not, as far as their parents are in both, and those that changed in themselves;
and it reports each of them once. -/
theorem difference_exact (before after : Document) (proper : before.Proper)
    (properAfter : after.Proper) (plain : before.Plain) (plainAfter : after.Plain) :
    (∀ path enabled, ⟨path, enabled⟩ ∈ (difference before after).added ↔
      after.hasFeature path = true ∧ before.hasFeature path = false ∧ before.HasParent path ∧
        enabled = after.isEnabled path) ∧
    (∀ path, path ∈ (difference before after).removed ↔
      before.hasFeature path = true ∧ after.hasFeature path = false ∧ after.HasParent path) ∧
    (∀ path, path ∈ (difference before after).modified.map Modified.path ↔
      before.hasFeature path = true ∧ after.hasFeature path = true ∧
        (before.isEnabled path ≠ after.isEnabled path ∨
          (before.paramsAt path).equivalent (after.paramsAt path) = false)) ∧
    ((difference before after).added.map Added.path ++ (difference before after).removed ++
      (difference before after).modified.map Modified.path).Nodup := by
  refine ⟨fun path enabled => mem_added_iff proper properAfter plainAfter,
    fun path => mem_removed_iff proper properAfter plain,
    fun path => mem_modified_paths_iff proper properAfter plain, ?_⟩
  have top : ∀ name ∈ ([] : List String), PlainName name := by simp
  have noRepeats := differencesBetween_noRepeats top ⟨proper, plain⟩ ⟨properAfter, plainAfter⟩
  rw [← difference_eq] at noRepeats
  simpa [Difference.NoRepeats, Difference.reports, Function.comp_def, Report.path] using noRepeats

def sampleBefore : Document :=
  ⟨none, "v1", none, [("projects", ⟨true, some [("limit", .int 0)], none, []⟩)]⟩

def sampleAfter : Document :=
  ⟨none, "v2", none, [("projects", ⟨true, some [("limit", .float (.zero false))],
    some [("pipelines", ⟨false, none, some [], []⟩)], []⟩)]⟩

theorem difference_exact_sample :
    sampleBefore.Proper ∧ sampleAfter.Proper ∧ sampleBefore.Plain ∧ sampleAfter.Plain ∧
      sampleBefore.HasParent "projects.pipelines" ∧
      (sampleBefore.paramsAt "projects").equivalent (sampleAfter.paramsAt "projects") = false := by
  have proper : sampleBefore.Proper := by decide
  have properAfter : sampleAfter.Proper := by decide
  have plain : sampleBefore.Plain := by decide
  have plainAfter : sampleAfter.Plain := by decide
  have exact := difference_exact sampleBefore sampleAfter proper properAfter plain plainAfter
  exact ⟨proper, properAfter, plain, plainAfter,
    ((exact.1 "projects.pipelines" false).mp (by decide)).2.2.1,
    ((exact.2.2.1 "projects").mp (by decide)).2.2.resolve_left (by decide)⟩

end Toggles.Document
