import Toggles.Proofs.Difference

/-! When two documents have nothing to report of one another.

Sameness of values and of features is said level by level, without the comparison: the
same names, and under each name the same. A difference is empty exactly of documents
whose features are the same in this sense, so being without a difference is an
equivalence of documents.
-/

set_option autoImplicit false

namespace Toggles.Numeric.Binary64

variable {left middle right : Binary64}

theorem same_iff : left.same right = true ↔
    (left.isZero = true ∧ right.isZero = true) ∨ left = right := by
  simp [same]

theorem same_refl (number : Binary64) : number.same number = true :=
  same_iff.mpr (.inr rfl)

theorem same_symm (equal : left.same right = true) : right.same left = true :=
  same_iff.mpr ((same_iff.mp equal).imp And.symm Eq.symm)

theorem same_trans (first : left.same middle = true) (second : middle.same right = true) :
    left.same right = true := by
  rcases same_iff.mp first with ⟨zero, -⟩ | rfl
  · rcases same_iff.mp second with ⟨-, zeroRight⟩ | rfl
    · exact same_iff.mpr (.inl ⟨zero, zeroRight⟩)
    · exact first
  · exact second

end Toggles.Numeric.Binary64

namespace Toggles.Json

open Numeric (Binary64)

/-- The same value: members have no order, an absent member is no member, and integers
are never binary64 numbers. -/
inductive Same : Json → Json → Prop where
  | null : Same .null .null
  | bool (value : Bool) : Same (.bool value) (.bool value)
  | int (value : Int) : Same (.int value) (.int value)
  | float {left right : Binary64} (equal : left.same right = true) :
      Same (.float left) (.float right)
  | str (value : String) : Same (.str value) (.str value)
  | arr {left right : List Json} (length : left.length = right.length)
      (items : ∀ (index : Nat) (item other : Json), left[index]? = some item →
        right[index]? = some other → Same item other) : Same (.arr left) (.arr right)
  | obj {left right : Members} (names : ∀ name, name ∈ Ordered.keys left ↔ name ∈ Ordered.keys right)
      (members : ∀ name value other, Ordered.get? left name = some value →
        Ordered.get? right name = some other → Same value other) : Same (.obj left) (.obj right)

section Equivalence
variable {first second third : Json}

theorem Same.refl (value : Json) : Same value value := by
  induction value using induction_parts with
  | scalar value noItems noMembers =>
      cases value <;> simp at noItems noMembers
      case null => exact .null
      case bool value => exact .bool value
      case int value => exact .int value
      case float value => exact .float value.same_refl
      case str value => exact .str value
  | arr items ih =>
      refine .arr rfl fun index item other found foundOther => ?_
      cases found.symm.trans foundOther
      exact ih item (List.mem_of_getElem? found)
  | obj members ih =>
      refine .obj (fun _ => Iff.rfl) fun name value other found foundOther => ?_
      cases found.symm.trans foundOther
      exact ih _ (Ordered.mem_of_get? found)

theorem Same.symm (same : Same first second) : Same second first := by
  induction same with
  | null => exact .null
  | bool value => exact .bool value
  | int value => exact .int value
  | float equal => exact .float (Binary64.same_symm equal)
  | str value => exact .str value
  | arr length items ih =>
      exact .arr length.symm fun index item other found foundOther =>
        ih index other item foundOther found
  | obj names members ih =>
      exact .obj (fun name => (names name).symm) fun name value other found foundOther =>
        ih name other value foundOther found

theorem Same.trans (same : Same first second) (next : Same second third) : Same first third := by
  induction same generalizing third with
  | null | bool value | int value | str value => exact next
  | float equal =>
      cases next with
      | float equalNext => exact .float (Binary64.same_trans equal equalNext)
  | @arr left middle length items ih =>
      cases next with
      | @arr _ right lengthNext itemsNext =>
          refine .arr (length.trans lengthNext) fun index item other found foundOther => ?_
          have within : index < middle.length :=
            length ▸ (List.getElem?_eq_some_iff.mp found).1
          have between := List.getElem?_eq_getElem within
          exact ih index item _ found between (itemsNext index _ other between foundOther)
  | @obj left middle names members ih =>
      cases next with
      | @obj _ right namesNext membersNext =>
          refine .obj (fun name => (names name).trans (namesNext name))
            fun name value other found foundOther => ?_
          have member : name ∈ Ordered.keys middle :=
            (names name).mp (Ordered.isSome_get?.mp (Option.isSome_of_eq_some found))
          obtain ⟨between, present⟩ := Option.isSome_iff_exists.mp (Ordered.isSome_get?.mpr member)
          exact ih name value between found present (membersNext name between other present foundOther)

end Equivalence

section Comparison
variable {left right : Json}

theorem equivalentItems_iff {left right : List Json} : equivalentItems left right = true ↔
    left.length = right.length ∧ ∀ (index : Nat) (item other : Json), left[index]? = some item →
      right[index]? = some other → item.equivalent other = true := by
  induction left generalizing right with
  | nil => cases right <;> simp [equivalentItems]
  | cons first rest ih =>
      cases right with
      | nil => simp [equivalentItems]
      | cons other others =>
          rw [equivalentItems, Bool.and_eq_true, ih, List.length_cons, List.length_cons,
            Nat.succ_inj]
          constructor
          · rintro ⟨here, length, further⟩
            refine ⟨length, fun index item other found foundOther => ?_⟩
            cases index with
            | zero => cases found; cases foundOther; exact here
            | succ index => exact further index item other found foundOther
          · rintro ⟨length, each⟩
            exact ⟨each 0 first other rfl rfl, length, fun index => each (index + 1)⟩

-- The program's comparison finds everything that is the same.
theorem Same.equivalent (same : Same left right) (proper : left.Proper)
    (properRight : right.Proper) : left.equivalent right = true := by
  induction same with
  | null => rfl
  | bool value | int value | str value => simp [Json.equivalent]
  | float equal => simpa [Json.equivalent] using equal
  | arr length items ih =>
      rw [Json.equivalent, equivalentItems_iff]
      refine ⟨length, fun index item other found foundOther => ih index item other found foundOther ?_ ?_⟩
      · exact properItems_iff.mp proper item (List.mem_of_getElem? found)
      · exact properItems_iff.mp properRight other (List.mem_of_getElem? foundOther)
  | obj names members ih =>
      rw [equivalent_obj proper.1 properRight.1, equivalentMembers_iff]
      refine ⟨fun member present => ?_, fun name => (names name).mpr⟩
      have found := Ordered.get?_of_mem proper.1 present
      have named := (names member.1).mp (List.mem_map_of_mem present)
      obtain ⟨other, foundOther⟩ := Option.isSome_iff_exists.mp (Ordered.isSome_get?.mpr named)
      exact ⟨other, foundOther, ih member.1 member.2 other found foundOther
        (proper.2.get? found) (properRight.2.get? foundOther)⟩

-- It finds nothing else.
theorem same_of_equivalent (proper : left.Proper) (properRight : right.Proper)
    (equal : left.equivalent right = true) : Same left right := by
  induction left using induction_parts generalizing right with
  | scalar left noItems noMembers =>
      cases left <;> cases right <;> simp [equivalent] at equal noItems noMembers
      case null => exact .null
      case bool => exact equal ▸ .bool _
      case int => exact equal ▸ .int _
      case float => exact .float equal
      case str => exact equal ▸ .str _
  | arr items ih =>
      cases right with
      | arr others =>
          rw [equivalent, equivalentItems_iff] at equal
          refine .arr equal.1 fun index item other found foundOther => ?_
          have member := List.mem_of_getElem? found
          exact ih item member (properItems_iff.mp proper item member)
            (properItems_iff.mp properRight other (List.mem_of_getElem? foundOther))
            (equal.2 index item other found foundOther)
      | null | bool | int | float | str | obj => simp [equivalent] at equal
  | obj members ih =>
      cases right with
      | obj others =>
          rw [equivalent_obj proper.1 properRight.1, equivalentMembers_iff] at equal
          obtain ⟨each, back⟩ := equal
          refine .obj (fun name => ⟨fun named => ?_, back name⟩) fun name value other found foundOther => ?_
          · obtain ⟨value, member⟩ := Ordered.mem_keys.mp named
            obtain ⟨other, foundOther, -⟩ := each _ member
            exact Ordered.isSome_get?.mp (Option.isSome_of_eq_some foundOther)
          · have member := Ordered.mem_of_get? found
            obtain ⟨value', found', same⟩ := each _ member
            cases found'.symm.trans foundOther
            exact ih _ member (proper.2.get? found) (properRight.2.get? foundOther) same
      | null | bool | int | float | str | arr => simp [equivalent] at equal

theorem equivalent_iff_same (proper : left.Proper) (properRight : right.Proper) :
    left.equivalent right = true ↔ Same left right :=
  ⟨same_of_equivalent proper properRight, fun same => same.equivalent proper properRight⟩

end Comparison

end Toggles.Json

namespace Toggles.Document

open Definition (childPath)

/-- Features of the same names, each enabled alike with the same parameters, and with the
same features under it. A missing object or map counts as an empty one. -/
inductive SameState : Features → Features → Prop where
  | level {before after : Features}
      (names : ∀ name, name ∈ Ordered.keys before ↔ name ∈ Ordered.keys after)
      (enabled : ∀ name old new, Ordered.get? before name = some old →
        Ordered.get? after name = some new → old.enabled = new.enabled)
      (params : ∀ name old new, Ordered.get? before name = some old →
        Ordered.get? after name = some new →
          Json.Same (.obj old.paramMembers) (.obj new.paramMembers))
      (under : ∀ name old new, Ordered.get? before name = some old →
        Ordered.get? after name = some new → SameState old.childFeatures new.childFeatures) :
      SameState before after

section Equivalence
variable {first second third : Features}

theorem SameState.symm (same : SameState first second) : SameState second first := by
  induction same with
  | level names enabled params under ih =>
      exact .level (fun name => (names name).symm)
        (fun name old new present presentAfter => (enabled name new old presentAfter present).symm)
        (fun name old new present presentAfter => (params name new old presentAfter present).symm)
        fun name old new present presentAfter => ih name new old presentAfter present

theorem SameState.trans (same : SameState first second) (next : SameState second third) :
    SameState first third := by
  induction same generalizing third with
  | @level before between names enabled params under ih =>
      obtain ⟨namesNext, enabledNext, paramsNext, underNext⟩ := next
      -- A feature of the first and the third document is also in the one between them.
      have middle {name : String} {old : Feature} (present : Ordered.get? before name = some old) :
          ∃ feature, Ordered.get? between name = some feature :=
        Option.isSome_iff_exists.mp (Ordered.isSome_get?.mpr ((names name).mp
          (Ordered.isSome_get?.mp (Option.isSome_of_eq_some present))))
      refine .level (fun name => (names name).trans (namesNext name)) ?_ ?_ ?_
      all_goals
        intro name old new present presentAfter
        obtain ⟨feature, found⟩ := middle present
      · exact (enabled name old feature present found).trans
          (enabledNext name feature new found presentAfter)
      · exact (params name old feature present found).trans
          (paramsNext name feature new found presentAfter)
      · exact ih name old feature present found (underNext name feature new found presentAfter)

end Equivalence

section Emptiness
variable {before after : Features} {path parent : String}

namespace Difference
variable {difference : Difference}

theorem isEmpty_iff : difference.isEmpty = true ↔ ∀ report, report ∉ difference.reports := by
  rw [← List.eq_nil_iff_forall_not_mem]
  simp [isEmpty, reports, and_assoc]

theorem sectionText_eq_empty {title : String} {lines : List String} :
    sectionText title lines = "" ↔ lines = [] := by
  cases lines with
  | nil => simp [sectionText]
  | cons line rest => simp [sectionText, String.join_cons]

theorem spacedSection_eq_empty {title : String} {lines : List String} :
    spacedSection title lines = "" ↔ lines = [] := by
  cases lines <;> simp [spacedSection]

-- A modified feature has a line for its path, also if it had no changes.
theorem markdown_eq_empty : difference.markdown = "" ↔ difference.isEmpty = true := by
  have headed : (difference.modified.flatMap fun entry =>
      ("### " ++ entry.path) :: entry.changes.map fun change => "  - " ++ change.line) = [] ↔
        difference.modified = [] := by
    cases difference.modified <;> simp
  simp [markdown, sectionText_eq_empty, spacedSection_eq_empty, headed, isEmpty]

end Difference

-- Nothing is reported of a level exactly if the same names are in the same state on both
-- sides, whatever may be under them.
theorem none_reportedAt_iff (level : ProperLevel before) (levelAfter : ProperLevel after) :
    (∀ report, ¬ReportedAt path before after report) ↔
      (∀ name, name ∈ Ordered.keys before ↔ name ∈ Ordered.keys after) ∧
      ∀ name old new, Ordered.get? before name = some old → Ordered.get? after name = some new →
        old.enabled = new.enabled ∧ Json.Same (.obj old.paramMembers) (.obj new.paramMembers) := by
  have changes {name : String} {old new : Feature} (present : Ordered.get? before name = some old)
      (presentAfter : Ordered.get? after name = some new) : old.changes new = [] ↔
        old.enabled = new.enabled ∧ Json.Same (.obj old.paramMembers) (.obj new.paramMembers) := by
    have members := level.members _ (Ordered.mem_of_get? present)
    have membersAfter := levelAfter.members _ (Ordered.mem_of_get? presentAfter)
    rw [Feature.changes_eq_nil members membersAfter,
      Json.equivalent_iff_same members.params membersAfter.params]
  constructor
  · intro none
    refine ⟨fun name => ⟨fun member => ?_, fun member => ?_⟩, fun name old new present presentAfter => ?_⟩
    · obtain ⟨old, present⟩ := Option.isSome_iff_exists.mp (Ordered.isSome_get?.mpr member)
      by_contra absent
      exact none _ (.removed present (Ordered.get?_eq_none.mpr absent))
    · obtain ⟨new, present⟩ := Option.isSome_iff_exists.mp (Ordered.isSome_get?.mpr member)
      by_contra absent
      exact none _ (.added present (Ordered.get?_eq_none.mpr absent))
    · by_contra different
      exact none _ (.modified present presentAfter (mt (changes present presentAfter).mp different))
  · rintro ⟨names, states⟩ report reported
    cases reported with
    | @added name feature present absent =>
        have member := Ordered.isSome_get?.mp (Option.isSome_of_eq_some present)
        exact Ordered.get?_eq_none.mp absent ((names name).mpr member)
    | @removed name feature present absent =>
        have member := Ordered.isSome_get?.mp (Option.isSome_of_eq_some present)
        exact Ordered.get?_eq_none.mp absent ((names name).mp member)
    | @modified name old new present presentAfter changed =>
        exact changed ((changes present presentAfter).mpr (states name old new present presentAfter))

-- Nothing is reported of two levels and everything under them exactly if all is the same.
theorem isEmpty_differencesBetween (proper : EveryLevel ProperLevel before)
    (properAfter : EveryLevel ProperLevel after) :
    (differencesBetween parent before after).isEmpty = true ↔ SameState before after := by
  induction proper generalizing parent after with
  | @level before level under ih =>
      have step (report : Report) := @mem_differencesBetween parent before after report
        level.distinct properAfter.here.distinct
      have below {name : String} {old new : Feature} (present : Ordered.get? before name = some old)
          (presentAfter : Ordered.get? after name = some new) :
          (differencesBetween (childPath parent name) old.childFeatures new.childFeatures).isEmpty =
            true ↔ SameState old.childFeatures new.childFeatures :=
        ih name old (Ordered.mem_of_get? present) (properAfter.get? presentAfter)
      rw [Difference.isEmpty_iff]
      constructor
      · intro none
        obtain ⟨names, states⟩ := (none_reportedAt_iff level properAfter.here).mp
          fun report reported => none report ((step report).mpr (.inl reported))
        refine .level names ?_ ?_ fun name old new present presentAfter => ?_
        · exact fun name old new present presentAfter => (states name old new present presentAfter).1
        · exact fun name old new present presentAfter => (states name old new present presentAfter).2
        · refine (below present presentAfter).mp (Difference.isEmpty_iff.mpr fun report reported => ?_)
          exact none report ((step report).mpr (.inr ⟨name, old, new, present, presentAfter, reported⟩))
      · rintro ⟨names, enabled, params, same⟩ report reported
        rcases (step report).mp reported with own | ⟨name, old, new, present, presentAfter, reported⟩
        · refine (none_reportedAt_iff level properAfter.here).mpr ⟨names, ?_⟩ report own
          exact fun name old new present presentAfter =>
            ⟨enabled name old new present presentAfter, params name old new present presentAfter⟩
        · have empty := (below present presentAfter).mpr (same name old new present presentAfter)
          exact Difference.isEmpty_iff.mp empty report reported

theorem isEmpty_difference_iff {first second : Document} (proper : first.Proper)
    (properSecond : second.Proper) :
    (difference first second).isEmpty = true ↔ SameState first.features second.features := by
  rw [difference_eq]
  exact isEmpty_differencesBetween proper properSecond

theorem SameState.refl {features : Features} (proper : EveryLevel ProperLevel features) :
    SameState features features := by
  induction proper with
  | level here under ih =>
      refine .level (fun _ => Iff.rfl) ?_ ?_ ?_
      all_goals
        intro name old new present presentAfter
        cases present.symm.trans presentAfter
      · rfl
      · exact .refl _
      · exact ih name old (Ordered.mem_of_get? present)

end Emptiness

/-- A difference is empty, and so is its report, exactly if both documents have the same
features in the same state. To be without a difference is an equivalence of documents. -/
theorem isEmpty_difference_equivalence {first second third : Document} (proper : first.Proper)
    (properSecond : second.Proper) (properThird : third.Proper) :
    ((difference first second).isEmpty = true ↔ SameState first.features second.features) ∧
    ((difference first second).markdown = "" ↔ SameState first.features second.features) ∧
    (difference first first).isEmpty = true ∧
    ((difference first second).isEmpty = true → (difference second first).isEmpty = true) ∧
    ((difference first second).isEmpty = true → (difference second third).isEmpty = true →
      (difference first third).isEmpty = true) := by
  have empty := isEmpty_difference_iff proper properSecond
  have emptyNext := isEmpty_difference_iff properSecond properThird
  refine ⟨empty, Difference.markdown_eq_empty.trans empty, ?_, fun none => ?_, fun none noneNext => ?_⟩
  · exact (isEmpty_difference_iff proper proper).mpr (.refl proper)
  · exact (isEmpty_difference_iff properSecond proper).mpr (empty.mp none).symm
  · exact (isEmpty_difference_iff proper properThird).mpr
      ((empty.mp none).trans (emptyNext.mp noneNext))

def sampleOrdered : Document :=
  ⟨none, "v1", none, [("plan.x", ⟨true,
    some [("limits", .obj [("low", .float (.zero false)), ("high", .arr [.int 1])])], some [], []⟩)]⟩

/-- The same parameters in another order and with the other zero, and no children. -/
def sampleReordered : Document :=
  ⟨some "v2", "v2", none, [("plan.x", ⟨true,
    some [("limits", .obj [("high", .arr [.int 1]), ("low", .float (.zero true))])], none,
      [("note", .null)]⟩)]⟩

def sampleInteger : Document :=
  ⟨none, "v3", none, [("plan.x", ⟨true,
    some [("limits", .obj [("low", .int 0), ("high", .arr [.int 1])])], none, []⟩)]⟩

theorem isEmpty_difference_equivalence_sample :
    sampleOrdered.Proper ∧ sampleReordered.Proper ∧ sampleInteger.Proper ∧
      SameState sampleOrdered.features sampleReordered.features ∧
      ¬SameState sampleOrdered.features sampleInteger.features := by
  have proper : sampleOrdered.Proper := by decide
  have properReordered : sampleReordered.Proper := by decide
  have properInteger : sampleInteger.Proper := by decide
  refine ⟨proper, properReordered, properInteger, ?_, ?_⟩
  · exact (isEmpty_difference_equivalence proper properReordered properInteger).1.mp (by decide)
  · have integer := (isEmpty_difference_equivalence proper properInteger properReordered).1
    exact fun same => absurd (integer.mpr same) (by decide)

end Toggles.Document
