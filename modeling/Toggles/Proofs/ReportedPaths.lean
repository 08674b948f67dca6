import Toggles.Proofs.Descent
import Toggles.Proofs.Difference

/-! The paths under which a difference reports features.

A difference builds the path of a feature name by name on its way down, and puts no dot behind
a path that is empty. That is the path by which the feature is found, as long as the way does not
begin with an empty name and go on: such a name leaves nothing in the path, so that what stands
under it is reported where other features are found.
-/

set_option autoImplicit false

namespace Toggles.Document

open Definition (childPath)

def IsRead (document : Document) : Prop :=
  ∃ value : Json, value.Proper ∧ (ofNested value = .ok document ∨ ofFlattened value = .ok document)

def DotlessLevel (features : Features) : Prop :=
  ∀ name ∈ Ordered.keys features, '.' ∉ name.toList

def Dotless (document : Document) : Prop :=
  EveryLevel DotlessLevel document.features

instance : DecidablePred DotlessLevel := fun features =>
  inferInstanceAs (Decidable (∀ name ∈ Ordered.keys features, '.' ∉ name.toList))

instance (document : Document) : Decidable document.Dotless :=
  inferInstanceAs (Decidable (EveryLevel DotlessLevel document.features))

/-- A way that does not begin with an empty name and go on from there. -/
def Told (way : List String) : Prop :=
  way = [""] ∨ way.head? ≠ some ""

/-- What a difference reports of the feature at the end of a way: that only one of two documents
has it while both have the features above, or that it changed itself. -/
inductive ReportedOf (before after : Features) (way : List String) : Report → Prop where
  | added {feature : Feature} (present : Descent after way feature)
      (absent : ∀ other, ¬Descent before way other)
      (above : way.dropLast = [] ∨ ∃ parent, Descent before way.dropLast parent) :
      ReportedOf before after way (.added ⟨wayPath way, feature.enabled⟩)
  | removed {feature : Feature} (present : Descent before way feature)
      (absent : ∀ other, ¬Descent after way other)
      (above : way.dropLast = [] ∨ ∃ parent, Descent after way.dropLast parent) :
      ReportedOf before after way (.removed (wayPath way))
  | modified {old new : Feature} (present : Descent before way old)
      (presentAfter : Descent after way new) (changed : old.changes new ≠ []) :
      ReportedOf before after way (.modified ⟨wayPath way, old.changes new⟩)

theorem IsRead.proper {document : Document} (read : document.IsRead) : document.Proper := by
  obtain ⟨value, proper, nested | flattened⟩ := read
  · exact ofNested_proper proper nested
  · exact ofFlattened_proper proper flattened

section Ways
variable {way other : List String} {features : Features} {feature : Feature}

-- An empty name at the beginning of a way leaves nothing in its path.
theorem wayPath_unnamed (way : List String) : wayPath ("" :: way) = wayPath way := rfl

theorem intercalate_ne_empty {name : String} (named : name ≠ "") (rest : List String) :
    ".".intercalate (name :: rest) ≠ "" := by
  cases rest with
  | nil => simpa using named
  | cons next rest => simp [String.intercalate_cons_cons]

-- The path of any other way has dots between its names.
theorem wayPath_eq_intercalate (told : way.head? ≠ some "") : wayPath way = ".".intercalate way := by
  induction way using List.reverseRecOn with
  | nil => rfl
  | append_singleton front last ih =>
      rw [wayPath_snoc, childPath]
      cases front with
      | nil => simp [wayPath]
      | cons name rest =>
          have named : name ≠ "" := by simpa using told
          have front := ih (by simpa using named)
          have filled : (wayPath (name :: rest)).isEmpty = false := by
            simpa [front] using intercalate_ne_empty named rest
          rw [filled, front, String.intercalate_append_of_ne_nil (by simp) (by simp)]
          simp

theorem pathNames_of_told (nonempty : way ≠ []) (told : Told way)
    (dotless : ∀ name ∈ way, '.' ∉ name.toList) : pathNames (wayPath way) = way := by
  rcases told with rfl | told
  · rfl
  · rw [wayPath_eq_intercalate told, pathNames_intercalate nonempty dotless]

theorem Descent.dotless (descent : Descent features way feature)
    (dotless : EveryLevel DotlessLevel features) : ∀ name ∈ way, '.' ∉ name.toList := by
  induction descent with
  | last found => simpa using dotless.here _ (Ordered.isSome_get?.mp (Option.isSome_of_eq_some found))
  | further found has below ih =>
      have here := dotless.here _ (Ordered.isSome_get?.mp (Option.isSome_of_eq_some found))
      have under := dotless.get? found
      rw [Feature.childFeatures, has, Option.getD_some] at under
      exact List.forall_mem_cons.mpr ⟨here, ih under⟩

theorem exists_descent_iff : (∃ feature, Descent features way feature) ↔
    (follow? features way).isSome = true := by
  simp only [← follow?_eq_some, Option.isSome_iff_exists]

theorem no_descent_iff : (∀ feature, ¬Descent features way feature) ↔ follow? features way = none := by
  rw [← not_exists, exists_descent_iff, Bool.not_eq_true, Option.isSome_eq_false_iff,
    Option.isNone_iff_eq_none]

end Ways

section Reports
variable {before after lower lowerAfter : Features} {front : List String} {name : String}
  {report : Report}

-- What stands on a level that is met is at the end of the way that goes on with its name.
theorem Meet.get?_eq_some (meet : Meet before after front lower lowerAfter) {feature : Feature} :
    Ordered.get? lower name = some feature ↔ Descent before (front ++ [name]) feature := by
  rw [← follow?_eq_some, meet.follow? name]

theorem Meet.get?_eq_none (meet : Meet before after front lower lowerAfter) :
    Ordered.get? lower name = none ↔ ∀ feature, ¬Descent before (front ++ [name]) feature := by
  rw [no_descent_iff, meet.follow? name]

theorem Meet.above (meet : Meet before after front lower lowerAfter) :
    (front ++ [name]).dropLast = [] ∨ ∃ parent, Descent before (front ++ [name]).dropLast parent := by
  rw [List.dropLast_concat]
  exact meet.reached.imp id exists_descent_iff.mpr

theorem Meet.reportedOf (meet : Meet before after front lower lowerAfter)
    (reported : ReportedAt (front.foldl childPath "") lower lowerAfter report) :
    ∃ way, ReportedOf before after way report := by
  have path (name : String) : childPath (front.foldl childPath "") name = wayPath (front ++ [name]) :=
    (wayPath_snoc front name).symm
  cases reported with
  | @added name feature present absent =>
      rw [path]
      exact ⟨front ++ [name],
        .added (meet.symm.get?_eq_some.mp present) (meet.get?_eq_none.mp absent) meet.above⟩
  | @removed name feature present absent =>
      rw [path]
      exact ⟨front ++ [name],
        .removed (meet.get?_eq_some.mp present) (meet.symm.get?_eq_none.mp absent) meet.symm.above⟩
  | @modified name old new present presentAfter changed =>
      rw [path]
      exact ⟨front ++ [name],
        .modified (meet.get?_eq_some.mp present) (meet.symm.get?_eq_some.mp presentAfter) changed⟩

-- Two features on the same way stand on levels that meet, and so do a feature and the level on
-- which it is missing.
theorem exists_meet_of_above {way : List String}
    (above : way = [] ∨ ∃ parent, Descent before way parent)
    (aboveAfter : way = [] ∨ ∃ parent, Descent after way parent) :
    ∃ lower lowerAfter, Meet before after way lower lowerAfter := by
  refine exists_meet ?_
  rw [exists_descent_iff] at above aboveAfter
  exact above.elim .inl fun here => aboveAfter.imp id fun there => ⟨here, there⟩

theorem above_of_descent {feature : Feature} (descent : Descent before (front ++ [name]) feature) :
    front = [] ∨ ∃ parent, Descent before front parent :=
  (reached_of_follow?_snoc (follow?_eq_some.mpr descent)).imp id exists_descent_iff.mpr

theorem ReportedOf.reportedAt {way : List String} (reported : ReportedOf before after way report) :
    ∃ front lower lowerAfter, Meet before after front lower lowerAfter ∧
      ReportedAt (front.foldl childPath "") lower lowerAfter report := by
  have snoc {features : Features} {feature : Feature} (descent : Descent features way feature) :
      ∃ front name, way = front ++ [name] := by
    obtain ⟨front, name, same⟩ := (List.eq_nil_or_concat way).resolve_left descent.ne_nil
    exact ⟨front, name, same.trans List.concat_eq_append⟩
  cases reported with
  | added present absent above =>
      obtain ⟨front, name, rfl⟩ := snoc present
      rw [List.dropLast_concat] at above
      obtain ⟨lower, lowerAfter, meet⟩ := exists_meet_of_above above (above_of_descent present)
      refine ⟨front, lower, lowerAfter, meet, ?_⟩
      rw [wayPath_snoc]
      exact .added (meet.symm.get?_eq_some.mpr present) (meet.get?_eq_none.mpr absent)
  | removed present absent above =>
      obtain ⟨front, name, rfl⟩ := snoc present
      rw [List.dropLast_concat] at above
      obtain ⟨lower, lowerAfter, meet⟩ := exists_meet_of_above (above_of_descent present) above
      refine ⟨front, lower, lowerAfter, meet, ?_⟩
      rw [wayPath_snoc]
      exact .removed (meet.get?_eq_some.mpr present) (meet.symm.get?_eq_none.mpr absent)
  | modified present presentAfter changed =>
      obtain ⟨front, name, rfl⟩ := snoc present
      obtain ⟨lower, lowerAfter, meet⟩ :=
        exists_meet_of_above (above_of_descent present) (above_of_descent presentAfter)
      refine ⟨front, lower, lowerAfter, meet, ?_⟩
      rw [wayPath_snoc]
      exact .modified (meet.get?_eq_some.mpr present) (meet.symm.get?_eq_some.mpr presentAfter) changed

theorem mem_reports_iff {first second : Document} (proper : first.Proper)
    (properSecond : second.Proper) : report ∈ (difference first second).reports ↔
      ∃ way, ReportedOf first.features second.features way report := by
  refine (mem_differencesBetween_iff proper properSecond).trans ⟨?_, ?_⟩
  · rintro ⟨front, lower, lowerAfter, meet, reported⟩
    exact meet.reportedOf reported
  · rintro ⟨way, reported⟩
    exact reported.reportedAt

end Reports

/-- The paths under which a difference reports the features of a document are its own paths: unless
a way begins with an empty name and goes on, the path that is built for its feature leads to that
feature, and to one way only. An empty name that others follow is not in the path. -/
theorem feature?_wayPath {document : Document} (read : document.IsRead)
    (dotless : document.Dotless) :
    (∀ way feature, Descent document.features way feature → Told way →
      document.feature? (wayPath way) = some feature) ∧
    (∀ way other feature featureOther, Descent document.features way feature →
      Descent document.features other featureOther → Told way → Told other →
      wayPath way = wayPath other → way = other) ∧
    (∀ way, wayPath ("" :: way) = wayPath way) ∧
    ∀ other : Document, other.IsRead →
      (∀ report, report ∈ (difference document other).reports ↔
        ∃ way, ReportedOf document.features other.features way report) ∧
      ∀ report, report ∈ (difference other document).reports ↔
        ∃ way, ReportedOf other.features document.features way report := by
  have names {way : List String} {feature : Feature} (descent : Descent document.features way feature)
      (told : Told way) : pathNames (wayPath way) = way :=
    pathNames_of_told descent.ne_nil told (descent.dotless dotless)
  refine ⟨fun way feature descent told => ?_, ?_, wayPath_unnamed,
    fun other readOther => ⟨fun report => ?_, fun report => ?_⟩⟩
  · exact feature?_eq_some.mpr ((names descent told).symm ▸ descent)
  · intro way other _ _ descent descentOther told toldOther same
    rw [← names descent told, same, names descentOther toldOther]
  · exact mem_reports_iff read.proper readOther.proper
  · exact mem_reports_iff readOther.proper read.proper

def sampleUntoldValue : Json :=
  .obj [("name", .str "v1"), ("features", .obj
    [("", .obj [("children", .obj [("a", .obj [("enabled", .bool true)])])]),
      ("a", .obj [("children", .obj [("", .obj [])])])])]

def sampleUntold : Document :=
  ⟨none, "v1", none, [("", ⟨false, none, some [("a", ⟨true, none, none, []⟩)], []⟩),
    ("a", ⟨false, none, some [("", .blank)], []⟩)]⟩

theorem sampleUntold_read : sampleUntold.IsRead :=
  ⟨sampleUntoldValue, by decide, .inl rfl⟩

def sampleUnder : Document :=
  ⟨none, "v0", none, [("", .blank)]⟩

theorem sampleUnder_read : sampleUnder.IsRead :=
  ⟨.obj [("name", .str "v0"), ("features", .obj [("", .obj [])])], by decide, .inl rfl⟩

/-- Empty names that stand alone or behind others are found again, and so is what is new there. -/
theorem feature?_wayPath_sample : sampleUntold.IsRead ∧ sampleUntold.Dotless ∧
    sampleUnder.IsRead ∧ Told [""] ∧ Told ["a", ""] ∧
    sampleUntold.feature? (wayPath ["a", ""]) = some .blank ∧
    sampleUntold.feature? (wayPath [""]) =
      some ⟨false, none, some [("a", ⟨true, none, none, []⟩)], []⟩ ∧
    ∃ way, ReportedOf sampleUnder.features sampleUntold.features way (.added ⟨"a", false⟩) := by
  have dotless : sampleUntold.Dotless := by decide
  have single : Told [""] := .inl rfl
  have last : Told ["a", ""] := .inr (by decide)
  obtain ⟨found, -, -, reported⟩ := feature?_wayPath sampleUntold_read dotless
  refine ⟨sampleUntold_read, dotless, sampleUnder_read, single, last, ?_, ?_, ?_⟩
  · exact found ["a", ""] _ (follow?_eq_some.mp rfl) last
  · exact found [""] _ (follow?_eq_some.mp rfl) single
  · exact ((reported sampleUnder sampleUnder_read).2 (.added ⟨"a", false⟩)).mp
      (Difference.added_mem_reports.mpr (by decide))

/-- A feature under an empty name is reported under the path of another one: both features that
are new here are reported as `a`, one of them enabled. -/
theorem wayPath_ambiguous :
    (difference sampleUnder sampleUntold).added = [⟨"a", false⟩, ⟨"a", true⟩] ∧
    ¬∀ document : Document, document.IsRead → document.Dotless →
      ∀ way feature, Descent document.features way feature →
        document.feature? (wayPath way) = some feature := by
  refine ⟨rfl, fun resolves => ?_⟩
  have found := resolves sampleUntold sampleUntold_read (by decide) ["", "a"] _
    (follow?_eq_some.mp rfl)
  have enabled := congrArg (Option.map Feature.enabled) found
  exact absurd enabled (by decide)

end Toggles.Document
