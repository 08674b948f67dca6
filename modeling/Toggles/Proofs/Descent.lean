import Toggles.Proofs.Path

/-! Looking up a path is a descent.

A path is taken apart from its front, while what it means is said from its end: what stands
behind the last dot is looked for among the children of what stands before it. Both follow from
the list of its names, which is the same for every way to put the path together, however many
of the names are empty.
-/

set_option autoImplicit false

namespace Toggles.Document

/-- A descent from some features: under each name there is a feature, and but for the last one
it has children, among which the descent goes on. -/
inductive Descent : Features → List String → Feature → Prop where
  | last {features : Features} {name : String} {feature : Feature}
      (found : Ordered.get? features name = some feature) : Descent features [name] feature
  | further {features children : Features} {name : String} {parent feature : Feature}
      {rest : List String} (found : Ordered.get? features name = some parent)
      (has : parent.children = some children) (below : Descent children rest feature) :
      Descent features (name :: rest) feature

section Descending
variable {features : Features} {way below : List String} {name : String} {feature : Feature}

theorem Descent.ne_nil (descent : Descent features way feature) : way ≠ [] := by
  cases descent with
  | last | further => exact List.cons_ne_nil _ _

theorem Descent.cons_iff (nonempty : below ≠ []) : Descent features (name :: below) feature ↔
    ∃ parent children, Ordered.get? features name = some parent ∧
      parent.children = some children ∧ Descent children below feature := by
  constructor
  · intro descent
    cases descent with
    | last found => contradiction
    | further found has below => exact ⟨_, _, found, has, below⟩
  · rintro ⟨parent, children, found, has, below⟩
    exact .further found has below

theorem follow?_eq_some : follow? features way = some feature ↔ Descent features way feature := by
  induction way generalizing features with
  | nil => exact iff_of_false nofun fun descent => descent.ne_nil rfl
  | cons name rest ih =>
      cases rest with
      | nil =>
          refine ⟨Descent.last, fun descent => ?_⟩
          cases descent with
          | last found => exact found
          | further found has below => exact absurd rfl below.ne_nil
      | cons next rest =>
          rw [Descent.cons_iff (List.cons_ne_nil next rest)]
          simp only [follow?, Option.bind_eq_bind, Option.bind_eq_some_iff, ih, exists_and_left]

-- A descent along two ways, one behind the other.
theorem Descent.append_iff (nonempty : way ≠ []) (further : below ≠ []) :
    Descent features (way ++ below) feature ↔ ∃ parent children,
      Descent features way parent ∧ parent.children = some children ∧
        Descent children below feature := by
  induction way generalizing features with
  | nil => contradiction
  | cons name rest ih =>
      rw [List.cons_append, cons_iff (List.append_ne_nil_of_right_ne_nil rest further)]
      cases rest with
      | nil =>
          constructor
          · rintro ⟨parent, children, found, has, below⟩
            exact ⟨parent, children, .last found, has, below⟩
          · rintro ⟨parent, children, descent, has, below⟩
            cases descent with
            | last found => exact ⟨parent, children, found, has, below⟩
            | further found has below => exact absurd rfl below.ne_nil
      | cons next rest =>
          have nonempty := List.cons_ne_nil next rest
          simp only [ih nonempty, cons_iff nonempty]
          constructor
          · rintro ⟨first, under, found, has, parent, children, descent, last, below⟩
            exact ⟨parent, children, ⟨first, under, found, has, descent⟩, last, below⟩
          · rintro ⟨parent, children, ⟨first, under, found, has, descent⟩, last, below⟩
            exact ⟨first, under, found, has, parent, children, descent, last, below⟩

end Descending

section Paths
variable {document : Document} {path : String} {feature : Feature}

theorem feature?_eq_some : document.feature? path = some feature ↔
    Descent document.features (pathNames path) feature :=
  follow?_eq_some

theorem children?_eq_some {children : Features} : document.children? path = some children ↔
    ∃ parent, document.feature? path = some parent ∧ parent.children = some children :=
  Option.bind_eq_some_iff

-- What stands behind a dot is looked up among the children of what stands before it.
theorem feature?_append {rest : String} : document.feature? (path ++ "." ++ rest) = some feature ↔
    ∃ children, document.children? path = some children ∧
      Descent children (pathNames rest) feature := by
  rw [feature?_eq_some, pathNames_append,
    Descent.append_iff (pathNames_ne_nil path) (pathNames_ne_nil rest)]
  simp only [children?_eq_some, feature?_eq_some]
  constructor
  · rintro ⟨parent, children, descent, has, below⟩
    exact ⟨children, ⟨parent, descent, has⟩, below⟩
  · rintro ⟨children, ⟨parent, descent, has⟩, below⟩
    exact ⟨parent, children, descent, has, below⟩

theorem hasFeature_of_append {rest : String}
    (found : document.hasFeature (path ++ "." ++ rest) = true) : document.hasFeature path = true := by
  obtain ⟨feature, found⟩ := Option.isSome_iff_exists.mp found
  obtain ⟨children, has, -⟩ := feature?_append.mp found
  obtain ⟨parent, reached, -⟩ := children?_eq_some.mp has
  exact Option.isSome_of_eq_some reached

end Paths

/-- Lookup is compositional. A name without dots is looked up at the top level, and behind a
dot among the children of the feature before it; so a lookup is a descent along the names
between the dots, whichever of them are empty, and wherever a path is cut at a dot its first
part leads to a feature if the whole path does. What is asked about a path is answered from the
feature that it leads to. -/
theorem feature?_compositional (document : Document) :
    (∀ name, '.' ∉ name.toList → document.feature? name = Ordered.get? document.features name) ∧
    (∀ path name feature, '.' ∉ name.toList →
      (document.feature? (path ++ "." ++ name) = some feature ↔ ∃ children,
        document.children? path = some children ∧ Ordered.get? children name = some feature)) ∧
    (∀ path, ∃ names : List String, names ≠ [] ∧ (∀ name ∈ names, '.' ∉ name.toList) ∧
      ".".intercalate names = path ∧
      ∀ feature, document.feature? path = some feature ↔ Descent document.features names feature) ∧
    (∀ path rest, document.hasFeature (path ++ "." ++ rest) = true →
      document.hasFeature path = true) ∧
    ∀ path option,
      document.hasFeature path = (document.feature? path).isSome ∧
      document.isEnabled path = (document.feature? path).any Feature.enabled ∧
      document.params? path = (document.feature? path).bind Feature.params ∧
      document.option? path option = (document.feature? path).bind fun feature =>
        feature.params.bind fun params => Ordered.get? params option := by
  refine ⟨fun name dotless => ?top, fun path name feature dotless => ?below, fun path => ?names,
    fun path rest => hasFeature_of_append, fun path option => ?answers⟩
  case top => rw [feature?, pathNames_of_plain dotless, follow?]
  case below =>
    have last (children : Features) :
        Descent children [name] feature ↔ Ordered.get? children name = some feature := by
      rw [← follow?_eq_some, follow?]
    rw [feature?_append, pathNames_of_plain dotless]
    simp only [last]
  case names =>
    exact ⟨pathNames path, pathNames_ne_nil path, fun name => dotless_of_mem_pathNames,
      intercalate_pathNames path, fun feature => feature?_eq_some⟩
  case answers =>
    refine ⟨rfl, ?_, rfl, ?_⟩
    · rw [isEnabled]
      cases document.feature? path <;> rfl
    · rw [option?, params?]
      cases document.feature? path <;> rfl

def sampleUnnamed : Document :=
  ⟨none, "v1", none, [("beta", ⟨false, none, some [("", ⟨true, none, none, []⟩)], []⟩)]⟩

/-- A path may end with a dot, and then leads to the child without a name. A feature may be
enabled under one that is not. -/
theorem feature?_compositional_unnamed : '.' ∉ "".toList ∧
    sampleUnnamed.hasFeature ("beta" ++ "." ++ "") = true ∧ (∃ children,
      sampleUnnamed.children? "beta" = some children ∧
        Ordered.get? children "" = some ⟨true, none, none, []⟩) ∧
    sampleUnnamed.hasFeature "beta" = true := by
  have dotless : '.' ∉ "".toList := by decide
  have found : sampleUnnamed.feature? ("beta" ++ "." ++ "") = some ⟨true, none, none, []⟩ := rfl
  have has : sampleUnnamed.hasFeature ("beta" ++ "." ++ "") = true := rfl
  obtain ⟨-, below, -, fronts, -⟩ := feature?_compositional sampleUnnamed
  exact ⟨dotless, has, (below "beta" "" _ dotless).mp found, fronts "beta" "" has⟩

end Toggles.Document
