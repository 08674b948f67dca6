import Toggles.Document.Query
import Toggles.Proofs.Descent
import Toggles.Proofs.Writing

/-! The listing of the features that are enabled at the top level.

An entry of a listing has the name of a feature among the members of that feature, and these
come last. Under one name only the last member is there, so an entry shows the name of its
feature unless the feature has kept a member where the name stands.
-/

set_option autoImplicit false

namespace Toggles.Document

open Json (Members)

/-- The enabled features at the top level, each with its name among its members. -/
def listing (document : Document) : List Json :=
  document.enabledFeatures.map fun (name, feature) => namedJson name feature

def shownName? (entry : Json) : Option Json :=
  entry.member? "featureName"

def Feature.keptName? (feature : Feature) : Option Json :=
  Ordered.get? feature.extra "featureName"

section Entries
variable {features : Features} {feature : Feature} {name : String}

theorem descent_single : Descent features [name] feature ↔
    Ordered.get? features name = some feature := by
  rw [← follow?_eq_some, follow?]

-- The parts of the state have other names, so of a feature only what it has kept can stand
-- where the name is.
theorem shownName?_namedJson (distinct : Ordered.Distinct feature.extra) (name : String) :
    shownName? (namedJson name feature) = some (feature.keptName?.getD (.str name)) := by
  have behind (before : Members) : Ordered.get?
      (Ordered.insertAll [("featureName", .str name)] (before ++ feature.extra)) "featureName" =
        feature.keptName?.or
          (Ordered.get? (Ordered.insertAll [("featureName", .str name)] before) "featureName") := by
    rw [Ordered.insertAll, List.foldl_append]
    exact Ordered.get?_insertAll _ distinct "featureName"
  rw [shownName?, namedJson, Json.member?, Feature.members_eq, ← List.append_assoc,
    ← List.cons_append, behind]
  cases feature.params <;> cases feature.children <;> cases feature.keptName? <;> rfl

theorem enabledFeatures_sublist (document : Document) :
    (Ordered.keys document.enabledFeatures).Sublist (Ordered.keys document.features) :=
  List.filter_sublist.map Prod.fst

theorem mem_enabledFeatures {document : Document} (distinct : Ordered.Distinct document.features) :
    (name, feature) ∈ document.enabledFeatures ↔
      Descent document.features [name] feature ∧ feature.enabled = true := by
  rw [enabledFeatures, List.mem_filter, descent_single, Ordered.get?_eq_some distinct]

theorem map_shownName?_listing {document : Document} (proper : document.Proper) :
    document.listing.map shownName? = document.enabledFeatures.map fun entry =>
      some (entry.2.keptName?.getD (.str entry.1)) := by
  rw [listing, List.map_map]
  refine List.map_congr_left fun entry member => ?_
  have top : entry ∈ document.features := (List.mem_filter.mp member).1
  exact shownName?_namedJson (proper.here.members _ top).extra.1 entry.1

-- Entry by entry: a feature shows its own name unless it has kept another value in its place.
theorem shows_names_iff {document : Document} (proper : document.Proper) :
    document.listing.map shownName? =
        (Ordered.keys document.enabledFeatures).map (fun name => some (.str name)) ↔
      ∀ name feature kept, Descent document.features [name] feature → feature.enabled = true →
        feature.keptName? = some kept → kept = .str name := by
  have enabled {name : String} {feature : Feature} :
      (name, feature) ∈ document.enabledFeatures ↔
        Descent document.features [name] feature ∧ feature.enabled = true :=
    mem_enabledFeatures proper.here.distinct
  rw [map_shownName?_listing proper, Ordered.keys, List.map_map, List.map_inj_left]
  constructor
  · intro same name feature kept found on present
    have shows := same (name, feature) (enabled.mpr ⟨found, on⟩)
    simpa [present] using shows
  · rintro own ⟨name, feature⟩ member
    obtain ⟨found, on⟩ := enabled.mp member
    cases present : feature.keptName? with
    | none => simp
    | some kept => simp [own name feature kept found on present]

end Entries

/-- A listing has an entry for each enabled feature at the top level, in the order of the
document, and a summary counts them, among all features at the top level whatever is under
those. An entry shows the name of its feature, or the member that the feature has kept under
the same name; so the names shown are those of the features exactly if no enabled one has kept
another value there. -/
theorem listing_names {document : Document} (proper : document.Proper) :
    (Ordered.keys document.enabledFeatures).Nodup ∧
    (Ordered.keys document.enabledFeatures).Sublist (Ordered.keys document.features) ∧
    (∀ name, name ∈ Ordered.keys document.enabledFeatures ↔
      ∃ feature, Descent document.features [name] feature ∧ feature.enabled = true) ∧
    document.listing.map shownName? = document.enabledFeatures.map (fun entry =>
      some (entry.2.keptName?.getD (.str entry.1))) ∧
    (document.listing.map shownName? =
        (Ordered.keys document.enabledFeatures).map (fun name => some (.str name)) ↔
      ∀ name feature kept, Descent document.features [name] feature → feature.enabled = true →
        feature.keptName? = some kept → kept = .str name) ∧
    document.summary.enabledFeatures = document.listing.length ∧
    document.summary.enabledFeatures ≤ document.summary.totalFeatures ∧
    document.summary.totalFeatures = (Ordered.keys document.features).length ∧
    (Ordered.keys document.features).Nodup ∧
    ∀ name, name ∈ Ordered.keys document.features ↔
      ∃ feature, Descent document.features [name] feature := by
  have distinct : Ordered.Distinct document.features := proper.here.distinct
  refine ⟨(enabledFeatures_sublist document).nodup distinct, enabledFeatures_sublist document,
    fun name => ?_, map_shownName?_listing proper, shows_names_iff proper, ?_, ?_, ?_, distinct,
    fun name => ?_⟩
  · simp only [Ordered.mem_keys, mem_enabledFeatures distinct]
  · exact (List.length_map _).symm
  · exact List.length_filter_le _ _
  · exact (List.length_map _).symm
  · simp only [Ordered.mem_keys, descent_single, Ordered.get?_eq_some distinct]

def sampleRenamed : Document :=
  ⟨none, "v1", none, [("audit", ⟨false, none, some [("trail", ⟨true, none, none, []⟩)], []⟩),
    ("search", ⟨true, none, none, [("featureName", .str "other")]⟩),
    ("beta", ⟨true, none, none, [("owner", .null)]⟩)]⟩

theorem listing_names_sample : sampleRenamed.Proper ∧
    sampleRenamed.listing.map shownName? = [some (.str "other"), some (.str "beta")] ∧
    sampleRenamed.summary.enabledFeatures = 2 ∧ sampleRenamed.summary.totalFeatures = 3 ∧
    "beta" ∈ Ordered.keys sampleRenamed.enabledFeatures := by
  have proper : sampleRenamed.Proper := by decide
  obtain ⟨-, -, enabled, shown, -, counted, -, total, -, -⟩ := listing_names proper
  exact ⟨proper, shown, counted, total,
    (enabled "beta").mpr ⟨_, descent_single.mpr rfl, rfl⟩⟩

/-- A member that a feature has kept takes the place of its name. -/
theorem listing_names_replaced :
    ¬∀ document : Document, document.Proper → document.listing.map shownName? =
      (Ordered.keys document.enabledFeatures).map fun name => some (.str name) := by
  intro own
  have same := own sampleRenamed (by decide)
  have shown : sampleRenamed.listing.map shownName? = [some (.str "other"), some (.str "beta")] := rfl
  have first := List.head_eq_of_cons_eq (shown.symm.trans same)
  exact absurd (Json.str.inj (Option.some.inj first)) (by decide)

end Toggles.Document
