import Toggles.Proofs.Inhabitants

/-! Unions of literals and the literals that they list.

The schema of such a union lists all of its literals and is typed by the first one. A listed
literal is accepted exactly when it is of that primitive type.
-/

set_option autoImplicit false

namespace Toggles.Declaration

open Validation (accepts hasType same)

section Literals
variable {literal first : Literal} {others : List Literal}

theorem same_toJson (literal : Literal) : same literal.toJson literal.toJson = true := by
  cases literal with
  | string | boolean => simp [Literal.toJson, same]
  | integer | decimal =>
      simp [Literal.toJson, same, Validation.sameNumber, Numeric.Binary64.same]

theorem hasType_primitive :
    hasType first.primitive literal.toJson = true ↔ literal.primitive = first.primitive := by
  cases literal <;> cases first <;> simp [Literal.primitive, Literal.toJson, hasType]

theorem mapM_literal?_map (literals : List Literal) :
    (literals.map TypeExpr.literal).mapM literal? = some literals := by
  induction literals with
  | nil => rfl
  | cons first others ih =>
      rw [List.map_cons, List.mapM_cons, ih]
      rfl

theorem typeSchema_literals (first : Literal) (others : List Literal) :
    typeSchema (.union ((first :: others).map .literal)) = literalSchema first others := by
  rw [typeSchema, mapM_literal?_map]

theorem accepts_listed (member : literal ∈ first :: others) :
    accepts (.obj (typeSchema (.union ((first :: others).map .literal)))) literal.toJson = true ↔
      literal.primitive = first.primitive := by
  rw [typeSchema_literals, accepts_literalSchema_iff, hasType_primitive]
  exact and_iff_left ⟨literal, member, same_toJson literal⟩

end Literals

/-- The schema of a union of literals accepts those of them that are of the primitive type of
the first one. It accepts all of them exactly when they are of one primitive type. -/
theorem accepts_literal_union (first : Literal) (others : List Literal) :
    (∀ literal ∈ first :: others,
      (accepts (.obj (typeSchema (.union ((first :: others).map .literal)))) literal.toJson = true ↔
        literal.primitive = first.primitive)) ∧
    ((∀ literal ∈ first :: others,
      accepts (.obj (typeSchema (.union ((first :: others).map .literal)))) literal.toJson = true) ↔
        ∀ one ∈ first :: others, ∀ other ∈ first :: others, one.primitive = other.primitive) := by
  refine ⟨fun literal member => accepts_listed member, fun all one member other => ?_,
    fun uniform literal member => ?_⟩
  · intro present
    exact ((accepts_listed member).mp (all one member)).trans
      ((accepts_listed present).mp (all other present)).symm
  · exact (accepts_listed member).mpr (uniform literal member first List.mem_cons_self)

def sampleLiterals : List Literal :=
  [.string "a", .integer 1, .string "b", .boolean true]

theorem accepts_literal_union_sample :
    Literal.string "b" ∈ sampleLiterals ∧
      accepts (.obj (typeSchema (.union (sampleLiterals.map .literal)))) (.str "b") = true := by
  have member : Literal.string "b" ∈ sampleLiterals := by decide
  exact ⟨member, ((accepts_literal_union (.string "a")
    [.integer 1, .string "b", .boolean true]).1 (.string "b") member).mpr rfl⟩

/-- A union of a string and a number refuses the number. -/
theorem accepts_mixed_union : Literal.integer 1 ∈ [Literal.string "a", .integer 1] ∧
    accepts (.obj (typeSchema (.union [.literal (.string "a"), .literal (.integer 1)]))) (.int 1) =
      false := by
  decide

end Toggles.Declaration
