import Mathlib.Data.List.Forall2

/-! What the success of a computation that may fail says about its parts. -/

set_option autoImplicit false

namespace Toggles

variable {ε α β : Type}

theorem bind_eq_ok {first : Except ε α} {next : α → Except ε β} {result : β} :
    first >>= next = .ok result ↔ ∃ value, first = .ok value ∧ next value = .ok result := by
  cases first with
  | error cause => exact ⟨nofun, nofun⟩
  | ok value => exact ⟨fun done => ⟨value, rfl, done⟩, fun ⟨_, rfl, done⟩ => done⟩

-- Checks that give nothing succeed in sequence if each of them does.
theorem bind_unit_eq_ok {first second : Except ε Unit} :
    (first >>= fun _ => second) = .ok () ↔ first = .ok () ∧ second = .ok () := by
  rw [bind_eq_ok]
  exact ⟨fun ⟨_, done, next⟩ => ⟨done, next⟩, fun ⟨done, next⟩ => ⟨_, done, next⟩⟩

theorem bind_eq_error {first : Except ε α} {next : α → Except ε β} {cause : ε} :
    first >>= next = .error cause ↔
      first = .error cause ∨ ∃ value, first = .ok value ∧ next value = .error cause := by
  cases first with
  | error other =>
      constructor
      · rintro ⟨⟩
        exact .inl rfl
      · rintro (⟨⟨⟩⟩ | ⟨_, ⟨⟩, -⟩)
        rfl
  | ok value =>
      refine ⟨fun failed => .inr ⟨value, rfl, failed⟩, fun failed => ?_⟩
      rcases failed with ⟨⟨⟩⟩ | ⟨_, ⟨⟩, failed⟩
      exact failed

theorem mapError_eq_ok {δ : Type} {first : Except δ α} {reason : δ → ε} {value : α} :
    first.mapError reason = .ok value ↔ first = .ok value := by
  cases first <;> simp [Except.mapError]

-- A result that is made of one value is looked at through the value.
theorem exists_bind_pure {first : Except ε α} {next : α → β} {holds : β → Prop} :
    (∃ result, (first >>= fun value => pure (next value)) = .ok result ∧ holds result) ↔
      ∃ value, first = .ok value ∧ holds (next value) := by
  cases first with
  | error cause => exact iff_of_false nofun nofun
  | ok value =>
      constructor
      · rintro ⟨_, ⟨⟩, here⟩
        exact ⟨value, rfl, here⟩
      · rintro ⟨_, ⟨⟩, here⟩
        exact ⟨_, rfl, here⟩

-- The items of a list and their results stand at the same places.
theorem forall₂_of_mapM_eq_ok {f : α → Except ε β} {items : List α} {results : List β}
    (mapped : items.mapM f = .ok results) :
    List.Forall₂ (fun item result => f item = .ok result) items results := by
  induction items generalizing results with
  | nil => cases mapped; exact .nil
  | cons item rest ih =>
      rw [List.mapM_cons] at mapped
      obtain ⟨result, first, mapped⟩ := bind_eq_ok.mp mapped
      obtain ⟨others, read, same⟩ := bind_eq_ok.mp mapped
      cases same
      exact .cons first (ih read)

theorem exists_of_mem_mapM {α β ε : Type} {f : α → Except ε β} {items : List α} {results : List β}
    (done : items.mapM f = .ok results) {result : β} (member : result ∈ results) :
    ∃ item ∈ items, f item = .ok result := by
  have paired := forall₂_of_mapM_eq_ok done
  clear done
  induction paired with
  | nil => cases member
  | cons first others ih =>
      rcases List.mem_cons.mp member with rfl | member
      · exact ⟨_, List.mem_cons_self, first⟩
      · obtain ⟨item, present, same⟩ := ih member
        exact ⟨item, List.mem_cons_of_mem _ present, same⟩

-- Items that are made of results yield these results.
theorem mapM_map_eq_ok {f : α → Except ε β} {make : β → α} {results : List β}
    (each : ∀ result ∈ results, f (make result) = .ok result) :
    (results.map make).mapM f = .ok results := by
  induction results with
  | nil => rfl
  | cons result rest ih =>
      obtain ⟨first, each⟩ := List.forall_mem_cons.mp each
      rw [List.map_cons, List.mapM_cons, first, ih each]
      rfl

theorem isOk_iff {first : Except ε α} : first.isOk = true ↔ ∃ value, first = .ok value := by
  cases first with
  | error cause => exact iff_of_false Bool.false_ne_true nofun
  | ok value => exact iff_of_true rfl ⟨value, rfl⟩

-- Where the second part succeeds under the same condition whatever it is given.
theorem isOk_bind {first : Except ε α} {next : α → Except ε β} {condition : Prop}
    (second : ∀ value, (next value).isOk = true ↔ condition) :
    (first >>= next).isOk = true ↔ first.isOk = true ∧ condition := by
  cases first with
  | error cause => exact iff_of_false Bool.false_ne_true fun both => Bool.false_ne_true both.1
  | ok value => exact (second value).trans (and_iff_right rfl).symm

theorem isOk_mapM {f : α → Except ε β} {items : List α} :
    (items.mapM f).isOk = true ↔ ∀ item ∈ items, (f item).isOk = true := by
  induction items with
  | nil => exact iff_of_true rfl (by simp)
  | cons item rest ih =>
      rw [List.mapM_cons, List.forall_mem_cons, ← ih]
      refine isOk_bind fun result => ?_
      exact (isOk_bind fun results => iff_of_true rfl trivial).trans (and_iff_left trivial)

end Toggles
