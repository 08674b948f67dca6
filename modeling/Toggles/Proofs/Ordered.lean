import Toggles.Ordered

/-! Laws of ordered maps.

Looking up a name finds its first entry, so in a map with distinct names the
entries and the answers are the same thing. Assigning names that are new appends them.
-/

set_option autoImplicit false

namespace Toggles.Ordered

variable {α β : Type}

@[simp] theorem keys_nil : keys ([] : Ordered α) = [] := rfl

@[simp] theorem keys_cons (entry : String × α) (entries : Ordered α) :
    keys (entry :: entries) = entry.1 :: keys entries := rfl

@[simp] theorem keys_append (first second : Ordered α) :
    keys (first ++ second) = keys first ++ keys second :=
  List.map_append

theorem distinct_cons {name : String} {value : α} {entries : Ordered α} :
    Distinct ((name, value) :: entries) ↔ name ∉ keys entries ∧ Distinct entries :=
  List.nodup_cons

theorem mem_keys {entries : Ordered α} {name : String} :
    name ∈ keys entries ↔ ∃ value, (name, value) ∈ entries := by
  simp [keys]

instance (entries : Ordered α) : Decidable (Distinct entries) :=
  inferInstanceAs (Decidable (List.Nodup _))

theorem mem_of_get? {entries : Ordered α} {name : String} {value : α}
    (found : get? entries name = some value) : (name, value) ∈ entries := by
  fun_induction get? entries name with
  | case1 => contradiction
  | case2 => cases found; exact List.mem_cons_self
  | case3 key present rest name other ih => exact List.mem_cons_of_mem _ (ih found)

theorem get?_eq_none {entries : Ordered α} {name : String} :
    get? entries name = none ↔ name ∉ keys entries := by
  fun_induction get? entries name with
  | case1 => simp
  | case2 => simp
  | case3 key present rest name other ih => simp [ih, Ne.symm other]

theorem isSome_get? {entries : Ordered α} {name : String} :
    (get? entries name).isSome = true ↔ name ∈ keys entries := by
  rw [← Option.isNone_eq_false_iff, ← Bool.not_eq_true, Option.isNone_iff_eq_none, get?_eq_none,
    Classical.not_not]

theorem contains_iff {entries : Ordered α} {name : String} :
    contains entries name = true ↔ name ∈ keys entries :=
  isSome_get?

theorem get?_of_mem {entries : Ordered α} {name : String} {value : α}
    (distinct : Distinct entries) (member : (name, value) ∈ entries) :
    get? entries name = some value := by
  induction entries with
  | nil => cases member
  | cons entry rest ih =>
      obtain ⟨key, present⟩ := entry
      obtain ⟨fresh, distinct⟩ := distinct_cons.mp distinct
      rcases List.mem_cons.mp member with same | member
      · cases same; simp [get?]
      · have other : key ≠ name := fun same => fresh (same ▸ mem_keys.mpr ⟨value, member⟩)
        simpa [get?, other] using ih distinct member

theorem get?_eq_some {entries : Ordered α} (distinct : Distinct entries) {name : String}
    {value : α} : get? entries name = some value ↔ (name, value) ∈ entries :=
  ⟨mem_of_get?, get?_of_mem distinct⟩

theorem get?_map (f : String → α → β) (entries : Ordered α) (name : String) :
    get? (entries.map fun entry => (entry.1, f entry.1 entry.2)) name =
      (get? entries name).map (f name) := by
  induction entries with
  | nil => rfl
  | cons entry rest ih =>
      simp only [List.map_cons, get?, ih]
      split
      · next same => cases same; rfl
      · rfl

theorem insert_of_notMem {entries : Ordered α} {name : String} {value : α}
    (fresh : name ∉ keys entries) : insert entries name value = entries ++ [(name, value)] := by
  induction entries with
  | nil => rfl
  | cons entry rest ih =>
      simp only [keys_cons, List.mem_cons, not_or] at fresh
      simp [insert, Ne.symm fresh.1, ih fresh.2]

theorem keys_insert_of_mem {entries : Ordered α} {name : String} {value : α}
    (member : name ∈ keys entries) : keys (insert entries name value) = keys entries := by
  induction entries with
  | nil => cases member
  | cons entry rest ih =>
      simp only [insert]
      split
      · rfl
      · next other =>
          simp only [keys_cons, List.mem_cons, Ne.symm other, false_or] at member
          simp [ih member]

theorem mem_keys_insert {entries : Ordered α} {name key : String} {value : α} :
    key ∈ keys (insert entries name value) ↔ key ∈ keys entries ∨ key = name := by
  by_cases member : name ∈ keys entries
  · rw [keys_insert_of_mem member]
    exact ⟨.inl, fun found => found.elim id fun same => same ▸ member⟩
  · simp [insert_of_notMem member]

theorem mem_insert {entries : Ordered α} {name : String} {value : α} {entry : String × α}
    (member : entry ∈ insert entries name value) : entry = (name, value) ∨ entry ∈ entries := by
  induction entries with
  | nil => simpa [insert] using member
  | cons first rest ih =>
      simp only [insert] at member
      split at member
      · next same =>
          cases same
          rcases List.mem_cons.mp member with same | member
          · exact .inl same
          · exact .inr (List.mem_cons_of_mem _ member)
      · rcases List.mem_cons.mp member with same | member
        · exact .inr (same ▸ List.mem_cons_self)
        · exact (ih member).imp id (List.mem_cons_of_mem _)

theorem Distinct.insert {entries : Ordered α} {name : String} {value : α}
    (distinct : Distinct entries) : Distinct (Ordered.insert entries name value) := by
  by_cases member : name ∈ keys entries
  · simpa only [Distinct, keys_insert_of_mem member] using distinct
  · rw [insert_of_notMem member, Distinct, keys_append, List.nodup_append]
    refine ⟨distinct, by simp, fun key found other single same => member ?_⟩
    have last : other = name := by simpa using single
    exact last ▸ same ▸ found

theorem insertAll_cons (entries : Ordered α) (name : String) (value : α) (added : Ordered α) :
    insertAll entries ((name, value) :: added) = insertAll (insert entries name value) added :=
  rfl

theorem insertAll_append (entries first second : Ordered α) :
    insertAll entries (first ++ second) = insertAll (insertAll entries first) second :=
  List.foldl_append

theorem Distinct.insertAll {entries added : Ordered α} (distinct : Distinct entries) :
    Distinct (Ordered.insertAll entries added) := by
  induction added generalizing entries with
  | nil => exact distinct
  | cons entry rest ih => exact ih distinct.insert

theorem mem_insertAll {entries added : Ordered α} {entry : String × α}
    (member : entry ∈ insertAll entries added) : entry ∈ entries ∨ entry ∈ added := by
  induction added generalizing entries with
  | nil => exact .inl member
  | cons first rest ih =>
      rcases ih member with member | member
      · rcases mem_insert member with same | present
        · exact .inr (same ▸ List.mem_cons_self)
        · exact .inl present
      · exact .inr (List.mem_cons_of_mem _ member)

-- Assigning new names appends them in their order.
theorem insertAll_of_fresh {entries added : Ordered α} (distinct : Distinct added)
    (fresh : ∀ name ∈ keys added, name ∉ keys entries) :
    insertAll entries added = entries ++ added := by
  induction added generalizing entries with
  | nil => simp [insertAll]
  | cons entry rest ih =>
      obtain ⟨name, value⟩ := entry
      obtain ⟨absent, distinct⟩ := distinct_cons.mp distinct
      have new : name ∉ keys entries := fresh name List.mem_cons_self
      calc insertAll entries ((name, value) :: rest)
          = insertAll (insert entries name value) rest := insertAll_cons entries name value rest
        _ = insertAll (entries ++ [(name, value)]) rest := by rw [insert_of_notMem new]
        _ = (entries ++ [(name, value)]) ++ rest := by
            refine ih distinct fun key member found => ?_
            rw [keys_append, List.mem_append] at found
            rcases found with found | found
            · exact fresh key (List.mem_cons_of_mem _ member) found
            · have same : key = name := by simpa using found
              exact absent (same ▸ member)
        _ = entries ++ (name, value) :: rest := by simp

theorem insertAll_nil (entries : Ordered α) (distinct : Distinct entries) :
    insertAll [] entries = entries :=
  insertAll_of_fresh distinct fun _ _ => List.not_mem_nil

theorem get?_insert (entries : Ordered α) (name : String) (value : α) (key : String) :
    get? (insert entries name value) key = if name = key then some value else get? entries key := by
  induction entries with
  | nil => rfl
  | cons entry rest ih =>
      obtain ⟨present, old⟩ := entry
      simp only [insert]
      split
      · next same =>
          subst same
          simp only [get?]
          split <;> rfl
      · next other =>
          simp only [get?, ih]
          split
          · next same => rw [if_neg fun found => other (same.trans found.symm)]
          · rfl

-- What is assigned last is found.
theorem get?_insertAll (entries : Ordered α) {added : Ordered α} (distinct : Distinct added)
    (name : String) :
    get? (insertAll entries added) name = (get? added name).or (get? entries name) := by
  induction added generalizing entries with
  | nil => rfl
  | cons entry rest ih =>
      obtain ⟨key, value⟩ := entry
      obtain ⟨fresh, distinct⟩ := distinct_cons.mp distinct
      have next := ih (insert entries key value) distinct
      rw [get?_insert] at next
      rw [insertAll_cons, next, get?]
      split
      · next same => rw [get?_eq_none.mpr (same ▸ fresh), Option.none_or, Option.some_or]
      · rfl

-- Names that are new come behind the others, which keep their places.
theorem keys_insertAll {entries added : Ordered α} (distinct : Distinct added) :
    keys (insertAll entries added) =
      keys entries ++ (keys added).filter fun name => decide (name ∉ keys entries) := by
  induction added generalizing entries with
  | nil => simp [insertAll]
  | cons entry rest ih =>
      obtain ⟨name, value⟩ := entry
      obtain ⟨absent, distinct⟩ := distinct_cons.mp distinct
      rw [insertAll_cons, ih distinct, keys_cons]
      by_cases present : name ∈ keys entries
      · rw [keys_insert_of_mem present, List.filter_cons_of_neg (by simpa using present)]
      · rw [insert_of_notMem present, keys_append, List.filter_cons_of_pos (by simpa using present),
          List.append_assoc]
        refine congrArg (keys entries ++ name :: ·) (List.filter_congr fun key member => ?_)
        have other : key ≠ name := fun same => absent (same ▸ member)
        simp [other]

-- Of the entries of a name in a list the last one counts.
theorem get?_ofList (entries : List (String × α)) (name : String) : get? (ofList entries) name =
    (entries.reverse.find? fun entry => entry.1 = name).map Prod.snd := by
  have all (before : Ordered α) : get? (insertAll before entries) name =
      ((entries.reverse.find? fun entry => entry.1 = name).map Prod.snd).or (get? before name) := by
    induction entries generalizing before with
    | nil => rfl
    | cons entry rest ih =>
        rw [insertAll_cons, ih, get?_insert, List.reverse_cons, List.find?_append]
        cases rest.reverse.find? fun entry => entry.1 = name with
        | some found => rfl
        | none => by_cases same : entry.1 = name <;> simp [same]
  rw [ofList, all, get?, Option.or_none]

theorem get?_filter (keep : String → Bool) (entries : Ordered α) (name : String) :
    get? (entries.filter fun entry => keep entry.1) name =
      if keep name then get? entries name else none := by
  induction entries with
  | nil => simp [get?]
  | cons entry rest ih =>
      obtain ⟨key, value⟩ := entry
      rw [List.filter_cons]
      by_cases same : key = name
      · subst same
        cases kept : keep key <;> simp [get?, kept, ih]
      · cases kept : keep key <;> simp [get?, same, ih]

theorem Distinct.filter {entries : Ordered α} (distinct : Distinct entries)
    (keep : String × α → Bool) : Distinct (entries.filter keep) :=
  List.Nodup.sublist (List.filter_sublist.map Prod.fst) distinct

section Erasing

-- Maps with the same entries give the same answers.
theorem get?_of_perm {first second : Ordered α} (distinct : Distinct first)
    (same : first.Perm second) (name : String) : get? first name = get? second name := by
  have distinctSecond : Distinct second := (same.map Prod.fst).nodup distinct
  ext value
  rw [get?_eq_some distinct, get?_eq_some distinctSecond, same.mem_iff]

theorem erase_of_notMem {entries : Ordered α} {name : String} (absent : name ∉ keys entries) :
    erase entries name = entries := by
  refine List.filter_eq_self.mpr fun entry member => ?_
  have other : entry.1 ≠ name := fun same => absent (same ▸ mem_keys.mpr ⟨entry.2, member⟩)
  simpa using other

-- Either way of removing a name leaves the same entries.
theorem swapErase_perm {entries : Ordered α} (distinct : Distinct entries) (name : String) :
    (swapErase entries name).Perm (erase entries name) := by
  induction entries with
  | nil => exact .nil
  | cons entry rest ih =>
      obtain ⟨key, value⟩ := entry
      obtain ⟨fresh, distinct⟩ := distinct_cons.mp distinct
      by_cases same : key = name
      · subst same
        have erased : erase ((key, value) :: rest) key = rest := by
          simpa [erase] using erase_of_notMem fresh
        rw [erased, swapErase, if_pos rfl]
        split
        · next none => rw [List.getLast?_eq_none_iff.mp none]
        · next last some =>
            obtain ⟨front, rfl⟩ := List.getLast?_eq_some_iff.mp some
            rw [List.dropLast_concat]
            exact (List.perm_append_singleton last front).symm
      · have kept : erase ((key, value) :: rest) name = (key, value) :: erase rest name := by
          simp [erase, same]
        rw [kept, swapErase, if_neg same]
        exact (ih distinct).cons (key, value)

theorem Distinct.swapErase {entries : Ordered α} (distinct : Distinct entries) (name : String) :
    Distinct (Ordered.swapErase entries name) :=
  ((swapErase_perm distinct name).map Prod.fst).symm.nodup (distinct.filter _)

theorem get?_swapErase {entries : Ordered α} (distinct : Distinct entries) (name key : String) :
    get? (swapErase entries name) key = if key = name then none else get? entries key := by
  rw [get?_of_perm (distinct.swapErase name) (swapErase_perm distinct name), erase,
    get?_filter (fun other => decide (other ≠ name))]
  by_cases same : key = name <;> simp [same]

end Erasing

end Toggles.Ordered
