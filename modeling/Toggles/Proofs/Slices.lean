import Toggles.Text.Size

/-! Slices of a text between byte offsets.

A text is a list of characters, while its parts are named by offsets in bytes. An offset inside
of a character names no part, nor does one beyond the end; where both offsets of a slice stand
between characters, the slice is what is left when the texts before and behind it are taken away.
-/

set_option autoImplicit false

namespace Toggles.Text

section Sizes
variable {front rest : List Char}

theorem utf8Size_cons (c : Char) (text : List Char) :
    utf8Size (c :: text) = c.utf8Size + utf8Size text := by
  have onward (start : Nat) : text.foldl (fun size c => size + c.utf8Size) start =
      start + utf8Size text := by
    induction text generalizing start with
    | nil => rfl
    | cons d text ih =>
        rw [utf8Size, List.foldl_cons, List.foldl_cons, ih, ih (0 + d.utf8Size)]
        omega
  rw [utf8Size, List.foldl_cons, onward, Nat.zero_add]

@[simp] theorem utf8Size_nil : utf8Size [] = 0 := rfl

@[simp] theorem utf8Size_append (front rest : List Char) :
    utf8Size (front ++ rest) = utf8Size front + utf8Size rest := by
  induction front with
  | nil => simp
  | cons c front ih => rw [List.cons_append, utf8Size_cons, utf8Size_cons, ih, Nat.add_assoc]

theorem utf8Size_pos {text : List Char} (nonempty : text ≠ []) : 0 < utf8Size text := by
  obtain ⟨c, rest, rfl⟩ := List.exists_cons_of_ne_nil nonempty
  rw [utf8Size_cons]
  exact Nat.add_pos_left c.utf8Size_pos _

theorem utf8Size_reverse (text : List Char) : utf8Size text.reverse = utf8Size text := by
  induction text with
  | nil => rfl
  | cons c text ih =>
      rw [List.reverse_cons, utf8Size_append, ih, utf8Size_cons, utf8Size_cons, utf8Size_nil,
        Nat.add_zero, Nat.add_comm]

theorem utf8Size_eq_length {text : List Char} (single : ∀ c ∈ text, c.utf8Size = 1) :
    utf8Size text = text.length := by
  induction text with
  | nil => rfl
  | cons c text ih =>
      obtain ⟨here, rest⟩ := List.forall_mem_cons.mp single
      rw [utf8Size_cons, here, ih rest, List.length_cons, Nat.add_comm]

theorem utf8ByteSize_ofList (text : List Char) : (String.ofList text).utf8ByteSize = utf8Size text := by
  induction text with
  | nil => rfl
  | cons c text ih =>
      rw [String.ofList_cons, String.utf8ByteSize_append, String.utf8ByteSize_singleton, ih,
        utf8Size_cons]

theorem utf8Size_toList (text : String) : utf8Size text.toList = text.utf8ByteSize := by
  rw [← utf8ByteSize_ofList, String.ofList_toList]

end Sizes

/-- The parts of a text before and behind a byte offset, if it is between two characters or at
one of the ends. -/
def divide? : List Char → Nat → Option (List Char × List Char)
  | text, 0 => some ([], text)
  | [], _ + 1 => none
  | c :: rest, offset + 1 =>
      if c.utf8Size ≤ offset + 1 then
        (divide? rest (offset + 1 - c.utf8Size)).map fun (front, rest) => (c :: front, rest)
      else none

def sliceFrom? (text : List Char) (offset : Nat) : Option (List Char) :=
  (divide? text offset).map Prod.snd

def sliceTo? (text : List Char) (offset : Nat) : Option (List Char) :=
  (divide? text offset).map Prod.fst

def slice? (text : List Char) (start stop : Nat) : Option (List Char) :=
  if start ≤ stop then (sliceFrom? text start).bind (sliceTo? · (stop - start)) else none

section Slices
variable {text front part rest : List Char} {start stop offset : Nat}

theorem divide?_append (front rest : List Char) :
    divide? (front ++ rest) (utf8Size front) = some (front, rest) := by
  induction front with
  | nil => rw [utf8Size_nil, divide?]; rfl
  | cons c front ih =>
      obtain ⟨size, same⟩ := Nat.exists_eq_add_one.mpr (utf8Size_pos (List.cons_ne_nil c front))
      have sizes := utf8Size_cons c front
      have left : size + 1 - c.utf8Size = utf8Size front := by omega
      rw [List.cons_append, same, divide?, if_pos (by omega), left, ih]
      rfl

theorem divide?_eq_some :
    divide? text offset = some (front, rest) ↔ text = front ++ rest ∧ utf8Size front = offset := by
  constructor
  · intro divided
    fun_induction divide? text offset generalizing front with
    | case1 text => cases divided; exact ⟨rfl, rfl⟩
    | case2 => contradiction
    | case3 c text offset fits ih =>
        obtain ⟨⟨inner, behind⟩, found, same⟩ := Option.map_eq_some_iff.mp divided
        cases same
        obtain ⟨rfl, size⟩ := ih found
        exact ⟨rfl, by rw [utf8Size_cons, size]; omega⟩
    | case4 => contradiction
  · rintro ⟨rfl, rfl⟩
    exact divide?_append front rest

theorem sliceFrom?_eq_some : sliceFrom? text offset = some rest ↔
    ∃ front, text = front ++ rest ∧ utf8Size front = offset := by
  simp [sliceFrom?, divide?_eq_some]

theorem sliceTo?_eq_some : sliceTo? text offset = some front ↔
    ∃ rest, text = front ++ rest ∧ utf8Size front = offset := by
  simp [sliceTo?, divide?_eq_some]

theorem slice?_eq_some : slice? text start stop = some part ↔
    ∃ front rest, text = front ++ (part ++ rest) ∧ utf8Size front = start ∧
      start + utf8Size part = stop := by
  rw [slice?]
  split
  · next within =>
      simp only [Option.bind_eq_some_iff, sliceFrom?_eq_some, sliceTo?_eq_some]
      constructor
      · rintro ⟨_, ⟨front, rfl, size⟩, rest, rfl, partSize⟩
        exact ⟨front, rest, rfl, size, by omega⟩
      · rintro ⟨front, rest, rfl, size, partSize⟩
        exact ⟨_, ⟨front, rfl, size⟩, rest, rfl, by omega⟩
  · next beyond =>
      refine iff_of_false nofun ?_
      rintro ⟨front, rest, rfl, size, partSize⟩
      omega

-- From where a text stands, one can go on behind the beginning of it.
theorem sliceFrom?_behind (part : List Char) (here : sliceFrom? text start = some (part ++ rest)) :
    sliceFrom? text (start + utf8Size part) = some rest := by
  obtain ⟨front, rfl, rfl⟩ := sliceFrom?_eq_some.mp here
  exact sliceFrom?_eq_some.mpr ⟨front ++ part, by simp, by simp⟩

theorem slice?_of_sliceFrom? (part : List Char) (here : sliceFrom? text start = some (part ++ rest)) :
    slice? text start (start + utf8Size part) = some part := by
  obtain ⟨front, rfl, rfl⟩ := sliceFrom?_eq_some.mp here
  exact slice?_eq_some.mpr ⟨front, rest, rfl, rfl, rfl⟩

theorem bounds_of_slice? (slice : slice? text start stop = some part) : start ≤ stop ∧
    (sliceFrom? text start).isSome = true ∧ (sliceFrom? text stop).isSome = true := by
  obtain ⟨front, rest, rfl, rfl, rfl⟩ := slice?_eq_some.mp slice
  refine ⟨Nat.le_add_right _ _, ?_, ?_⟩
  · exact Option.isSome_of_eq_some (sliceFrom?_eq_some.mpr ⟨front, rfl, rfl⟩)
  · have behind : front ++ (part ++ rest) = (front ++ part) ++ rest := by simp
    exact Option.isSome_of_eq_some (sliceFrom?_eq_some.mpr ⟨front ++ part, behind, by simp⟩)

theorem lt_of_slice? (slice : slice? text start stop = some part) (nonempty : part ≠ []) :
    start < stop := by
  obtain ⟨front, rest, rfl, rfl, rfl⟩ := slice?_eq_some.mp slice
  exact Nat.lt_add_of_pos_right (utf8Size_pos nonempty)

-- Two slices that meet make up the one from the first offset to the last.
theorem slice?_append {middle : Nat} {more : List Char} (first : slice? text start middle = some part)
    (second : slice? text middle stop = some more) : slice? text start stop = some (part ++ more) := by
  obtain ⟨front, behind, rfl, size, sizePart⟩ := slice?_eq_some.mp first
  obtain ⟨frontMore, rest, same, sizeFront, sizeMore⟩ := slice?_eq_some.mp second
  have here := divide?_append (front ++ part) behind
  rw [List.append_assoc, same, utf8Size_append, size, sizePart, ← sizeFront, divide?_append] at here
  obtain ⟨rfl, rfl⟩ := Prod.mk.inj (Option.some.inj here)
  refine slice?_eq_some.mpr ⟨front, rest, by simp, size, ?_⟩
  rw [utf8Size_append]
  omega

theorem size_of_sliceFrom? (here : sliceFrom? text start = some rest) :
    start + utf8Size rest = utf8Size text := by
  obtain ⟨front, rfl, rfl⟩ := sliceFrom?_eq_some.mp here
  exact (utf8Size_append front rest).symm

theorem lt_of_sliceFrom? {c : Char} (here : sliceFrom? text start = some (c :: rest)) :
    start < utf8Size text := by
  have within := size_of_sliceFrom? here
  have filled := utf8Size_pos (List.cons_ne_nil c rest)
  omega

-- The offsets from which there is a slice are the valid positions of the text.
theorem isSome_sliceFrom? (text : String) (offset : Nat) :
    (sliceFrom? text.toList offset).isSome = true ↔ String.Pos.Raw.IsValid text ⟨offset⟩ := by
  simp only [Option.isSome_iff_exists, sliceFrom?_eq_some, String.Pos.Raw.isValid_iff_exists_append]
  constructor
  · rintro ⟨rest, front, same, rfl⟩
    refine ⟨String.ofList front, String.ofList rest, ?_, ?_⟩
    · rw [← String.ofList_append, ← same, String.ofList_toList]
    · rw [String.Pos.Raw.ext_iff, String.byteIdx_rawEndPos, utf8ByteSize_ofList]
  · rintro ⟨front, rest, rfl, same⟩
    refine ⟨rest.toList, front.toList, String.toList_append, ?_⟩
    rw [utf8Size_toList, ← String.byteIdx_rawEndPos, ← same]

end Slices

end Toggles.Text
