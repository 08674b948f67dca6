import Toggles.Files.Path
import Toggles.Proofs.Path
import Toggles.Proofs.Slices

/-! The names that a path leads through.

What stands between the slashes of a path is split into names again: idle parts are passed
over, the slash in front is a name of its own, and a dot is one where the path begins with it.
The entry of a folder lies one name further down.
-/

set_option autoImplicit false

namespace Toggles

namespace Path

def lead (path : Path) : List String :=
  if path.isAbsolute then ["/"] else (path.parts.take 1).filter (· ≠ "")

def components (path : Path) : List String :=
  path.lead ++ path.parts.tail.filter (!isIdle ·)

section Parts
variable {path folder : Path} {name : String}

theorem parts_ne_nil (path : Path) : path.parts ≠ [] :=
  Text.pieces_ne_nil '/' path.text

theorem isAbsolute_iff : path.isAbsolute = true ↔ ∃ rest, path.text.toList = '/' :: rest := by
  rw [isAbsolute, beq_iff_eq, List.head?_eq_some_iff]

theorem endsWithSlash_iff : path.endsWithSlash = true ↔ ∃ front, path.text = front ++ "/" := by
  rw [endsWithSlash, beq_iff_eq, List.getLast?_eq_some_iff]
  constructor
  · rintro ⟨front, ends⟩
    refine ⟨String.ofList front, String.toList_inj.mp ?_⟩
    simp [ends]
  · rintro ⟨front, ends⟩
    exact ⟨front.toList, by simp [ends]⟩

theorem join_of_slash {front : String} (ends : folder.text = front ++ "/") (name : String) :
    (folder.join name).text = front ++ "/" ++ name := by
  have filled : folder.isEmpty = false := by simp [isEmpty, ends]
  have slash : folder.endsWithSlash = true := endsWithSlash_iff.mpr ⟨front, ends⟩
  simp [join, filled, slash, ends]

theorem join_of_open (filled : folder.text ≠ "") (noSlash : folder.endsWithSlash = false)
    (name : String) : (folder.join name).text = folder.text ++ "/" ++ name := by
  simp [join, isEmpty, filled, noSlash]

theorem parts_append (path : Path) (front name : String) (text : path.text = front ++ "/" ++ name)
    (slashless : '/' ∉ name.toList) : path.parts = Text.pieces '/' front ++ [name] := by
  have cut : Text.pieces '/' (front ++ "/" ++ name) =
      Text.pieces '/' front ++ Text.pieces '/' name := Text.pieces_append rfl front name
  rw [Text.pieces_of_notMem slashless, ← text] at cut
  exact cut

-- A slash at the end of the folder leaves an empty part, where the name comes to stand.
theorem exists_parts_join (filled : folder.text ≠ "") (slashless : '/' ∉ name.toList) :
    ∃ front, front ≠ [] ∧ (folder.parts = front ∨ folder.parts = front ++ [""]) ∧
      (folder.join name).parts = front ++ [name] := by
  cases slash : folder.endsWithSlash with
  | true =>
      obtain ⟨front, ends⟩ := endsWithSlash_iff.mp slash
      refine ⟨Text.pieces '/' front, Text.pieces_ne_nil '/' front, .inr ?_, ?_⟩
      · exact parts_append folder front "" (by simp [ends]) (by simp)
      · exact parts_append _ front name (join_of_slash ends name) slashless
  | false =>
      refine ⟨folder.parts, parts_ne_nil folder, .inl rfl, ?_⟩
      exact parts_append _ folder.text name (join_of_open filled slash name) slashless

theorem isAbsolute_join (filled : folder.text ≠ "") (name : String) :
    (folder.join name).isAbsolute = folder.isAbsolute := by
  obtain ⟨c, rest, written⟩ : ∃ c rest, folder.text.toList = c :: rest :=
    List.exists_cons_of_ne_nil (by simpa using filled)
  cases slash : folder.endsWithSlash with
  | true => simp [isAbsolute, join, isEmpty, filled, slash, written]
  | false => simp [isAbsolute, join, isEmpty, filled, slash, written]

/-- An entry of a folder lies one name below it. -/
theorem components_join (folder : Path) (busy : isIdle name = false) (slashless : '/' ∉ name.toList) :
    (folder.join name).components = folder.components ++ [name] := by
  have named : name ≠ "" := by
    rintro rfl
    exact absurd busy (by decide)
  by_cases filled : folder.text = ""
  · have alone : folder.join name = ⟨name⟩ := by simp [join, isEmpty, filled]
    have parts : (⟨name⟩ : Path).parts = [name] := Text.pieces_of_notMem slashless
    have relative : (⟨name⟩ : Path).isAbsolute = false := by
      refine Bool.eq_false_iff.mpr fun absolute => slashless ?_
      obtain ⟨rest, written⟩ := isAbsolute_iff.mp absolute
      exact written ▸ List.mem_cons_self
    have empty : folder = ⟨""⟩ := congrArg Path.mk filled
    have nowhere : folder.components = [] := by
      rw [empty]
      decide
    rw [nowhere, alone]
    simp [components, lead, relative, parts, named]
  · obtain ⟨front, nonempty, before, behind⟩ := exists_parts_join filled slashless
    obtain ⟨first, rest, rfl⟩ := List.exists_cons_of_ne_nil nonempty
    have idle : isIdle "" = true := rfl
    rcases before with before | before
    · simp [components, lead, isAbsolute_join filled, before, behind, busy]
    · simp [components, lead, isAbsolute_join filled, before, behind, busy, idle]

-- The slash in front stands for an empty part.
theorem head_parts_of_isAbsolute (absolute : path.isAbsolute = true) :
    ∃ rest, path.parts = "" :: rest := by
  obtain ⟨text, written⟩ := isAbsolute_iff.mp absolute
  refine ⟨(Text.splitAt '/' text).map String.ofList, ?_⟩
  have cut := Text.splitAt_append '/' [] text
  rw [parts, written]
  simpa [Text.splitAt] using congrArg (List.map String.ofList) cut

-- Idle parts are short, and so is the slash in front.
theorem forall_components_size {limit : Nat} (positive : 0 < limit) :
    (∀ name ∈ path.components, name.utf8ByteSize ≤ limit) ↔
      ∀ part ∈ path.parts, part.utf8ByteSize ≤ limit := by
  obtain ⟨first, rest, parts⟩ := List.exists_cons_of_ne_nil (parts_ne_nil path)
  have idle : ∀ part, isIdle part = true → part.utf8ByteSize ≤ limit := by
    intro part idle
    rcases (by simpa [isIdle] using idle : part = "" ∨ part = ".") with rfl | rfl
    · exact Nat.zero_le limit
    · exact positive
  have front : (∀ name ∈ path.lead, name.utf8ByteSize ≤ limit) ↔ first.utf8ByteSize ≤ limit := by
    by_cases absolute : path.isAbsolute = true
    · obtain ⟨others, cut⟩ := head_parts_of_isAbsolute absolute
      have empty : first = "" := (List.cons.inj (parts.symm.trans cut)).1
      have root : "/".utf8ByteSize ≤ limit := positive
      simp [lead, absolute, empty, root]
    · by_cases empty : first = ""
      · simp [lead, absolute, parts, empty]
      · simp [lead, absolute, parts, empty]
  have behind : (∀ name ∈ rest.filter (!isIdle ·), name.utf8ByteSize ≤ limit) ↔
      ∀ part ∈ rest, part.utf8ByteSize ≤ limit := by
    constructor
    · intro short part member
      by_cases busy : isIdle part = true
      · exact idle part busy
      · exact short part (List.mem_filter.mpr ⟨member, by simpa using busy⟩)
    · exact fun short name member => short name (List.mem_filter.mp member).1
  rw [components, parts, List.forall_mem_append, front, List.tail_cons, behind,
    List.forall_mem_cons]

end Parts

end Path

end Toggles
