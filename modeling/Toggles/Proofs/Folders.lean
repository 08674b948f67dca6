import Toggles.Proofs.Frames
import Toggles.Proofs.Path

/-! The folders in which a path lies.

Whatever a path leads to, it leads through the folders around it. So as long as one of them is
missing the path leads nowhere.
-/

set_option autoImplicit false

namespace Toggles

namespace Path

def around (path : Path) : List Path :=
  (path.parent?.map enclosing).getD []

/-- A path lies in what is written by the first of its names, as long as another name follows. -/
def LiesIn (path outer : Path) : Prop :=
  ∃ front name behind, path.parts = front ++ name :: behind ∧ isIdle name = false ∧
    (∃ further ∈ behind, isIdle further = false) ∧ outer = ofParts (front ++ [name])

section Parts
variable {path outer parent : Path} {parts : List String}

theorem slashless_of_mem_parts {part : String} (member : part ∈ path.parts) : '/' ∉ part.toList :=
  Text.notMem_of_mem_pieces member

theorem parts_ofParts (nonempty : parts ≠ []) (slashless : ∀ part ∈ parts, '/' ∉ part.toList) :
    (ofParts parts).parts = parts :=
  Text.pieces_intercalate rfl nonempty slashless

theorem parts_ofParts_front {behind : List String} (nonempty : parts ≠ [])
    (cut : path.parts = parts ++ behind) : (ofParts parts).parts = parts :=
  parts_ofParts nonempty fun _ member =>
    slashless_of_mem_parts (cut ▸ List.mem_append_left behind member)

-- The text of a path goes on behind the text of what it lies in.
theorem text_eq_append {behind : List String} (cut : path.parts = parts ++ behind)
    (nonempty : parts ≠ []) (more : behind ≠ []) :
    path.text = (ofParts parts).text ++ "/" ++ (ofParts behind).text := by
  have front : (ofParts parts).parts = parts := parts_ofParts_front nonempty cut
  have rest : (ofParts behind).parts = behind :=
    parts_ofParts more fun _ member =>
      slashless_of_mem_parts (cut ▸ List.mem_append_right parts member)
  have same : Text.pieces '/' path.text =
      Text.pieces '/' ((ofParts parts).text ++ "/" ++ (ofParts behind).text) := by
    calc Text.pieces '/' path.text
        = parts ++ behind := cut
      _ = (ofParts parts).parts ++ (ofParts behind).parts := by rw [front, rest]
      _ = Text.pieces '/' ((ofParts parts).text ++ "/" ++ (ofParts behind).text) :=
          (Text.pieces_append rfl _ _).symm
  exact Text.pieces_injective same

theorem exists_dropIdleEnd_append (parts : List String) : ∃ idle, dropIdleEnd parts ++ idle = parts := by
  cases parts with
  | nil => exact ⟨[], rfl⟩
  | cons first rest =>
      refine ⟨(rest.reverse.takeWhile isIdle).reverse, ?_⟩
      rw [dropIdleEnd, List.cons_append, ← List.reverse_append, List.takeWhile_append_dropWhile,
        List.reverse_reverse]

theorem dropIdleEnd_ne_nil (nonempty : parts ≠ []) : dropIdleEnd parts ≠ [] := by
  cases parts with
  | nil => contradiction
  | cons first rest => exact List.cons_ne_nil _ _

-- Behind the first part the last part that stays is a name.
theorem isIdle_getLast_dropIdleEnd {parts : List String} (nonempty : dropIdleEnd parts ≠ [])
    (several : ∀ part, dropIdleEnd parts ≠ [part]) :
    isIdle ((dropIdleEnd parts).getLast nonempty) = false := by
  cases parts with
  | nil => contradiction
  | cons first rest =>
      simp only [dropIdleEnd] at several ⊢
      have more : rest.reverse.dropWhile isIdle ≠ [] := by
        intro none
        exact several first (by simp [none])
      rw [List.getLast_cons (by simpa using more), List.getLast_reverse]
      exact List.head_dropWhile_not isIdle more

theorem parent?_cases (found : path.parent? = some parent) : parent.enclosing = [] ∨
    ∃ inner behind, path.parts = inner ++ behind ∧ inner ≠ [] ∧
      (∃ further ∈ behind, isIdle further = false) ∧ parent = ofParts inner := by
  obtain ⟨idle, whole⟩ := exists_dropIdleEnd_append path.parts
  have lastName := @isIdle_getLast_dropIdleEnd path.parts
  unfold parent? at found
  generalize dropIdleEnd path.parts = shown at found whole lastName
  split at found
  · cases found
  · cases found
  · cases found
    exact .inl rfl
  · next notNil _ several =>
      have nonempty : shown.dropLast ≠ [] := by
        rcases shown with - | ⟨first, - | ⟨second, rest⟩⟩
        · exact absurd rfl notNil
        · exact absurd rfl (several first)
        · exact List.cons_ne_nil first _
      obtain ⟨idleInner, inner⟩ := exists_dropIdleEnd_append shown.dropLast
      have last := List.dropLast_append_getLast notNil
      split at found
      · cases found
        exact .inl rfl
      · cases found
        refine .inr ⟨_, idleInner ++ [shown.getLast notNil] ++ idle, ?_,
          dropIdleEnd_ne_nil nonempty, ⟨_, by simp, lastName notNil several⟩, rfl⟩
        calc path.parts
            = dropIdleEnd shown.dropLast ++ idleInner ++ [shown.getLast notNil] ++ idle := by
              rw [inner, last, whole]
          _ = _ := by simp only [List.append_assoc]

theorem parts_of_mem_enclosing (member : outer ∈ path.enclosing) : ∃ front name behind,
    path.parts = front ++ name :: behind ∧ isIdle name = false ∧ outer = ofParts (front ++ [name]) := by
  simp only [enclosing, List.mem_map, List.mem_reverse, List.mem_filter, List.mem_range] at member
  obtain ⟨place, ⟨inside, filled⟩, rfl⟩ := member
  refine ⟨path.parts.take place, path.parts[place], path.parts.drop (place + 1), ?_, ?_, ?_⟩
  · simp
  · simpa [inside] using filled
  · rw [List.take_append_getElem]

theorem text_ne_empty {front : List String} {name : String} (cut : path.parts = front ++ [name])
    (filled : isIdle name = false) : path.text ≠ "" := by
  intro empty
  have single : front ++ [name] = [] ++ [""] := by
    rw [← cut, parts, empty]
    rfl
  cases (List.append_inj' single rfl).2
  cases filled

theorem isAbsolute_append {first : String} (nonempty : first ≠ "") (second : String) :
    isAbsolute ⟨first ++ second⟩ = isAbsolute ⟨first⟩ := by
  have text : first.toList ≠ [] := by simpa using nonempty
  rw [isAbsolute, isAbsolute, String.toList_append, List.head?_append_of_ne_nil _ text]

theorem liesIn_of_mem_around (member : outer ∈ path.around) : path.LiesIn outer := by
  unfold around at member
  cases found : path.parent? with
  | none => simp [found] at member
  | some parent =>
      rw [found] at member
      change outer ∈ parent.enclosing at member
      rcases parent?_cases found with none | ⟨inner, behind, cut, nonempty, ⟨further, here, named⟩, rfl⟩
      · simp [none] at member
      · obtain ⟨front, name, rest, within, filled, rfl⟩ := parts_of_mem_enclosing member
        rw [parts_ofParts_front nonempty cut] at within
        exact ⟨front, name, rest ++ behind, by simp [cut, within], filled,
          ⟨further, List.mem_append_right rest here, named⟩, rfl⟩

end Parts

end Path

namespace Disk

variable {disk : Disk} {folder location : Location} {path outer : Path} {content : ByteArray}

theorem checkPath_eq_ok : checkPath path = .ok () ↔
    '\x00' ∉ path.text.toList ∧ path.text ≠ "" ∧ path.text.utf8ByteSize < pathSizeBound := by
  by_cases nul : '\x00' ∈ path.text.toList
  · simp [checkPath, nul]
  · by_cases empty : path.text = ""
    · simp [checkPath, Path.isEmpty, empty]
    · by_cases long : pathSizeBound ≤ path.text.utf8ByteSize
      · simp [checkPath, Path.isEmpty, nul, empty, long]
      · have short := Nat.lt_of_not_le long
        simp [checkPath, Path.isEmpty, nul, empty, short, Nat.not_le.mpr short]

-- What leads along a path leads along the front of it.
theorem locate_front {front behind : List String} (located : disk.locate folder path = .ok location)
    (cut : path.parts = front ++ behind) (nonempty : front ≠ []) (more : behind ≠ [])
    (named : (Path.ofParts front).text ≠ "") :
    disk.locate folder (Path.ofParts front) = .ok (spelled folder (Path.ofParts front)) ∧
      behind.foldlM disk.follow (spelled folder (Path.ofParts front)) = .ok location := by
  have text := Path.text_eq_append cut nonempty more
  obtain ⟨_, checked, followed⟩ := bind_eq_ok.mp located
  have checkedFront : checkPath (Path.ofParts front) = .ok () := by
    obtain ⟨noNul, -, short⟩ := checkPath_eq_ok.mp checked
    simp only [text, String.toList_append, List.mem_append, not_or] at noNul
    simp only [text, String.utf8ByteSize_append] at short
    exact checkPath_eq_ok.mpr ⟨noNul.1.1, named, by omega⟩
  have start : startOf folder path = startOf folder (Path.ofParts front) := by
    have same : path.isAbsolute = (Path.ofParts front).isAbsolute := by
      rw [Path.isAbsolute, text, String.append_assoc]
      exact Path.isAbsolute_append named _
    rw [startOf, startOf, same]
  rw [cut, List.foldlM_append, start] at followed
  obtain ⟨place, reached, further⟩ := bind_eq_ok.mp followed
  have locatedFront : disk.locate folder (Path.ofParts front) = .ok place := by
    refine bind_eq_ok.mpr ⟨_, checkedFront, ?_⟩
    rwa [Path.parts_ofParts_front nonempty cut]
  cases locate_eq_ok locatedFront
  exact ⟨locatedFront, further⟩

theorem folder_of_foldlM_follow {place next : Location} {names : List String} (nonempty : names ≠ [])
    (followed : names.foldlM disk.follow place = .ok next) : disk.entry? place = some .folder := by
  obtain ⟨name, rest, rfl⟩ := List.exists_cons_of_ne_nil nonempty
  rw [List.foldlM_cons] at followed
  obtain ⟨_, step, -⟩ := bind_eq_ok.mp followed
  exact (follow_eq_ok step).1

-- On the way to what a path leads to are the folders in which it lies.
theorem isFolder_of_liesIn (located : disk.locate folder path = .ok location)
    (lies : path.LiesIn outer) : disk.isFolder folder outer = true := by
  obtain ⟨front, name, behind, cut, filled, ⟨further, here, -⟩, rfl⟩ := lies
  have more : behind ≠ [] := List.ne_nil_of_mem here
  have nonempty : front ++ [name] ≠ [] := by simp
  have cutBehind : path.parts = (front ++ [name]) ++ behind := by simp [cut]
  have named := Path.text_ne_empty (Path.parts_ofParts_front nonempty cutBehind) filled
  obtain ⟨locatedOuter, further⟩ := locate_front located cutBehind nonempty more named
  exact isFolder_iff.mpr ⟨locatedOuter, folder_of_foldlM_follow more further⟩

-- A file is not read at a path with a slash at its end.
theorem locateFile_of_read (read : disk.read folder path = .ok content) :
    disk.locateFile folder path = .ok (spelled folder path) := by
  obtain ⟨located, file⟩ := (read_eq_ok content).mp read
  have noSlash : path.endsWithSlash = false := by
    refine Bool.eq_false_iff.mpr fun slash => ?_
    obtain ⟨before, text⟩ := List.getLast?_eq_some_iff.mp (beq_iff_eq.mp slash)
    have cut : path.parts = (Text.splitAt '/' before).map String.ofList ++ [""] := by
      rw [Path.parts, text, Text.splitAt_append, List.map_append]
      rfl
    obtain ⟨_, -, followed⟩ := bind_eq_ok.mp located
    rw [cut, List.foldlM_append] at followed
    obtain ⟨place, -, last⟩ := bind_eq_ok.mp followed
    have inFolder := folder_of_foldlM_follow (List.cons_ne_nil _ _) last
    rw [show spelled folder path = place from foldlM_follow_eq_ok last, inFolder] at file
    cases file
  rw [locateFile, if_neg (by simp [noSlash]), located]

theorem change_of_read {change : ByteArray → ByteArray} (read : disk.read folder path = .ok content) :
    (disk.change folder path change).1 = .ok () := by
  simp only [Disk.change, locateFile_of_read read, ((read_eq_ok content).mp read).2]

end Disk

end Toggles
