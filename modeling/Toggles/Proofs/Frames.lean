import Toggles.Proofs.Disk

/-! What an operation leaves on a disk as it was.

No operation takes a folder away, so a way through folders stays. Everything else is the same apart
from the location that is written to, and where nothing was there may be a new folder.
-/

set_option autoImplicit false

namespace Toggles

namespace Disk

/-- Folders stay. Apart from some locations all else stays as well, but for new folders at some
locations where nothing was. -/
structure Keeps (changed fresh : List Location) (disk later : Disk) : Prop where
  folder : ∀ place, disk.entry? place = some .folder → later.entry? place = some .folder
  same : ∀ place, place ∉ changed → later.entry? place = disk.entry? place ∨
    place ∈ fresh ∧ disk.entry? place = none ∧ later.entry? place = some .folder

/-- What a file holds, or nothing if it cannot be read. -/
def contentAt (disk : Disk) (folder : Location) (path : Path) : ByteArray :=
  match disk.read folder path with
  | .ok content => content
  | .error _ => .empty

section Keeps
variable {disk later last : Disk} {changed fresh : List Location} {folder place location : Location}
  {path : Path} {content : ByteArray}

theorem Keeps.refl (changed fresh : List Location) (disk : Disk) : Keeps changed fresh disk disk where
  folder _ inFolder := inFolder
  same _ _ := .inl rfl

theorem Keeps.trans (first : Keeps changed fresh disk later) (second : Keeps changed fresh later last) :
    Keeps changed fresh disk last where
  folder place inFolder := second.folder place (first.folder place inFolder)
  same place apart := by
    rcases first.same place apart with same | ⟨member, missing, made⟩
    · rcases second.same place apart with sameLast | ⟨member, missing, made⟩
      · exact .inl (sameLast.trans same)
      · exact .inr ⟨member, same ▸ missing, made⟩
    · exact .inr ⟨member, missing, second.folder place made⟩

theorem Keeps.mono {more moreFresh : List Location} (keeps : Keeps changed fresh disk later)
    (wider : changed ⊆ more) (widerFresh : fresh ⊆ moreFresh) : Keeps more moreFresh disk later where
  folder := keeps.folder
  same place apart := (keeps.same place (mt (@wider place) apart)).imp_right
    fun ⟨member, made⟩ => ⟨widerFresh member, made⟩

theorem Keeps.file_iff (keeps : Keeps changed fresh disk later) (apart : place ∉ changed) :
    later.entry? place = some (.file content) ↔ disk.entry? place = some (.file content) := by
  rcases keeps.same place apart with same | ⟨-, missing, made⟩
  · rw [same]
  · simp [missing, made]

theorem Keeps.locate {next : Location} (keeps : Keeps changed fresh disk later)
    (located : disk.locate folder path = .ok next) : later.locate folder path = .ok next :=
  locate_of_folders keeps.folder located

theorem Keeps.read (keeps : Keeps changed fresh disk later) (apart : spelled folder path ∉ changed)
    (read : disk.read folder path = .ok content) : later.read folder path = .ok content := by
  obtain ⟨located, file⟩ := (read_eq_ok content).mp read
  exact (read_eq_ok content).mpr
    ⟨keeps.locate located, (keeps.file_iff apart).mpr file⟩

theorem isFolder_iff : disk.isFolder folder path = true ↔
    disk.locate folder path = .ok (spelled folder path) ∧
      disk.entry? (spelled folder path) = some .folder := by
  cases located : disk.locate folder path with
  | error fault => simp [isFolder, at?, located]
  | ok location =>
      cases locate_eq_ok located
      simp only [isFolder, at?, located, true_and]
      split <;> simp_all

theorem Keeps.isFolder (keeps : Keeps changed fresh disk later)
    (isFolder : disk.isFolder folder path = true) : later.isFolder folder path = true := by
  obtain ⟨located, inFolder⟩ := isFolder_iff.mp isFolder
  exact isFolder_iff.mpr ⟨keeps.locate located, keeps.folder _ inFolder⟩

theorem isFolder_of_read (read : disk.read folder path = .ok content) :
    disk.isFolder folder path = false := by
  refine Bool.eq_false_iff.mpr fun isFolder => ?_
  have file := ((read_eq_ok content).mp read).2
  rw [(isFolder_iff.mp isFolder).2] at file
  cases file

theorem keeps_put {entry : Entry} (noFolder : disk.entry? location ≠ some .folder) :
    Keeps [location] [] disk (disk.put location entry) where
  folder _ := folder_put noFolder
  same _ apart := .inl (entry?_put_of_ne (List.mem_singleton.not.mp apart))

theorem keeps_put_folder (missing : disk.entry? location = none) :
    Keeps [] [location] disk (disk.put location .folder) where
  folder _ := folder_put (by simp [missing])
  same place _ := by
    by_cases here : place = location
    · subst here
      have noFolder : disk.entry? place ≠ some .folder := by simp [missing]
      exact .inr ⟨List.mem_singleton_self place, missing,
        entry?_put_self (ne_nil_of_not_folder noFolder)⟩
    · exact .inl (entry?_put_of_ne here)

end Keeps

section Change
variable {disk : Disk} {folder : Location} {path : Path} {change : ByteArray → ByteArray}

theorem keeps_change (disk : Disk) (folder : Location) (path : Path) (change : ByteArray → ByteArray) :
    Keeps [spelled folder path] [] disk (disk.change folder path change).2 := by
  rcases change_cases disk folder path change with same | ⟨noFolder, bytes, put⟩
  · rw [same]
    exact .refl _ _ _
  · rw [put]
    exact keeps_put noFolder

theorem change_of_error {fault : Fault}
    (failed : (disk.change folder path change).1 = .error fault) :
    (disk.change folder path change).2 = disk := by
  unfold Disk.change at failed ⊢
  split
  · rfl
  · next located =>
      rw [located] at failed
      dsimp only at failed
      split at failed
      · rfl
      · cases failed
      · cases failed

-- Behind a change the file holds what was made of its content.
theorem read_change_self (done : (disk.change folder path change).1 = .ok ()) :
    (disk.change folder path change).2.read folder path =
      .ok (change (disk.contentAt folder path)) := by
  cases found : disk.locateFile folder path with
  | error fault => simp [Disk.change, found] at done
  | ok location =>
      have located := locateFile_eq_ok found
      cases locate_eq_ok located
      have reads {content : ByteArray} (noFolder : disk.entry? (spelled folder path) ≠ some .folder) :
          (disk.put (spelled folder path) (.file content)).read folder path = .ok content :=
        (read_eq_ok content).mpr ⟨locate_put noFolder located,
          entry?_put_self (ne_nil_of_not_folder noFolder)⟩
      simp only [Disk.change, found] at done ⊢
      split
      · next inFolder => simp [inFolder] at done
      · next present file =>
          have content : disk.contentAt folder path = present := by
            rw [contentAt, (read_eq_ok present).mpr ⟨located, file⟩]
          rw [content]
          exact reads (by simp [file])
      · next missing =>
          have content : disk.contentAt folder path = .empty := by
            simp only [contentAt, Disk.read, located, bind, Except.bind, missing]
          rw [content]
          exact reads (by simp [missing])

end Change

end Disk

end Toggles
