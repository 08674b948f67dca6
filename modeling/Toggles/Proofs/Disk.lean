import Toggles.Files.Disk
import Toggles.Proofs.Success

/-! Files at their locations.

Where a path leads is spelled by its names alone, if it leads anywhere: the folders on the way have
to be there, and what the files hold makes no difference. So a file can be changed without a change
to where any path leads, and a change at one location leaves every other location as it is.
-/

set_option autoImplicit false

namespace Toggles.Disk

/-- The location that a name leads to, whether or not there is anything. -/
def spelledBy (place : Location) (name : String) : Location :=
  if Path.isIdle name then place
  else if name = ".." then place.dropLast
  else place ++ [name]

/-- The location that a path leads to, if it leads anywhere. -/
def spelled (folder : Location) (path : Path) : Location :=
  path.parts.foldl spelledBy (startOf folder path)

section Entries
variable {disk : Disk} {location place : Location} {entry : Entry}

theorem lookup_cons (present : Location) (old : Entry) (rest : List (Location × Entry)) :
    ((present, old) :: rest).lookup place =
      if place = present then some old else rest.lookup place := by
  by_cases same : place = present
  · simp [same]
  · rw [List.lookup_cons, beq_false_of_ne same, if_neg same]

theorem lookup_putEntry (entries : List (Location × Entry)) :
    (putEntry location entry entries).lookup place =
      if place = location then some entry else entries.lookup place := by
  induction entries with
  | nil => rw [putEntry, lookup_cons]
  | cons first rest ih =>
      obtain ⟨present, old⟩ := first
      unfold putEntry
      split
      · next here => subst here; rw [lookup_cons, lookup_cons]; split <;> rfl
      · next elsewhere =>
          rw [lookup_cons, lookup_cons, ih]
          by_cases same : place = present
          · rw [if_pos same, if_pos same, if_neg (same ▸ elsewhere)]
          · rw [if_neg same, if_neg same]

theorem entry?_put_self (inner : location ≠ []) :
    Disk.entry? (disk.put location entry) location = some entry := by
  simp [put, entry?, lookup_putEntry, inner]

theorem entry?_put_of_ne (other : place ≠ location) :
    Disk.entry? (disk.put location entry) place = disk.entry? place := by
  simp [put, entry?, lookup_putEntry, other]

theorem ne_nil_of_not_folder (noFolder : disk.entry? location ≠ some .folder) : location ≠ [] := by
  rintro rfl
  exact noFolder rfl

end Entries

section Paths
variable {disk : Disk} {folder location place next : Location} {path : Path} {name : String}
  {content : ByteArray}

theorem follow_eq_ok (followed : disk.follow place name = .ok next) :
    disk.entry? place = some .folder ∧ next = spelledBy place name := by
  unfold follow at followed
  split at followed
  · cases followed
  · cases followed
  · next inFolder =>
      refine ⟨inFolder, ?_⟩
      unfold spelledBy
      split at followed
      · next idle => cases followed; rw [if_pos idle]
      · next filled =>
          rw [if_neg filled]
          split at followed
          · next up => cases followed; rw [if_pos up]
          · next down =>
              split at followed
              · cases followed
              · cases followed; rw [if_neg down]

theorem foldlM_follow_eq_ok {names : List String}
    (followed : names.foldlM disk.follow place = .ok next) : next = names.foldl spelledBy place := by
  induction names generalizing place with
  | nil => cases followed; rfl
  | cons name names ih =>
      rw [List.foldlM_cons] at followed
      obtain ⟨inner, step, followed⟩ := bind_eq_ok.mp followed
      rw [List.foldl_cons, ← (follow_eq_ok step).2]
      exact ih followed

theorem locate_eq_ok (located : disk.locate folder path = .ok location) :
    location = spelled folder path := by
  obtain ⟨_, -, followed⟩ := bind_eq_ok.mp located
  exact foldlM_follow_eq_ok followed

theorem locateFile_eq_ok (located : disk.locateFile folder path = .ok location) :
    disk.locate folder path = .ok location := by
  unfold locateFile at located
  split at located
  · obtain ⟨_, -, located⟩ := bind_eq_ok.mp located
    obtain ⟨_, -, located⟩ := bind_eq_ok.mp located
    cases located
  · exact located

theorem read_eq_ok (content : ByteArray) :
    disk.read folder path = .ok content ↔ disk.locate folder path = .ok (spelled folder path) ∧
      disk.entry? (spelled folder path) = some (.file content) := by
  cases located : disk.locate folder path with
  | error fault => simp [read, located, bind, Except.bind]
  | ok location =>
      cases locate_eq_ok located
      simp only [read, located, bind, Except.bind, true_and]
      split <;> simp_all

theorem change_cases (disk : Disk) (folder : Location) (path : Path)
    (content : ByteArray → ByteArray) :
    (disk.change folder path content).2 = disk ∨
      disk.entry? (spelled folder path) ≠ some .folder ∧
        ∃ bytes,
          (disk.change folder path content).2 = disk.put (spelled folder path) (.file bytes) := by
  cases located : disk.locateFile folder path with
  | error fault => exact .inl (by rw [change, located])
  | ok location =>
      cases locate_eq_ok (locateFile_eq_ok located)
      simp only [change, located]
      split
      · exact .inl rfl
      · next file => exact .inr ⟨by simp [file], _, rfl⟩
      · next missing => exact .inr ⟨by simp [missing], _, rfl⟩

section Later
variable {later : Disk}
  (folders : ∀ place, disk.entry? place = some .folder → later.entry? place = some .folder)
include folders

-- A way through folders stays as long as the folders do.
theorem follow_of_folders (followed : disk.follow place name = .ok next) :
    later.follow place name = .ok next := by
  have inFolder := (follow_eq_ok followed).1
  rw [follow, inFolder] at followed
  rwa [follow, folders place inFolder]

theorem foldlM_follow_of_folders {names : List String}
    (followed : names.foldlM disk.follow place = .ok next) :
    names.foldlM later.follow place = .ok next := by
  induction names generalizing place with
  | nil => exact followed
  | cons name names ih =>
      rw [List.foldlM_cons] at followed ⊢
      obtain ⟨inner, step, followed⟩ := bind_eq_ok.mp followed
      exact bind_eq_ok.mpr ⟨inner, follow_of_folders folders step, ih followed⟩

theorem locate_of_folders (located : disk.locate folder path = .ok next) :
    later.locate folder path = .ok next := by
  obtain ⟨_, checked, followed⟩ := bind_eq_ok.mp located
  exact bind_eq_ok.mpr ⟨_, checked, foldlM_follow_of_folders folders followed⟩

end Later

theorem folder_put {entry : Entry} (noFolder : disk.entry? location ≠ some .folder)
    (inFolder : disk.entry? place = some .folder) :
    Disk.entry? (disk.put location entry) place = some .folder := by
  have other : place ≠ location := by
    rintro rfl
    exact noFolder inFolder
  rwa [entry?_put_of_ne other]

theorem locate_put {entry : Entry} (noFolder : disk.entry? location ≠ some .folder)
    (located : disk.locate folder path = .ok next) :
    (disk.put location entry).locate folder path = .ok next :=
  locate_of_folders (fun _ => folder_put noFolder) located

theorem folder_of_put {bytes : ByteArray}
    (inFolder : Disk.entry? (disk.put location (.file bytes)) place = some .folder) :
    disk.entry? place = some .folder := by
  by_cases here : place = location
  · subst here
    by_cases root : place = []
    · subst root; rfl
    · rw [entry?_put_self root] at inFolder
      cases inFolder
  · rwa [entry?_put_of_ne here] at inFolder

-- A file is read as before when another one is changed.
theorem read_change_iff {changed : Path} (elsewhere : spelled folder changed ≠ spelled folder path)
    (change : ByteArray → ByteArray) : (disk.change folder changed change).2.read folder path =
      .ok content ↔ disk.read folder path = .ok content := by
  rcases change_cases disk folder changed change with same | ⟨noFolder, bytes, put⟩
  · rw [same]
  · rw [put, read_eq_ok, read_eq_ok, entry?_put_of_ne elsewhere.symm]
    refine and_congr_left fun _ => ⟨fun located => ?_, locate_put noFolder⟩
    exact locate_of_folders (fun _ => folder_of_put) located

theorem read_change {changed : Path} (elsewhere : spelled folder changed ≠ spelled folder path)
    (change : ByteArray → ByteArray) (read : disk.read folder path = .ok content) :
    (disk.change folder changed change).2.read folder path = .ok content :=
  (read_change_iff elsewhere change).mpr read

end Paths

section Pairs

/-- Two disks that differ in what the file at a location holds and in nothing else. -/
structure DifferAt (location : Location) (disk other : Disk) : Prop where
  file : ∃ content, disk.entry? location = some (.file content)
  fileOther : ∃ content, other.entry? location = some (.file content)
  same : ∀ place, place ≠ location → other.entry? place = disk.entry? place

variable {disk other : Disk} {location folder : Location} {path : Path}

theorem differAt_put {content : ByteArray} (file : disk.entry? location = some (.file content))
    (bytes : ByteArray) : DifferAt location disk (disk.put location (.file bytes)) where
  file := ⟨content, file⟩
  fileOther := by
    have noFolder : disk.entry? location ≠ some .folder := by simp [file]
    exact ⟨bytes, entry?_put_self (ne_nil_of_not_folder noFolder)⟩
  same _ elsewhere := entry?_put_of_ne elsewhere

namespace DifferAt
variable (differ : DifferAt location disk other)
include differ

theorem follow : other.follow = disk.follow := by
  funext place name
  by_cases here : place = location
  · obtain ⟨_, file⟩ := differ.file
    obtain ⟨_, fileOther⟩ := differ.fileOther
    rw [Disk.follow, Disk.follow, here, file, fileOther]
  · rw [Disk.follow, Disk.follow, differ.same place here]

theorem locate (folder : Location) (path : Path) :
    other.locate folder path = disk.locate folder path := by
  rw [Disk.locate, Disk.locate, differ.follow]

theorem locateFile (folder : Location) (path : Path) :
    other.locateFile folder path = disk.locateFile folder path := by
  rw [Disk.locateFile, Disk.locateFile, differ.follow, differ.locate]

theorem isFolder (folder : Location) (path : Path) :
    other.isFolder folder path = disk.isFolder folder path := by
  rw [Disk.isFolder, Disk.isFolder, Disk.at?, Disk.at?, differ.locate]
  cases disk.locate folder path with
  | error fault => rfl
  | ok place =>
      by_cases here : place = location
      · obtain ⟨_, file⟩ := differ.file
        obtain ⟨_, fileOther⟩ := differ.fileOther
        simp only [here, file, fileOther]
      · simp only [differ.same place here]

theorem read (elsewhere : spelled folder path ≠ location) :
    other.read folder path = disk.read folder path := by
  rw [Disk.read, Disk.read, differ.locate]
  cases located : disk.locate folder path with
  | error fault => rfl
  | ok place =>
      cases locate_eq_ok located
      simp only [bind, Except.bind, differ.same _ elsewhere]

theorem put {place : Location} (elsewhere : place ≠ location) (entry : Entry) :
    DifferAt location (disk.put place entry) (other.put place entry) where
  file := by rw [entry?_put_of_ne elsewhere.symm]; exact differ.file
  fileOther := by rw [entry?_put_of_ne elsewhere.symm]; exact differ.fileOther
  same here apart := by
    simp only [Disk.put, entry?, lookup_putEntry]
    split
    · rfl
    · split
      · rfl
      · next filled _ => simpa [filled, entry?] using differ.same here apart

theorem change (elsewhere : spelled folder path ≠ location) (content : ByteArray → ByteArray) :
    (other.change folder path content).1 = (disk.change folder path content).1 ∧
      DifferAt location (disk.change folder path content).2 (other.change folder path content).2 := by
  rw [Disk.change, Disk.change, differ.locateFile]
  cases located : disk.locateFile folder path with
  | error fault => exact ⟨rfl, differ⟩
  | ok place =>
      cases locate_eq_ok (locateFile_eq_ok located)
      simp only [differ.same _ elsewhere]
      split
      · exact ⟨rfl, differ⟩
      · exact ⟨rfl, differ.put elsewhere _⟩
      · exact ⟨rfl, differ.put elsewhere _⟩

end DifferAt

end Pairs

end Toggles.Disk
