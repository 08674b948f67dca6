import Mathlib.Data.List.Nodup
import Toggles.Proofs.Components
import Toggles.Proofs.FileNames
import Toggles.Proofs.Folders

/-! What a folder holds and what is listed of it.

A folder lists each of its entries once. The path to an entry leads where the entry is, as long
as it is not too long for a path; what is at the end of a longer one is not seen.
-/

set_option autoImplicit false

namespace Toggles

namespace Path

@[mk_iff]
structure IsName (name : String) : Prop where
  busy : isIdle name = false
  down : name ≠ ".."
  slashless : '/' ∉ name.toList
  noNul : '\x00' ∉ name.toList
  short : name.utf8ByteSize ≤ maximumNameSize

instance (name : String) : Decidable (IsName name) :=
  decidable_of_iff _ (isName_iff name).symm

/-- A path to the entries of a folder leaves room for a name. -/
def HasRoom (path : Path) (name : FileName) : Prop :=
  (path.join "").text.utf8ByteSize + name.length < pathSizeBound

instance (path : Path) (name : FileName) : Decidable (path.HasRoom name) :=
  inferInstanceAs (Decidable (_ < _))

theorem text_join (path : Path) (name : String) : (path.join name).text = (path.join "").text ++ name := by
  unfold join
  split
  · simp
  · split
    · simp
    · simp

theorem size_join (path : Path) (name : String) : (path.join name).text.utf8ByteSize =
    (path.join "").text.utf8ByteSize + (FileName.ofText name).length := by
  rw [text_join, String.utf8ByteSize_append, FileName.length_ofText]

theorem size_le_join (path : Path) :
    path.text.utf8ByteSize ≤ (path.join "").text.utf8ByteSize := by
  by_cases empty : path.text = ""
  · simp [empty]
  · cases slash : path.endsWithSlash with
    | true => simp [join, isEmpty, empty, slash]
    | false => simp [join_of_open empty slash]

theorem toList_join_empty (path : Path) :
    ∀ c ∈ (path.join "").text.toList, c ∈ path.text.toList ∨ c = '/' := by
  intro c
  unfold join
  split
  · simp
  · split
    · simp +contextual
    · simp

end Path

namespace Disk

variable {disk : Disk} {folder place : Location} {path : Path} {name : String}

theorem follow_of_folder (inFolder : disk.entry? place = some .folder) (isName : Path.IsName name) :
    disk.follow place name = .ok (place ++ [name]) := by
  simp [follow, inFolder, isName.busy, isName.down, Nat.not_lt.mpr isName.short]

theorem follow_empty {next : Location} (followed : disk.follow place "" = .ok next) : place = next :=
  (follow_eq_ok followed).2.symm

-- A name adds nothing to a path that no file can have, apart from its size.
theorem checkPath_join (checked : checkPath path = .ok ()) (isName : Path.IsName name) :
    checkPath (path.join name) =
      if path.HasRoom (.ofText name) then .ok () else .error .nameTooLong := by
  obtain ⟨noNul, -, -⟩ := checkPath_eq_ok.mp checked
  have noNulJoin : '\x00' ∉ (path.join name).text.toList := by
    rw [Path.text_join, String.toList_append, List.mem_append, not_or]
    refine ⟨fun nul => ?_, isName.noNul⟩
    exact (Path.toList_join_empty path _ nul).elim noNul (by decide)
  have filledJoin : (path.join name).isEmpty = false := by
    have busy := isName.busy
    rw [Path.isEmpty, Path.text_join]
    refine Bool.eq_false_iff.mpr fun empty => ?_
    simp at empty
    simp [empty.2, Path.isIdle] at busy
  rw [checkPath, filledJoin, Path.size_join]
  by_cases room : path.HasRoom (.ofText name)
  · have within : ¬pathSizeBound ≤ _ := Nat.not_le.mpr room
    simp [noNulJoin, room, within]
  · have beyond : pathSizeBound ≤ _ := Nat.le_of_not_lt room
    simp [noNulJoin, room, beyond]

-- A slash at the end of the path leads nowhere else, so the name is followed from its end.
theorem foldlM_follow_join {start : Location} (filled : path.text ≠ "")
    (followed : path.parts.foldlM disk.follow start = .ok place)
    (inFolder : disk.entry? place = some .folder) (isName : Path.IsName name) :
    (path.join name).parts.foldlM disk.follow start = .ok (place ++ [name]) := by
  obtain ⟨front, -, before, behind⟩ := Path.exists_parts_join filled isName.slashless
  have reached : front.foldlM disk.follow start = .ok place := by
    rcases before with before | before
    · rwa [← before]
    · rw [before, List.foldlM_append] at followed
      obtain ⟨inner, reached, last⟩ := bind_eq_ok.mp followed
      obtain ⟨next, step, done⟩ := bind_eq_ok.mp last
      cases done
      rwa [follow_empty step] at reached
  rw [behind, List.foldlM_append, reached]
  exact congrArg (· >>= pure) (follow_of_folder inFolder isName)

-- A path into a folder goes on from where the path of the folder leads.
theorem locate_join (located : disk.locate folder path = .ok place)
    (inFolder : disk.entry? place = some .folder) (isName : Path.IsName name) :
    disk.locate folder (path.join name) =
      if path.HasRoom (.ofText name) then .ok (place ++ [name]) else .error .nameTooLong := by
  obtain ⟨_, checked, followed⟩ := bind_eq_ok.mp located
  have filled : path.text ≠ "" := (checkPath_eq_ok.mp checked).2.1
  have start : startOf folder (path.join name) = startOf folder path := by
    rw [startOf, startOf, Path.isAbsolute_join filled]
  rw [locate, checkPath_join checked isName, start,
    foldlM_follow_join filled followed inFolder isName]
  split <;> rfl

theorem noNul_of_isFile (isFile : disk.isFile folder path = true) : '\x00' ∉ path.text.toList := by
  cases located : disk.locate folder path with
  | error fault => simp [Disk.isFile, Disk.at?, located] at isFile
  | ok place =>
      obtain ⟨_, checked, -⟩ := bind_eq_ok.mp located
      exact (checkPath_eq_ok.mp checked).1

end Disk

namespace World

/-- A world in which a location is that of one entry only, and entries have names that they can
have. -/
@[mk_iff]
structure Tidy (world : World) : Prop where
  once : (world.disk.entries.map Prod.fst).Nodup
  named : ∀ entry ∈ world.disk.entries, ∀ name ∈ entry.1, Path.IsName name
  straysOnce : world.strays.Nodup

instance (world : World) : Decidable world.Tidy :=
  decidable_of_iff _ (tidy_iff world).symm

inductive HoldsFile (world : World) (place : Location) : FileName → Prop where
  | text {name : String} {content : ByteArray}
      (file : world.disk.entry? (place ++ [name]) = some (.file content)) :
      HoldsFile world place (.ofText name)
  | stray {name : StrayName} (listed : (place, name) ∈ world.strays) : HoldsFile world place name.1

theorem holdsFile_ofText {world : World} {place : Location} {text : String} :
    world.HoldsFile place (.ofText text) ↔
      ∃ content, world.disk.entry? (place ++ [text]) = some (.file content) := by
  constructor
  · intro held
    generalize written : FileName.ofText text = name at held
    cases held with
    | text file => exact ⟨_, FileName.ofText_injective written ▸ file⟩
    | stray listed =>
        rename_i stray
        have noText := stray.2
        rw [← written, FileName.text?_ofText] at noText
        cases noText
  · exact fun ⟨_, file⟩ => .text file

section Listing
variable {world : World} {path : Path} {place : Location} {listing : List FileName}

/-- What is listed of a folder: the names of its entries and those that are no texts. -/
structure Lists (world : World) (path : Path) (place : Location) (listing : List FileName) : Prop where
  located : world.disk.locate world.folder path = .ok place
  inFolder : world.disk.entry? place = some .folder
  names : listing =
    (world.disk.entries.filterMap fun entry => Disk.nameWithin? place entry.1).map FileName.ofText ++
      (world.strays.filter fun stray => stray.1 = place).map fun stray => stray.2.1

theorem names_eq_ok {names : List String} (found : world.disk.names world.folder path = .ok names)
    (located : world.disk.locate world.folder path = .ok place) :
    world.disk.entry? place = some .folder ∧
      names = world.disk.entries.filterMap fun entry => Disk.nameWithin? place entry.1 := by
  simp only [Disk.names, located, bind, Except.bind] at found
  split at found
  · cases found
  · cases found
  · next inFolder =>
      cases found
      exact ⟨inFolder, rfl⟩

theorem exists_lists (listed : world.namesIn path = .ok listing) :
    ∃ place, world.Lists path place listing := by
  obtain ⟨names, found, rest⟩ := bind_eq_ok.mp listed
  obtain ⟨place, located, rest⟩ := bind_eq_ok.mp rest
  obtain ⟨inFolder, rfl⟩ := names_eq_ok found located
  cases rest
  exact ⟨place, located, inFolder, rfl⟩

theorem nameWithin?_eq_some {location : Location} {name : String} :
    Disk.nameWithin? place location = some name ↔ location = place ++ [name] := by
  constructor
  · intro within
    unfold Disk.nameWithin? at within
    split at within
    · next last =>
        split at within
        · next same =>
            cases within
            obtain ⟨before, rfl⟩ := List.getLast?_eq_some_iff.mp last
            rw [List.dropLast_concat] at same
            rw [same]
        · cases within
    · cases within
  · rintro rfl
    simp [Disk.nameWithin?]

theorem mem_entries_of_found {disk : Disk} {location : Location} {entry : Entry}
    (inner : location ≠ []) (found : disk.entry? location = some entry) :
    (location, entry) ∈ disk.entries := by
  rw [Disk.entry?, if_neg (by simpa using inner)] at found
  obtain ⟨before, after, same, -⟩ := List.lookup_eq_some_iff.mp found
  simp [same]

theorem Tidy.isName_of_mem (tidy : world.Tidy) {text : String} {entry : Entry}
    (member : (place ++ [text], entry) ∈ world.disk.entries) : Path.IsName text :=
  tidy.named _ member text (by simp)

namespace Lists

variable (lists : world.Lists path place listing) (tidy : world.Tidy)
include lists

theorem mem_iff {name : FileName} : name ∈ listing ↔
    (∃ text entry, (place ++ [text], entry) ∈ world.disk.entries ∧ name = .ofText text) ∨
      ∃ stray : StrayName, (place, stray) ∈ world.strays ∧ name = stray.1 := by
  rw [lists.names, List.mem_append]
  apply or_congr
  · simp only [List.mem_map, List.mem_filterMap, nameWithin?_eq_some]
    constructor
    · rintro ⟨text, ⟨⟨_, entry⟩, member, rfl⟩, rfl⟩
      exact ⟨text, entry, member, rfl⟩
    · rintro ⟨text, entry, member, rfl⟩
      exact ⟨text, ⟨_, member, rfl⟩, rfl⟩
  · simp only [List.mem_map, List.mem_filter, decide_eq_true_iff]
    constructor
    · rintro ⟨⟨_, stray⟩, ⟨member, rfl⟩, rfl⟩
      exact ⟨stray, member, rfl⟩
    · rintro ⟨stray, member, rfl⟩
      exact ⟨(place, stray), ⟨member, rfl⟩, rfl⟩

theorem isFileIn_ofText {text : String} (isName : Path.IsName text) :
    world.isFileIn path (.ofText text) = true ↔
      (∃ content, world.disk.entry? (place ++ [text]) = some (.file content)) ∧
        path.HasRoom (.ofText text) := by
  have located := Disk.locate_join lists.located lists.inFolder isName
  simp only [isFileIn, FileName.text?_ofText, Disk.isFile, Disk.at?, located]
  by_cases room : path.HasRoom (.ofText text)
  · simp only [room, if_true, and_true]
    cases world.disk.entry? (place ++ [text]) with
    | none => simp
    | some entry => cases entry <;> simp
  · simp [room]

theorem isFileIn_stray (stray : StrayName) : world.isFileIn path stray.1 = true ↔
    (place, stray) ∈ world.strays ∧ path.HasRoom stray.1 := by
  simp [isFileIn, stray.2, lists.located, Path.HasRoom]

include tidy

theorem nodup : listing.Nodup := by
  have texts : (world.disk.entries.filterMap fun entry => Disk.nameWithin? place entry.1).Nodup := by
    have once : ((world.disk.entries.map Prod.fst).filterMap (Disk.nameWithin? place)).Nodup := by
      refine tidy.once.filterMap fun first second name here there => ?_
      rw [nameWithin?_eq_some.mp here, nameWithin?_eq_some.mp there]
    rwa [List.filterMap_map] at once
  have strays : ((world.strays.filter fun stray => stray.1 = place).map fun stray => stray.2.1).Nodup := by
    refine List.Nodup.map_on ?_ (tidy.straysOnce.filter _)
    rintro ⟨_, first⟩ here ⟨_, second⟩ there same
    have placed := of_decide_eq_true (List.mem_filter.mp here).2
    have placed' := of_decide_eq_true (List.mem_filter.mp there).2
    exact Prod.ext (placed.trans placed'.symm) (Subtype.ext same)
  rw [lists.names]
  refine List.Nodup.append (texts.map fun _ _ => FileName.ofText_injective) strays ?_
  intro name text stray
  obtain ⟨written, -, rfl⟩ := List.mem_map.mp text
  obtain ⟨⟨_, other⟩, -, same⟩ := List.mem_map.mp stray
  have noText := other.2
  rw [same, FileName.text?_ofText] at noText
  cases noText

/-- Among what is listed, a file is seen at the end of a path that has room for its name. -/
theorem mem_and_isFileIn_iff {name : FileName} : name ∈ listing ∧ world.isFileIn path name = true ↔
    world.HoldsFile place name ∧ path.HasRoom name := by
  rw [lists.mem_iff]
  constructor
  · rintro ⟨⟨text, entry, member, rfl⟩ | ⟨stray, member, rfl⟩, isFile⟩
    · obtain ⟨⟨content, file⟩, room⟩ := (lists.isFileIn_ofText (tidy.isName_of_mem member)).mp isFile
      exact ⟨.text file, room⟩
    · exact ⟨.stray member, ((lists.isFileIn_stray stray).mp isFile).2⟩
  · rintro ⟨@⟨text, content, file⟩ | @⟨stray, member⟩, room⟩
    · have member := mem_entries_of_found (by simp) file
      have isFile := (lists.isFileIn_ofText (tidy.isName_of_mem member)).mpr ⟨⟨content, file⟩, room⟩
      exact ⟨.inl ⟨text, _, member, rfl⟩, isFile⟩
    · exact ⟨.inr ⟨stray, member, rfl⟩, (lists.isFileIn_stray stray).mpr ⟨member, room⟩⟩

theorem read_join {text : String} {content : ByteArray}
    (file : world.disk.entry? (place ++ [text]) = some (.file content))
    (room : path.HasRoom (.ofText text)) :
    world.disk.read world.folder (path.join text) = .ok content := by
  have isName := tidy.isName_of_mem (mem_entries_of_found (by simp) file)
  have located := Disk.locate_join lists.located lists.inFolder isName
  rw [if_pos room] at located
  simp only [Disk.read, located, bind, Except.bind, file]

end Lists

end Listing

end World

end Toggles
