import Toggles.Proofs.FolderListing

/-! The documents of a folder of versions.

The names that a folder lists are filtered, counted and sorted before a document is read, and
names that are sorted do not show in which order they came. So what is loaded, and which of
several errors is reported, is settled by the files of the folder alone.
-/

set_option autoImplicit false

namespace Toggles

section Sorting

theorem pairwise_le_mergeSort (names : List FileName) : names.mergeSort.Pairwise (· ≤ ·) := by
  have transitive (first second third : FileName) (below : decide (first ≤ second) = true)
      (above : decide (second ≤ third) = true) : decide (first ≤ third) = true :=
    decide_eq_true (List.le_trans (of_decide_eq_true below) (of_decide_eq_true above))
  have total (first second : FileName) : (decide (first ≤ second) || decide (second ≤ first)) = true := by
    simpa using List.le_total first second
  exact (List.pairwise_mergeSort transitive total names).imp of_decide_eq_true

-- Sorted names do not show in which order they came.
theorem mergeSort_eq_of_perm {first second : List FileName} (perm : first.Perm second) :
    first.mergeSort = second.mergeSort := by
  refine List.Perm.eq_of_pairwise (fun _ _ _ _ => List.le_antisymm) (pairwise_le_mergeSort first)
    (pairwise_le_mergeSort second) ?_
  exact (List.mergeSort_perm first _).trans (perm.trans (List.mergeSort_perm second _).symm)

theorem pairwise_lt_mergeSort {names : List FileName} (once : names.Nodup) :
    names.mergeSort.Pairwise (· < ·) := by
  have distinct : names.mergeSort.Nodup := (List.mergeSort_perm names _).nodup_iff.mpr once
  refine ((pairwise_le_mergeSort names).and distinct).imp fun ⟨within, apart⟩ => ?_
  exact Decidable.of_not_not fun beyond => apart (List.le_antisymm within (List.not_lt.mp beyond))

end Sorting

namespace Command

open Settings (documentName)

def jsonRead (path : Path) (read : Except Fault ByteArray) : Except Failure Json := do
  match (String.fromUTF8? (← bytesRead path maximumJsonSize read)).bind Json.parse? with
  | some value => .ok value
  | none => .error (.notJson path)

theorem run_readJson (path : Path) (world : World) :
    (readJson path : Step (StateM World) Json).run.run world =
      (jsonRead path (world.disk.read world.folder path), world) := by
  refine run_bind_of_same (run_readBytes path _ world) fun bytes => ?_
  cases (String.fromUTF8? bytes).bind Json.parse? <;> rfl

def documentRead (path : Path) (read : Except Fault ByteArray) : Except Failure Document := do
  let value ← jsonRead path read
  (Document.ofFlattened value).mapError (.document path)

theorem run_readDocument (path : Path) (world : World) :
    (readDocument path : Step (StateM World) Document).run.run world =
      (documentRead path (world.disk.read world.folder path), world) :=
  run_bind_of_same (run_readJson path world) fun _ => run_orFail _ _ world

section Runs
variable {world : World} {folder : Path}

def documentAt (world : World) (folder : Path) (version : String) : Except Failure Document :=
  documentRead (folder.join (documentName version))
    (world.disk.read world.folder (folder.join (documentName version)))

def documentsAt (world : World) (folder : Path) (versions : List String) :
    Except Failure (Ordered Document) :=
  versions.mapM fun version => (documentAt world folder version).map (version, ·)

theorem run_filterAuxM (names found : List FileName) :
    (names.filterAuxM (fun name => (Workspace.isFileIn folder name : StateM World Bool)) found :
      Step (StateM World) (List FileName)).run.run world =
      (.ok ((names.filter (world.isFileIn folder)).reverse ++ found), world) := by
  induction names generalizing found with
  | nil => rfl
  | cons name names ih =>
      have looks : (liftM (Workspace.isFileIn folder name : StateM World Bool) :
          Step (StateM World) Bool).run.run world = (.ok (world.isFileIn folder name), world) := rfl
      rw [List.filterAuxM, run_bind_of_ok looks, ih]
      cases isFile : world.isFileIn folder name <;> simp [isFile]

def filesAmong (world : World) (folder : Path) (names : List FileName) : List FileName :=
  (names.filter isDocumentName).filter (world.isFileIn folder)

theorem run_versionFiles (world : World) (folder : Path) (names : List FileName) :
    (versionFiles folder names : Step (StateM World) (List FileName)).run.run world =
      (if maximumVersions < (filesAmong world folder names).length then
        .error (.tooManyVersions (filesAmong world folder names).length)
      else .ok (filesAmong world folder names).mergeSort, world) := by
  have filters : (List.filterM (fun name => (Workspace.isFileIn folder name : StateM World Bool))
      (names.filter isDocumentName) : Step (StateM World) (List FileName)).run.run world =
        (.ok (filesAmong world folder names), world) := by
    rw [List.filterM, run_bind_of_ok (run_filterAuxM _ _), List.append_nil, List.reverse_reverse]
    rfl
  rw [versionFiles, run_bind_of_ok filters]
  split <;> rfl

theorem documentsAt_cons (version : String) (versions : List String) :
    documentsAt world folder (version :: versions) =
      (documentAt world folder version >>= fun document =>
        (documentsAt world folder versions).map ((version, document) :: ·)) := by
  have unfolds : documentsAt world folder (version :: versions) =
      ((documentAt world folder version).map (version, ·) >>= fun document =>
        documentsAt world folder versions >>= fun others => pure (document :: others)) :=
    List.mapM_cons
  rw [unfolds]
  cases documentAt world folder version with
  | error failure => rfl
  | ok document => cases documentsAt world folder versions <;> rfl

-- Versions that come once are registered one behind the other.
theorem run_readVersions {registry : Registry} {names : List FileName}
    (fresh : (registry.versions ++ names.filterMap versionOf?).Nodup) :
    (readVersions folder registry names : Step (StateM World) Registry).run.run world =
      ((documentsAt world folder (names.filterMap versionOf?)).map fun documents =>
        ⟨registry.defaultVersion, registry.documents ++ documents⟩, world) := by
  induction names generalizing registry with
  | nil =>
      have same : registry = ⟨registry.defaultVersion, registry.documents ++ []⟩ := by
        rw [List.append_nil]
      exact congrArg (fun registry => (Except.ok registry, world)) same
  | cons name names ih =>
      cases named : versionOf? name with
      | none =>
          rw [List.filterMap_cons_none named] at fresh ⊢
          simp only [readVersions, named]
          exact ih fresh
      | some version =>
          rw [List.filterMap_cons_some named] at fresh ⊢
          have absent : version ∉ registry.versions := by
            intro present
            exact (List.nodup_append.mp fresh).2.2 _ present _ List.mem_cons_self rfl
          have inserted (document : Document) : registry.insert version document =
              ⟨registry.defaultVersion, registry.documents ++ [(version, document)]⟩ := by
            rw [Registry.insert, Ordered.insert_of_notMem absent]
          have freshBehind (document : Document) :
              ((registry.insert version document).versions ++ names.filterMap versionOf?).Nodup := by
            simpa [inserted, Registry.versions] using fresh
          simp only [readVersions, named]
          refine (run_bind_of_same (run_readDocument _ world) fun document =>
            ih (freshBehind document)).trans (congrArg (·, world) ?_)
          rw [documentsAt_cons, documentAt]
          simp only [inserted]
          cases documentRead (folder.join (documentName version))
              (world.disk.read world.folder (folder.join (documentName version))) with
          | error failure => rfl
          | ok document =>
              cases documentsAt world folder (names.filterMap versionOf?) with
              | error failure => rfl
              | ok documents => simp [Except.map, bind, Except.bind]

-- What is loaded does not show in which order the names came.
theorem run_registryOf_of_perm {versions : Settings.Versions} {names listing : List FileName}
    (perm : names.Perm listing) :
    (registryOf versions names : Step (StateM World) Registry).run.run world =
      (registryOf versions listing : Step (StateM World) Registry).run.run world := by
  have files : (filesAmong world versions.folder names).Perm
      (filesAmong world versions.folder listing) := (perm.filter _).filter _
  have same : (versionFiles versions.folder names : Step (StateM World) (List FileName)).run.run world =
      (versionFiles versions.folder listing : Step (StateM World) (List FileName)).run.run world := by
    rw [run_versionFiles, run_versionFiles, files.length_eq, mergeSort_eq_of_perm files]
  rw [registryOf, registryOf, ExceptT.run_bind, ExceptT.run_bind, run_bind, run_bind, same]

theorem run_readRegistry (versions : Settings.Versions) (world : World) :
    (readRegistry versions : Step (StateM World) Registry).run.run world =
      match world.namesIn versions.folder with
      | .error fault => (.error (.versionsFolder versions.folder fault), world)
      | .ok listing => (registryOf versions listing : Step (StateM World) Registry).run.run world := by
  have looks : (liftM (Workspace.namesIn versions.folder : StateM World (Except Fault (List FileName))) :
      Step (StateM World) (Except Fault (List FileName))).run.run world =
        (.ok (world.namesIn versions.folder), world) := rfl
  rw [readRegistry, run_bind_of_ok looks]
  cases world.namesIn versions.folder <;> rfl

theorem isDocumentName_of_mem {names : List FileName} {name : FileName}
    (member : name ∈ filesAmong world folder names) : isDocumentName name = true :=
  (List.mem_filter.mp (List.mem_filter.mp member).1).2

-- Different files are of different versions.
theorem nodup_versions {files : List FileName} (once : files.Nodup)
    (documents : ∀ name ∈ files, isDocumentName name = true) :
    (files.filterMap versionOf?).Nodup := by
  refine List.pairwise_filterMap.mpr (once.imp_of_mem fun here there apart => ?_)
  rintro version named other namedOther rfl
  exact apart ((eq_documentName (documents _ here) named).trans
    (eq_documentName (documents _ there) namedOther).symm)

theorem run_registryOf {versions : Settings.Versions} {names : List FileName} (once : names.Nodup) :
    (registryOf versions names : Step (StateM World) Registry).run.run world =
      (if maximumVersions < (filesAmong world versions.folder names).length then
        .error (.tooManyVersions (filesAmong world versions.folder names).length)
      else (documentsAt world versions.folder
          ((filesAmong world versions.folder names).mergeSort.filterMap versionOf?)).map
        fun documents => ⟨versions.defaultVersion, documents⟩, world) := by
  have files := run_versionFiles world versions.folder names
  rw [registryOf]
  split at files
  · next many => rw [run_bind_of_error files, if_pos many]
  · next few =>
      have perm := List.mergeSort_perm (filesAmong world versions.folder names) (· ≤ ·)
      have fresh : ((filesAmong world versions.folder names).mergeSort.filterMap versionOf?).Nodup :=
        nodup_versions (perm.nodup_iff.mpr ((once.filter _).filter _))
          fun name member => isDocumentName_of_mem (perm.mem_iff.mp member)
      rw [run_bind_of_ok files, if_neg few]
      exact @run_readVersions world versions.folder (.empty versions.defaultVersion) _ fresh

end Runs

section Loading
variable {world : World} {versions : Settings.Versions} {place : Location}
  {listing : List FileName}

/-- Reading the document of a version, whose file a location holds, comes to a result. -/
def ReadsTo (world : World) (folder : Path) (place : Location) (version : String)
    (result : Except Failure Document) : Prop :=
  ∃ content, world.disk.entry? (place ++ [documentName version]) = some (.file content) ∧
    documentRead (folder.join (documentName version)) (.ok content) = result

/-- What loading the documents of some files comes to. Nothing is read of too many files, and
otherwise the first document that cannot be read is what is reported. -/
inductive Loads (world : World) (versions : Settings.Versions) (place : Location)
    (files : List FileName) : Except Failure Registry → Prop where
  | tooMany (many : maximumVersions < files.length) :
      Loads world versions place files (.error (.tooManyVersions files.length))
  | refused {before after : List FileName} {name : FileName} {version : String} {failure : Failure}
      (few : files.length ≤ maximumVersions) (cut : files = before ++ name :: after)
      (readable : ∀ earlier ∈ before, ∀ other ∈ versionOf? earlier,
        ∃ document, ReadsTo world versions.folder place other (.ok document))
      (named : versionOf? name = some version)
      (failed : ReadsTo world versions.folder place version (.error failure)) :
      Loads world versions place files (.error failure)
  | loaded {documents : Ordered Document} (few : files.length ≤ maximumVersions)
      (listed : Ordered.keys documents = files.filterMap versionOf?)
      (once : (Ordered.keys documents).Nodup)
      (each : ∀ entry ∈ documents, ReadsTo world versions.folder place entry.1 (.ok entry.2)) :
      Loads world versions place files (.ok ⟨versions.defaultVersion, documents⟩)

theorem documentsAt_eq_ok {folder : Path} {names : List String} {documents : Ordered Document}
    (read : documentsAt world folder names = .ok documents) : Ordered.keys documents = names ∧
      ∀ entry ∈ documents, documentAt world folder entry.1 = .ok entry.2 := by
  induction names generalizing documents with
  | nil => cases read; exact ⟨rfl, nofun⟩
  | cons version names ih =>
      rw [documentsAt_cons] at read
      obtain ⟨document, here, read⟩ := bind_eq_ok.mp read
      cases rest : documentsAt world folder names with
      | error failure => rw [rest] at read; cases read
      | ok others =>
          rw [rest] at read
          cases read
          obtain ⟨same, each⟩ := ih rest
          exact ⟨congrArg (version :: ·) same, List.forall_mem_cons.mpr ⟨here, each⟩⟩

theorem documentsAt_eq_error {folder : Path} {files : List FileName} {failure : Failure}
    (failed : documentsAt world folder (files.filterMap versionOf?) = .error failure) :
    ∃ before name after version, files = before ++ name :: after ∧ versionOf? name = some version ∧
      (∀ earlier ∈ before, ∀ other ∈ versionOf? earlier,
        ∃ document, documentAt world folder other = .ok document) ∧
      documentAt world folder version = .error failure := by
  induction files with
  | nil => cases failed
  | cons name files ih =>
      cases named : versionOf? name with
      | none =>
          rw [List.filterMap_cons_none named] at failed
          obtain ⟨before, other, after, version, rfl, namedOther, readable, refused⟩ := ih failed
          refine ⟨name :: before, other, after, version, rfl, namedOther, ?_, refused⟩
          refine List.forall_mem_cons.mpr ⟨fun version same => ?_, readable⟩
          rw [named] at same
          cases same
      | some version =>
          rw [List.filterMap_cons_some named, documentsAt_cons] at failed
          rcases bind_eq_error.mp failed with refused | ⟨document, read, failed⟩
          · exact ⟨[], name, files, version, rfl, named, nofun, refused⟩
          · have failed : documentsAt world folder (files.filterMap versionOf?) = .error failure := by
              cases rest : documentsAt world folder (files.filterMap versionOf?) with
              | error cause => rw [rest] at failed; exact failed
              | ok documents => rw [rest] at failed; cases failed
            obtain ⟨before, other, after, next, rfl, namedOther, readable, refused⟩ := ih failed
            refine ⟨name :: before, other, after, next, rfl, namedOther, ?_, refused⟩
            refine List.forall_mem_cons.mpr ⟨fun version same => ?_, readable⟩
            cases Option.mem_unique named same
            exact ⟨document, read⟩

theorem mem_filesAmong (lists : world.Lists versions.folder place listing) (tidy : world.Tidy)
    {name : FileName} : name ∈ filesAmong world versions.folder listing ↔
      isDocumentName name = true ∧ world.HoldsFile place name ∧ versions.folder.HasRoom name := by
  rw [filesAmong, List.mem_filter, List.mem_filter, ← lists.mem_and_isFileIn_iff tidy]
  tauto

-- The path of a document leads to its file.
theorem readsTo_iff (lists : world.Lists versions.folder place listing) (tidy : world.Tidy)
    {name : FileName} {version : String} {result : Except Failure Document}
    (member : name ∈ filesAmong world versions.folder listing) (named : versionOf? name = some version) :
    ReadsTo world versions.folder place version result ↔
      documentAt world versions.folder version = result := by
  obtain ⟨document, held, room⟩ := (mem_filesAmong lists tidy).mp member
  cases eq_documentName document named
  obtain ⟨content, file⟩ := World.holdsFile_ofText.mp held
  rw [documentAt, lists.read_join tidy file room, ReadsTo, file]
  constructor
  · rintro ⟨_, ⟨⟩, same⟩
    exact same
  · exact fun same => ⟨content, rfl, same⟩

theorem ReadsTo.unique {folder : Path} {version : String} {first second : Except Failure Document}
    (read : ReadsTo world folder place version first)
    (other : ReadsTo world folder place version second) : first = second := by
  obtain ⟨content, file, rfl⟩ := read
  obtain ⟨_, fileOther, rfl⟩ := other
  cases file.symm.trans fileOther
  rfl

theorem exists_loads (lists : world.Lists versions.folder place listing) (tidy : world.Tidy) :
    ∃ result, Loads world versions place (filesAmong world versions.folder listing).mergeSort result ∧
      (registryOf versions listing : Step (StateM World) Registry).run.run world =
        (result, world) := by
  have perm := List.mergeSort_perm (filesAmong world versions.folder listing) (· ≤ ·)
  have once : (filesAmong world versions.folder listing).mergeSort.Nodup :=
    perm.nodup_iff.mpr (((lists.nodup tidy).filter _).filter _)
  have documentNames : ∀ name ∈ (filesAmong world versions.folder listing).mergeSort,
      isDocumentName name = true := fun name member => isDocumentName_of_mem (perm.mem_iff.mp member)
  have reads {name : FileName} {version : String} {result : Except Failure Document}
      (member : name ∈ (filesAmong world versions.folder listing).mergeSort)
      (named : versionOf? name = some version) :
      ReadsTo world versions.folder place version result ↔
        documentAt world versions.folder version = result :=
    readsTo_iff lists tidy (perm.mem_iff.mp member) named
  rw [run_registryOf (lists.nodup tidy), ← perm.length_eq]
  refine ⟨_, ?_, rfl⟩
  split
  · next many => exact .tooMany many
  · next few =>
      cases read : documentsAt world versions.folder
          ((filesAmong world versions.folder listing).mergeSort.filterMap versionOf?) with
      | error failure =>
          obtain ⟨before, name, after, version, cut, named, readable, failed⟩ := documentsAt_eq_error read
          have member {earlier : FileName} (early : earlier ∈ before) :
              earlier ∈ (filesAmong world versions.folder listing).mergeSort := by
            rw [cut]
            exact List.mem_append_left _ early
          refine .refused (Nat.not_lt.mp few) cut (fun earlier early other namedOther => ?_) named ?_
          · obtain ⟨document, read⟩ := readable earlier early other namedOther
            exact ⟨document, (reads (member early) namedOther).mpr read⟩
          · exact (reads (by rw [cut]; simp) named).mpr failed
      | ok documents =>
          obtain ⟨listed, each⟩ := documentsAt_eq_ok read
          refine .loaded (Nat.not_lt.mp few) listed ?_ fun entry held => ?_
          · rw [listed]
            exact nodup_versions once documentNames
          · have version : entry.1 ∈ Ordered.keys documents := List.mem_map_of_mem held
            rw [listed] at version
            obtain ⟨name, member, named⟩ := List.mem_filterMap.mp version
            exact (reads member named).mpr (each entry held)

theorem Loads.isOk_iff {files : List FileName} {result : Except Failure Registry}
    (loads : Loads world versions place files result) : result.isOk = true ↔
      files.length ≤ maximumVersions ∧ ∀ name ∈ files, ∀ version ∈ versionOf? name,
        ∃ document, ReadsTo world versions.folder place version (.ok document) := by
  cases loads with
  | tooMany many => exact iff_of_false Bool.false_ne_true fun few => Nat.not_le.mpr many few.1
  | refused few cut readable named failed =>
      refine iff_of_false Bool.false_ne_true fun ⟨_, every⟩ => ?_
      obtain ⟨document, read⟩ := every _ (by simp [cut]) _ named
      cases failed.unique read
  | loaded few listed once each =>
      refine iff_of_true rfl ⟨few, fun name member version named => ?_⟩
      have version : version ∈ files.filterMap versionOf? :=
        List.mem_filterMap.mpr ⟨name, member, named⟩
      rw [← listed] at version
      obtain ⟨⟨_, document⟩, held, rfl⟩ := List.mem_map.mp version
      exact ⟨document, each _ held⟩

/-- A path that stays in the folder it begins in some times before it leads to a name. -/
def roundabout (times : Nat) (name : String) : Path :=
  ⟨String.ofList ((List.replicate times ['.', '/']).flatten ++ name.toList)⟩

section NoRoom
variable {name : String}

theorem toList_roundabout (times : Nat) (name : String) : (roundabout times name).text.toList =
    (List.replicate times ['.', '/']).flatten ++ name.toList :=
  String.toList_ofList

theorem parts_roundabout (slashless : '/' ∉ name.toList) (times : Nat) :
    (roundabout times name).parts = List.replicate times "." ++ [name] := by
  have cut : Text.splitAt '/' ((List.replicate times ['.', '/']).flatten ++ name.toList) =
      List.replicate times ['.'] ++ [name.toList] := by
    induction times with
    | zero => exact Text.splitAt_of_notMem slashless
    | succ times ih =>
        have first := Text.splitAt_append '/' ['.']
          ((List.replicate times ['.', '/']).flatten ++ name.toList)
        rw [ih] at first
        simpa [List.replicate_succ, Text.splitAt] using first
  rw [Path.parts, toList_roundabout, cut]
  simp

theorem size_roundabout (times : Nat) (name : String) :
    (roundabout times name).text.utf8ByteSize = 2 * times + name.utf8ByteSize := by
  rw [roundabout, Text.utf8ByteSize_ofList, Text.utf8Size_append, Text.utf8Size_toList]
  congr 1
  induction times with
  | zero => rfl
  | succ times ih =>
      have pair : Text.utf8Size ['.', '/'] = 2 := rfl
      rw [List.replicate_succ, List.flatten_cons, Text.utf8Size_append, ih, pair]
      omega

theorem checkPath_roundabout (isName : Path.IsName name) {times : Nat}
    (short : 2 * times + name.utf8ByteSize < pathSizeBound) :
    Disk.checkPath (roundabout times name) = .ok () := by
  rw [Disk.checkPath_eq_ok, size_roundabout, toList_roundabout]
  refine ⟨?_, fun empty => ?_, short⟩
  · simpa [List.mem_flatten, List.mem_replicate] using isName.noNul
  · have named : name ≠ "" := by
      rintro rfl
      exact absurd isName.busy (by decide)
    have nothing := congrArg String.toList empty
    simp [toList_roundabout, named] at nothing

theorem isAbsolute_roundabout (slashless : '/' ∉ name.toList) (times : Nat) :
    (roundabout times name).isAbsolute = false := by
  refine Bool.eq_false_iff.mpr fun absolute => ?_
  obtain ⟨rest, starts⟩ := Path.isAbsolute_iff.mp absolute
  rw [toList_roundabout] at starts
  cases times with
  | zero => exact slashless (by simp at starts; simp [starts])
  | succ times => simp [List.replicate_succ] at starts

theorem foldlM_follow_dots {disk : Disk} {folder : Location}
    (inFolder : disk.entry? folder = some .folder) (times : Nat) :
    (List.replicate times ".").foldlM disk.follow folder = .ok folder := by
  induction times with
  | zero => rfl
  | succ times ih =>
      have step : disk.follow folder "." = .ok folder := by
        simp [Disk.follow, inFolder, Path.isIdle]
      rw [List.replicate_succ, List.foldlM_cons, step]
      exact ih

theorem locate_roundabout {disk : Disk} {folder : Location}
    (inFolder : disk.entry? folder = some .folder) (isName : Path.IsName name) {times : Nat}
    (short : 2 * times + name.utf8ByteSize < pathSizeBound) :
    disk.locate folder (roundabout times name) = .ok (folder ++ [name]) := by
  have start : Disk.startOf folder (roundabout times name) = folder := by
    rw [Disk.startOf, isAbsolute_roundabout isName.slashless]
    rfl
  have followed : (roundabout times name).parts.foldlM disk.follow folder = .ok (folder ++ [name]) := by
    rw [parts_roundabout isName.slashless, List.foldlM_append, foldlM_follow_dots inFolder]
    exact congrArg (· >>= pure) (Disk.follow_of_folder inFolder isName)
  rw [Disk.locate, checkPath_roundabout isName short, start]
  exact followed

-- A folder with a path that leaves no room for a document is taken for one without documents.
theorem readRegistry_of_noRoom (tidy : world.Tidy) (listed : world.namesIn versions.folder = .ok listing)
    (long : pathSizeBound ≤ versions.folder.text.utf8ByteSize + 6) :
    (readRegistry versions : Step (StateM World) Registry).run.run world =
      (.ok (.empty versions.defaultVersion), world) := by
  obtain ⟨place, lists⟩ := World.exists_lists listed
  have none : filesAmong world versions.folder listing = [] := by
    refine List.eq_nil_iff_forall_not_mem.mpr fun name member => ?_
    obtain ⟨document, -, room⟩ := (mem_filesAmong lists tidy).mp member
    obtain ⟨stem, filled, rfl⟩ := isDocumentName_iff.mp document
    have longer := versions.folder.size_le_join
    have extension : (FileName.ofText ".json").length = 5 := by decide
    have stemSize := List.length_pos_of_ne_nil filled
    rw [Path.HasRoom, List.length_append, extension] at room
    omega
  rw [run_readRegistry, listed]
  dsimp only
  rw [run_registryOf (lists.nodup tidy), none, List.mergeSort_nil]
  rfl

end NoRoom

/-- What is loaded from a folder of versions is settled by the files in it, in whatever order they
are listed: each regular file with the extension `json` to which a path can be written is the
document of one version, its stem, and is read unless the stem is no text. -/
theorem registryOf_anyOrder (versions : Settings.Versions) {world : World} (tidy : world.Tidy) :
    (∀ fault, world.namesIn versions.folder = .error fault →
      (readRegistry versions : Step (StateM World) Registry).run.run world =
        (.error (.versionsFolder versions.folder fault), world)) ∧
    ∀ listing, world.namesIn versions.folder = .ok listing → ∃ place files result,
      world.disk.locate world.folder versions.folder = .ok place ∧
      files.Pairwise (· < ·) ∧
      (∀ name, name ∈ files ↔ isDocumentName name = true ∧ world.HoldsFile place name ∧
        versions.folder.HasRoom name) ∧
      Loads world versions place files result ∧
      (result.isOk = true ↔ files.length ≤ maximumVersions ∧
        ∀ name ∈ files, ∀ version ∈ versionOf? name,
          ∃ document, ReadsTo world versions.folder place version (.ok document)) ∧
      (readRegistry versions : Step (StateM World) Registry).run.run world = (result, world) ∧
      ∀ names, names.Perm listing →
        (registryOf versions names : Step (StateM World) Registry).run.run world =
          (result, world) := by
  refine ⟨fun fault unlisted => ?_, fun listing listed => ?_⟩
  · rw [run_readRegistry, unlisted]
  · obtain ⟨place, lists⟩ := World.exists_lists listed
    obtain ⟨result, loads, ran⟩ := exists_loads lists tidy
    refine ⟨place, _, result, lists.located, ?_, ?_, loads, loads.isOk_iff, ?_, fun names perm => ?_⟩
    · exact pairwise_lt_mergeSort (((lists.nodup tidy).filter _).filter _)
    · intro name
      rw [(List.mergeSort_perm _ _).mem_iff]
      exact mem_filesAmong lists tidy
    · rw [run_readRegistry, listed]
      exact ran
    · rw [run_registryOf_of_perm perm]
      exact ran

def sampleVersions : World where
  disk := ⟨[(["versions"], .folder), (["versions", "b.json"], .file "\x7b\"features\":\x7b\x7d\x7d".toUTF8),
    (["versions", "a.json"], .file "\x7b\"features\":\x7b\x7d\x7d".toUTF8),
    (["versions", "notes.txt"], .file .empty), (["versions", "old.json"], .folder)]⟩
  folder := []
  strays := [(["versions"], ⟨0xff :: FileName.ofText ".json", by decide +kernel⟩)]

theorem registryOf_anyOrder_sample : sampleVersions.Tidy ∧
    ∃ listing result, sampleVersions.namesIn ⟨"versions"⟩ = .ok listing ∧ 5 ≤ listing.length ∧
      (readRegistry {} : Step (StateM World) Registry).run.run sampleVersions =
        (result, sampleVersions) ∧
      (registryOf {} listing.reverse : Step (StateM World) Registry).run.run sampleVersions =
        (result, sampleVersions) := by
  have tidy : sampleVersions.Tidy := by decide +kernel
  have listed : ∃ listing, sampleVersions.namesIn ⟨"versions"⟩ = .ok listing ∧ 5 ≤ listing.length :=
    ⟨_, rfl, by decide +kernel⟩
  obtain ⟨listing, listed, many⟩ := listed
  obtain ⟨-, settled⟩ := registryOf_anyOrder {} tidy
  obtain ⟨place, files, result, -, -, -, -, -, ran, ordered⟩ := settled listing listed
  exact ⟨tidy, listing, result, listed, many, ran, ordered _ listing.reverse_perm⟩

/-- Settings with the longest path of a folder of versions that leads to `versions` this way. -/
def hiddenSettings : Settings.Versions :=
  { folder := roundabout 2043 "versions" }

def oneVersion : World where
  disk := ⟨[(["versions"], .folder), (["versions", "a.json"], .file "\x7b\"features\":\x7b\x7d\x7d".toUTF8)]⟩
  folder := []

-- The document is there and can be read, and its folder is one that can be listed.
theorem registryOf_hidden : oneVersion.HoldsFile ["versions"] (.ofText "a.json") ∧
    versionOf? (.ofText "a.json") = some "a" ∧
    (∃ document, ReadsTo oneVersion hiddenSettings.folder ["versions"] "a" (.ok document)) ∧
    oneVersion.disk.locate [] hiddenSettings.folder = .ok ["versions"] ∧
    (readRegistry hiddenSettings : Step (StateM World) Registry).run.run oneVersion =
      (.ok (.empty hiddenSettings.defaultVersion), oneVersion) := by
  have located : oneVersion.disk.locate [] hiddenSettings.folder = .ok ["versions"] :=
    locate_roundabout rfl (by decide) (by decide)
  have listed : oneVersion.namesIn hiddenSettings.folder = .ok [FileName.ofText "a.json"] := by
    have names : oneVersion.disk.names [] hiddenSettings.folder = .ok ["a.json"] := by
      rw [Disk.names, located]
      rfl
    rw [World.namesIn, show oneVersion.folder = [] from rfl, names, located]
    rfl
  have readable : (documentRead (hiddenSettings.folder.join "a.json")
      (.ok "\x7b\"features\":\x7b\x7d\x7d".toUTF8)).isOk = true := by decide +kernel
  refine ⟨.text rfl, by decide +kernel, ?_, located, ?_⟩
  · obtain ⟨document, read⟩ := isOk_iff.mp readable
    exact ⟨document, _, rfl, read⟩
  · refine readRegistry_of_noRoom (by decide +kernel) listed ?_
    rw [show hiddenSettings.folder = roundabout 2043 "versions" from rfl, size_roundabout]
    decide

end Loading

end Command

end Toggles
