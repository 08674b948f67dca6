import Toggles.Proofs.VersionFiles

/-! The files that the names of versions lead to.

A version is named by whoever asks for it, and its name becomes that of a file. The check of
the name keeps the file in the folder of versions, and what loads the folder takes the file for
the same version again.
-/

set_option autoImplicit false

namespace Toggles

namespace Settings

@[mk_iff]
structure IsVersionName (name : String) : Prop where
  filled : Text.isAllBlank name.toList = false
  short : name.utf8ByteSize ≤ maximumVersionSize
  slashless : '/' ∉ name.toList
  noBackslash : '\\' ∉ name.toList
  notDot : name ≠ "."
  notDots : name ≠ ".."

variable {field name : String} {versions : Versions} {path : Path}

theorem checkVersion_eq_ok : checkVersion field name = .ok () ↔ IsVersionName name := by
  unfold checkVersion
  split
  · next blank => exact iff_of_false nofun fun isName => by simp [isName.filled] at blank
  split
  · next long => exact iff_of_false nofun fun isName => Nat.not_lt.mpr isName.short long
  split
  · next separators =>
      refine iff_of_false nofun fun isName => ?_
      simp only [Bool.or_eq_true, List.any_eq_true, beq_iff_eq] at separators
      rcases separators with (⟨c, member, rfl | rfl⟩ | dot) | dots
      · exact isName.slashless member
      · exact isName.noBackslash member
      · exact isName.notDot dot
      · exact isName.notDots dots
  · next blank long separators =>
      simp only [Bool.or_eq_true, List.any_eq_true, beq_iff_eq, not_or] at separators
      obtain ⟨⟨plain, notDot⟩, notDots⟩ := separators
      exact iff_of_true rfl ⟨Bool.eq_false_iff.mpr blank, Nat.not_lt.mp long,
        fun slash => plain ⟨_, slash, .inl rfl⟩, fun slash => plain ⟨_, slash, .inr rfl⟩, notDot, notDots⟩

theorem not_isVersionName_iff : ¬IsVersionName name ↔
    Text.isAllBlank name.toList = true ∨ maximumVersionSize < name.utf8ByteSize ∨
      '/' ∈ name.toList ∨ '\\' ∈ name.toList ∨ name = "." ∨ name = ".." := by
  rw [isVersionName_iff, ← Nat.not_le, ← Bool.not_eq_false]
  tauto

theorem documentPath_eq_ok : versions.documentPath name = .ok path ↔
    IsVersionName name ∧ versions.folder.join (documentName name) = path := by
  rw [← @checkVersion_eq_ok "version", Versions.documentPath, bind_eq_ok]
  constructor
  · rintro ⟨_, checked, ⟨⟩⟩
    exact ⟨checked, rfl⟩
  · rintro ⟨checked, rfl⟩
    exact ⟨_, checked, rfl⟩

theorem size_documentName : (documentName name).utf8ByteSize = name.utf8ByteSize + 5 := by
  rw [documentName, String.utf8ByteSize_append]
  rfl

theorem IsVersionName.ne_empty (isName : IsVersionName name) : name ≠ "" := by
  rintro rfl
  exact absurd isName.filled (by decide)

-- The extension makes a name longer than those that lead elsewhere.
theorem documentName_ne {other : String} (short : other.utf8ByteSize < 5) : documentName name ≠ other := by
  rintro rfl
  rw [size_documentName] at short
  omega

theorem isIdle_documentName : Path.isIdle (documentName name) = false := by
  have filled : documentName name ≠ "" := documentName_ne (by decide)
  have notDot : documentName name ≠ "." := documentName_ne (by decide)
  simp [Path.isIdle, filled, notDot]

theorem notMem_documentName {c : Char} (absent : c ∉ name.toList) (other : c ∉ ".json".toList) :
    c ∉ (documentName name).toList := by
  rw [documentName, String.toList_append, List.mem_append, not_or]
  exact ⟨absent, other⟩

theorem IsVersionName.components_join (isName : IsVersionName name) (folder : Path) :
    (folder.join (documentName name)).components = folder.components ++ [documentName name] :=
  Path.components_join folder isIdle_documentName
    (notMem_documentName isName.slashless (by decide))

theorem documentName_injective {other : String} (same : documentName name = documentName other) :
    name = other := by
  have texts := congrArg String.toList same
  simp only [documentName, String.toList_append, List.append_cancel_right_eq] at texts
  exact String.toList_inj.mp texts

end Settings

namespace Command

open Settings (IsVersionName documentName)

variable {name : String} {versions : Settings.Versions} {world : World} {registry : Registry}

theorem isName_documentName (isName : IsVersionName name) (noNul : '\x00' ∉ name.toList) :
    Path.IsName (documentName name) where
  busy := Settings.isIdle_documentName
  down := Settings.documentName_ne (by decide)
  slashless := Settings.notMem_documentName isName.slashless (by decide)
  noNul := Settings.notMem_documentName noNul (by decide)
  short := by
    have short := isName.short
    rw [Settings.size_documentName]
    simp only [Settings.maximumVersionSize, maximumNameSize] at *
    omega

theorem mem_filesAmong_documentName {place : Location} {listing : List FileName}
    (lists : world.Lists versions.folder place listing) (isName : IsVersionName name)
    (isFile : world.disk.isFile world.folder (versions.folder.join (documentName name)) = true) :
    FileName.ofText (documentName name) ∈ filesAmong world versions.folder listing := by
  have noNul : '\x00' ∉ name.toList := by
    have noNul := Disk.noNul_of_isFile isFile
    rw [Path.text_join, documentName] at noNul
    simp only [String.toList_append, List.mem_append, not_or] at noNul
    exact noNul.2.1
  have seen : world.isFileIn versions.folder (.ofText (documentName name)) = true := by
    simpa [World.isFileIn, FileName.text?_ofText] using isFile
  obtain ⟨⟨content, file⟩, -⟩ :=
    (lists.isFileIn_ofText (isName_documentName isName noNul)).mp seen
  have listed : FileName.ofText (documentName name) ∈ listing :=
    lists.mem_iff.mpr (.inl ⟨_, _, World.mem_entries_of_found (by simp) file, rfl⟩)
  have document := isDocumentName_documentName.mpr isName.ne_empty
  exact List.mem_filter.mpr ⟨List.mem_filter.mpr ⟨listed, document⟩, seen⟩

-- What is loaded of a folder has the document of a version whose file is there.
theorem registered?_of_isFile (tidy : world.Tidy) (isName : IsVersionName name)
    (isFile : world.disk.isFile world.folder (versions.folder.join (documentName name)) = true)
    (loaded : ((readRegistry versions : Step (StateM World) Registry).run.run world).1 =
      .ok registry) :
    ∃ document, registry.registered? name = some document ∧
      documentAt world versions.folder name = .ok document := by
  cases listed : world.namesIn versions.folder with
  | error fault =>
      rw [run_readRegistry, listed] at loaded
      cases loaded
  | ok listing =>
      obtain ⟨place, lists⟩ := World.exists_lists listed
      obtain ⟨result, loads, ran⟩ := exists_loads lists tidy
      rw [run_readRegistry, listed] at loaded
      dsimp only at loaded
      rw [ran] at loaded
      cases loaded
      cases loads with
      | @loaded documents few listed once each =>
          have member := mem_filesAmong_documentName lists isName isFile
          have named := versionOf?_documentName isName.ne_empty
          have version : name ∈ Ordered.keys documents := by
            rw [listed]
            exact List.mem_filterMap.mpr ⟨_, (List.mergeSort_perm _ _).mem_iff.mpr member, named⟩
          obtain ⟨⟨_, document⟩, held, rfl⟩ := List.mem_map.mp version
          exact ⟨document, Ordered.get?_of_mem once held,
            (readsTo_iff lists tidy member named).mp (each _ held)⟩

theorem isOk_documentPath : (versions.documentPath name).isOk = true ↔ IsVersionName name := by
  rw [isOk_iff]
  constructor
  · rintro ⟨path, given⟩
    exact (Settings.documentPath_eq_ok.mp given).1
  · exact fun isName => ⟨_, Settings.documentPath_eq_ok.mpr ⟨isName, rfl⟩⟩

/-- A version with a name that is accepted has its document one name below the folder of versions,
and none with a name that is refused has one. The name of the file says which version it is of. -/
theorem documentPath_of_name (versions : Settings.Versions) (name : String) :
    ((versions.documentPath name).isOk = false ↔
      Text.isAllBlank name.toList = true ∨ Settings.maximumVersionSize < name.utf8ByteSize ∨
        '/' ∈ name.toList ∨ '\\' ∈ name.toList ∨ name = "." ∨ name = "..") ∧
    ∀ path, versions.documentPath name = .ok path →
      path.components = versions.folder.components ++ [documentName name] ∧
      documentName name ≠ "." ∧ documentName name ≠ ".." ∧
      '/' ∉ (documentName name).toList ∧ '\\' ∉ (documentName name).toList ∧
      (FileName.ofText (documentName name)).splitExtension =
        (.ofText name, some (.ofText "json")) ∧
      versionOf? (.ofText (documentName name)) = some name ∧
      (∀ other, versions.documentPath other = .ok path → other = name) ∧
      ∀ (world : World) registry, world.Tidy → world.disk.isFile world.folder path = true →
        ((readRegistry versions : Step (StateM World) Registry).run.run world).1 = .ok registry →
          ∃ document, registry.registered? name = some document ∧
            documentRead path (world.disk.read world.folder path) = .ok document := by
  constructor
  · rw [← Bool.not_eq_true, isOk_documentPath, Settings.not_isVersionName_iff]
  · intro path given
    obtain ⟨isName, rfl⟩ := Settings.documentPath_eq_ok.mp given
    refine ⟨isName.components_join versions.folder, Settings.documentName_ne (by decide),
      Settings.documentName_ne (by decide), Settings.notMem_documentName isName.slashless (by decide),
      Settings.notMem_documentName isName.noBackslash (by decide),
      splitExtension_documentName isName.ne_empty, versionOf?_documentName isName.ne_empty, ?_, ?_⟩
    · intro other givenOther
      obtain ⟨isOther, same⟩ := Settings.documentPath_eq_ok.mp givenOther
      have components := isOther.components_join versions.folder
      rw [same, isName.components_join versions.folder] at components
      exact (Settings.documentName_injective (by simpa using components)).symm
    · exact fun world registry tidy isFile loaded => registered?_of_isFile tidy isName isFile loaded

-- The names are sorted by a recursion that does not compute in a proof, so one name is taken.
theorem exists_registry_oneVersion : ∃ registry,
    ((readRegistry {} : Step (StateM World) Registry).run.run oneVersion).1 = .ok registry := by
  have listed : oneVersion.namesIn ⟨"versions"⟩ = .ok [.ofText "a.json"] := rfl
  have files : filesAmong oneVersion ⟨"versions"⟩ [.ofText "a.json"] = [.ofText "a.json"] := by
    decide +kernel
  have named : [FileName.ofText "a.json"].filterMap versionOf? = ["a"] := by decide +kernel
  have readable : (documentsAt oneVersion ⟨"versions"⟩ ["a"]).isOk = true := by decide +kernel
  obtain ⟨documents, read⟩ := isOk_iff.mp readable
  refine ⟨⟨"enterprise", documents⟩, ?_⟩
  rw [run_readRegistry, listed]
  dsimp only
  rw [run_registryOf (List.nodup_singleton _), files, List.mergeSort_singleton, named, read]
  rfl

theorem documentPath_of_name_sample :
    oneVersion.Tidy ∧ Settings.Versions.documentPath {} "a" = .ok ⟨"versions/a.json"⟩ ∧
      (⟨"versions/a.json"⟩ : Path).components =
        (⟨"versions"⟩ : Path).components ++ [documentName "a"] ∧
      ∃ registry document,
        ((readRegistry {} : Step (StateM World) Registry).run.run oneVersion).1 = .ok registry ∧
          registry.registered? "a" = some document := by
  have tidy : oneVersion.Tidy := by decide +kernel
  have given : Settings.Versions.documentPath {} "a" = .ok ⟨"versions/a.json"⟩ := by rfl
  obtain ⟨registry, loaded⟩ := exists_registry_oneVersion
  obtain ⟨components, -, -, -, -, -, -, -, registers⟩ := (documentPath_of_name {} "a").2 _ given
  obtain ⟨document, registered, -⟩ := registers oneVersion registry tidy (by decide +kernel) loaded
  exact ⟨tidy, given, components, registry, document, loaded, registered⟩

end Command

end Toggles
