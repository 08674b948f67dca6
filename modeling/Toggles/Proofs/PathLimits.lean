import Toggles.Proofs.Components
import Toggles.Proofs.Success
import Toggles.Proofs.Tags
import Toggles.Settings.Check

/-! The limits on the paths of settings.

What is checked is a path without the white space around it, and what is kept and opened is the
path with it. The check finds out exactly whether the trimmed paths are within the limits, so
a path that is kept may go beyond them by the white space around it.
-/

set_option autoImplicit false

namespace Toggles

namespace Text

variable {before text after : List Char} {separator : Char}

-- What trimming takes away is white space on both sides.
theorem exists_trim (text : List Char) : ∃ before after, text = before ++ trim text ++ after ∧
    (∀ c ∈ before, isBlank c = true) ∧ ∀ c ∈ after, isBlank c = true := by
  let behind := (trimStart text).reverse.takeWhile isBlank
  have back : trim text ++ behind.reverse = trimStart text := by
    rw [trim, trimEnd, ← List.reverse_append, List.takeWhile_append_dropWhile, List.reverse_reverse]
  refine ⟨text.takeWhile isBlank, behind.reverse, ?_, fun c => List.mem_takeWhile_imp, fun c here => ?_⟩
  · rw [List.append_assoc, back, trimStart, List.takeWhile_append_dropWhile]
  · exact List.mem_takeWhile_imp (List.mem_reverse.mp here)

theorem trim_eq_nil_iff : trim text = [] ↔ isAllBlank text = true := by
  constructor
  · intro empty
    obtain ⟨before, after, same, blankBefore, blankAfter⟩ := exists_trim text
    rw [empty, List.append_nil] at same
    exact List.all_eq_true.mpr (same ▸ List.forall_mem_append.mpr ⟨blankBefore, blankAfter⟩)
  · exact fun blank => trim_of_blank (List.all_eq_true.mp blank)

theorem isAllBlank_trim (text : List Char) : isAllBlank (trim text) = (trim text).isEmpty := by
  rw [Bool.eq_iff_iff, List.isEmpty_iff, trim_eq_nil_iff]
  obtain ⟨before, after, same, blankBefore, blankAfter⟩ := exists_trim text
  constructor
  · intro blank
    rw [same]
    exact List.all_eq_true.mpr (List.forall_mem_append.mpr
      ⟨List.forall_mem_append.mpr ⟨blankBefore, List.all_eq_true.mp blank⟩, blankAfter⟩)
  · intro blank
    rw [trim_eq_nil_iff.mpr blank]
    rfl

theorem slash_notMem_of_blank (blank : ∀ c ∈ text, isBlank c = true) : '/' ∉ text :=
  fun slash => absurd (blank '/' slash) (by decide)

-- A text without the separator becomes a piece of the first part that follows it.
theorem splitAt_behind (absent : separator ∉ before) (text : List Char) :
    ∃ first rest, splitAt separator text = first :: rest ∧
      splitAt separator (before ++ text) = (before ++ first) :: rest := by
  obtain ⟨first, rest, parts⟩ := List.exists_cons_of_ne_nil (splitAt_ne_nil separator text)
  refine ⟨first, rest, parts, ?_⟩
  induction before with
  | nil => exact parts
  | cons c before ih =>
      obtain ⟨other, absent⟩ := not_or.mp (mt List.mem_cons.mpr absent)
      simp [splitAt, ih absent, Ne.symm other]

-- And one behind a text a piece of the last part.
theorem splitAt_before (absent : separator ∉ after) (text : List Char) :
    ∃ front last, splitAt separator text = front ++ [last] ∧
      splitAt separator (text ++ after) = front ++ [last ++ after] := by
  induction text with
  | nil => exact ⟨[], [], rfl, splitAt_of_notMem absent⟩
  | cons c text ih =>
      obtain ⟨front, last, parts, longer⟩ := ih
      by_cases same : c = separator
      · refine ⟨[] :: front, last, ?_, ?_⟩
        · cases front <;> simp [splitAt, parts, same]
        · cases front <;> simp [splitAt, longer, same]
      · cases front with
        | nil => exact ⟨[], c :: last, by simp [splitAt, parts, same], by simp [splitAt, longer, same]⟩
        | cons first front =>
            exact ⟨(c :: first) :: front, last, by simp [splitAt, parts, same],
              by simp [splitAt, longer, same]⟩

-- White space around a text lengthens its parts by no more than itself.
theorem size_of_mem_splitAt_padded (absentBefore : separator ∉ before)
    (absentAfter : separator ∉ after) {limit : Nat}
    (within : ∀ part ∈ splitAt separator text, utf8Size part ≤ limit) :
    ∀ part ∈ splitAt separator (before ++ text ++ after),
      utf8Size part ≤ limit + (utf8Size before + utf8Size after) := by
  obtain ⟨first, rest, parts, padded⟩ := splitAt_behind absentBefore text
  have behind : ∀ part ∈ splitAt separator (before ++ text), utf8Size part ≤ limit + utf8Size before := by
    rw [parts] at within
    rw [padded]
    obtain ⟨short, others⟩ := List.forall_mem_cons.mp within
    refine List.forall_mem_cons.mpr ⟨?_, fun part member => ?_⟩
    · rw [utf8Size_append]
      omega
    · exact (others part member).trans (Nat.le_add_right _ _)
  obtain ⟨front, last, cut, longer⟩ := splitAt_before absentAfter (before ++ text)
  rw [cut] at behind
  rw [longer]
  obtain ⟨others, short⟩ := List.forall_mem_append.mp behind
  refine List.forall_mem_append.mpr ⟨fun part member => ?_, List.forall_mem_singleton.mpr ?_⟩
  · have := others part member
    omega
  · have := short last (List.mem_singleton_self last)
    rw [utf8Size_append]
    omega

end Text

namespace Path

def trimmed (path : Path) : Path :=
  ⟨String.ofList (Text.trim path.text.toList)⟩

def padding (path : Path) : Nat :=
  path.text.utf8ByteSize - path.trimmed.text.utf8ByteSize

/-- A path that is not blank, and that goes beyond the limits by no more than some bytes. -/
structure Within (excess : Nat) (path : Path) : Prop where
  filled : Text.isAllBlank path.text.toList = false
  size : path.text.utf8ByteSize ≤ Settings.maximumPathSize + excess
  components : ∀ name ∈ path.components, name.utf8ByteSize ≤ Settings.maximumComponentSize + excess

variable {path : Path}

theorem forall_parts_size {limit : Nat} : (∀ part ∈ path.parts, part.utf8ByteSize ≤ limit) ↔
    ∀ part ∈ Text.splitAt '/' path.text.toList, Text.utf8Size part ≤ limit := by
  simp [parts, Text.utf8ByteSize_ofList]

theorem within_iff {excess : Nat} : path.Within excess ↔
    Text.isAllBlank path.text.toList = false ∧
      Text.utf8Size path.text.toList ≤ Settings.maximumPathSize + excess ∧
      ∀ part ∈ Text.splitAt '/' path.text.toList,
        Text.utf8Size part ≤ Settings.maximumComponentSize + excess := by
  have positive : 0 < Settings.maximumComponentSize + excess := Nat.add_pos_left (by decide) excess
  rw [Text.utf8Size_toList, ← forall_parts_size, ← forall_components_size positive]
  exact ⟨fun within => ⟨within.filled, within.size, within.components⟩,
    fun ⟨filled, size, components⟩ => ⟨filled, size, components⟩⟩

instance (excess : Nat) (path : Path) : Decidable (path.Within excess) :=
  decidable_of_iff _ within_iff.symm

theorem Within.padded (within : path.trimmed.Within 0) : path.Within path.padding := by
  obtain ⟨before, after, same, blankBefore, blankAfter⟩ := Text.exists_trim path.text.toList
  have text : path.trimmed.text.toList = Text.trim path.text.toList := String.toList_ofList
  have sizes := congrArg Text.utf8Size same
  simp only [Text.utf8Size_append] at sizes
  have padding : path.padding = Text.utf8Size before + Text.utf8Size after := by
    rw [Path.padding, ← Text.utf8Size_toList, ← Text.utf8Size_toList, text]
    omega
  obtain ⟨filled, size, parts⟩ := within_iff.mp within
  rw [text] at filled size parts
  refine within_iff.mpr ⟨?_, ?_, ?_⟩
  · refine Bool.eq_false_iff.mpr fun blank => ?_
    rw [Text.trim_eq_nil_iff.mpr blank] at filled
    cases filled
  · omega
  · rw [same, padding]
    exact Text.size_of_mem_splitAt_padded (Text.slash_notMem_of_blank blankBefore)
      (Text.slash_notMem_of_blank blankAfter) parts

end Path

namespace Settings

open Text (isAllBlank)

def paths (settings : Settings) : List Path :=
  [settings.compiler.source, settings.compiler.output, settings.definitions.path,
    settings.definitions.schemaOutput, settings.definitions.defaultsOutput,
    settings.versions.folder] ++ settings.logging.path.toList

structure Sound (settings : Settings) : Prop where
  paths : ∀ path ∈ settings.paths, path.trimmed.Within 0
  root : isIdentifier settings.compiler.rootInterface = true
  label : isAllBlank settings.definitions.defaultName.toList = false
  version : checkVersion "versions.default_version" settings.versions.defaultVersion = .ok ()
  log : settings.logging.sink = .file → settings.logging.path.isSome = true

variable {settings : Settings}

theorem checkPathSize_eq_ok {tooLong componentTooLong : Refusal} {text : List Char} :
    checkPathSize tooLong componentTooLong text = .ok () ↔
      Text.utf8Size text ≤ maximumPathSize ∧
        ∀ part ∈ Text.splitAt '/' text, Text.utf8Size part ≤ maximumComponentSize := by
  by_cases large : maximumPathSize < Text.utf8Size text
  · simp [checkPathSize, large, Nat.not_le.mpr large]
  · simp [checkPathSize, large, Nat.not_lt.mp large]

-- The path of a settings file itself is checked as it is.
theorem checkFilePath_eq_ok {path : Path} : checkFilePath path = .ok () ↔
    path.text.utf8ByteSize ≤ maximumPathSize ∧
      ∀ name ∈ path.components, name.utf8ByteSize ≤ maximumComponentSize := by
  rw [checkFilePath, checkPathSize_eq_ok, ← Path.forall_parts_size,
    ← Path.forall_components_size (by decide), Text.utf8Size_toList]

theorem checkPath_eq_ok {field : String} {path : Path} :
    checkPath field path = .ok () ↔ path.trimmed.Within 0 := by
  have text : path.trimmed.text.toList = Text.trim path.text.toList := String.toList_ofList
  rw [Path.within_iff, text, Text.isAllBlank_trim, Nat.add_zero, Nat.add_zero, checkPath]
  cases (Text.trim path.text.toList).isEmpty with
  | true => simp
  | false => simp [checkPathSize_eq_ok]

theorem Compiler.check_eq_ok {compiler : Compiler} : compiler.check = .ok () ↔
    compiler.source.trimmed.Within 0 ∧ compiler.output.trimmed.Within 0 ∧
      isIdentifier compiler.rootInterface = true := by
  rw [Compiler.check, bind_unit_eq_ok, bind_unit_eq_ok, checkPath_eq_ok, checkPath_eq_ok]
  cases isIdentifier compiler.rootInterface <;> simp [pure, Except.pure]

theorem Definitions.check_eq_ok {definitions : Definitions} : definitions.check = .ok () ↔
    definitions.path.trimmed.Within 0 ∧ definitions.schemaOutput.trimmed.Within 0 ∧
      definitions.defaultsOutput.trimmed.Within 0 ∧
      isAllBlank definitions.defaultName.toList = false := by
  rw [Definitions.check, bind_unit_eq_ok, bind_unit_eq_ok, bind_unit_eq_ok, checkPath_eq_ok,
    checkPath_eq_ok, checkPath_eq_ok]
  cases isAllBlank definitions.defaultName.toList <;> simp [pure, Except.pure]

theorem Logging.check_eq_ok {logging : Logging} : logging.check = .ok () ↔
    (∀ path ∈ logging.path, path.trimmed.Within 0) ∧
      (logging.sink = .file → logging.path.isSome = true) := by
  obtain ⟨sink, path⟩ := logging
  cases path with
  | none => cases sink <;> simp [Logging.check]
  | some path => cases sink <;> simp [Logging.check, checkPath_eq_ok]

theorem check_eq_ok : settings.check = .ok () ↔ settings.Sound := by
  rw [check, bind_unit_eq_ok, bind_unit_eq_ok, bind_unit_eq_ok, Compiler.check_eq_ok,
    Definitions.check_eq_ok, Versions.check, bind_unit_eq_ok, checkPath_eq_ok, Logging.check_eq_ok]
  have paths : (∀ path ∈ settings.paths, path.trimmed.Within 0) ↔
      settings.compiler.source.trimmed.Within 0 ∧ settings.compiler.output.trimmed.Within 0 ∧
        settings.definitions.path.trimmed.Within 0 ∧
        settings.definitions.schemaOutput.trimmed.Within 0 ∧
        settings.definitions.defaultsOutput.trimmed.Within 0 ∧
        settings.versions.folder.trimmed.Within 0 ∧
        ∀ path ∈ settings.logging.path, path.trimmed.Within 0 := by
    simp [Settings.paths]
  constructor
  · rintro ⟨⟨source, output, root⟩, ⟨definitions, schema, defaults, label⟩, ⟨folder, version⟩, log, file⟩
    exact ⟨paths.mpr ⟨source, output, definitions, schema, defaults, folder, log⟩, root, label,
      version, file⟩
  · rintro ⟨held, root, label, version, file⟩
    obtain ⟨source, output, definitions, schema, defaults, folder, log⟩ := paths.mp held
    exact ⟨⟨source, output, root⟩, ⟨definitions, schema, defaults, label⟩, ⟨folder, version⟩, log, file⟩

/-- Settings are accepted exactly when their paths without the white space around them are within
the limits and the other values are usable. Their paths are then within the limits but for
that white space. -/
theorem paths_of_check (settings : Settings) : (settings.check = .ok () ↔ settings.Sound) ∧
    (settings.check = .ok () → ∀ path ∈ settings.paths, path.Within path.padding) := by
  refine ⟨check_eq_ok, fun checked path held => ?_⟩
  exact ((check_eq_ok.mp checked).paths path held).padded

def paddedName : List Char :=
  List.replicate 255 'a' ++ [' ']

def paddedSettings : Settings :=
  { compiler := { source := ⟨String.ofList paddedName⟩ } }

theorem check_paddedSettings : paddedSettings.check = .ok () := by
  have source : paddedSettings.compiler.source.trimmed.Within 0 := by
    simp only [Path.within_iff, Path.trimmed, paddedSettings, String.toList_ofList]
    decide +kernel
  have others : ∀ path ∈ paddedSettings.paths.tail, path.trimmed.Within 0 := by decide +kernel
  exact check_eq_ok.mpr
    ⟨List.forall_mem_cons.mpr ⟨source, others⟩, by decide, by decide, by decide, nofun⟩

-- The name is one byte longer than names may be, and the settings are accepted all the same.
theorem paths_beyond_limits :
    paddedSettings.check = .ok () ∧ ∃ path ∈ paddedSettings.paths, ¬path.Within 0 := by
  have long : ¬paddedSettings.compiler.source.Within 0 := by
    simp only [Path.within_iff, paddedSettings, String.toList_ofList]
    decide +kernel
  exact ⟨check_paddedSettings, paddedSettings.compiler.source, List.mem_cons_self, long⟩

theorem paths_of_check_padded : paddedSettings.check = .ok () ∧
    paddedSettings.compiler.source.Within paddedSettings.compiler.source.padding :=
  ⟨check_paddedSettings,
    (paths_of_check paddedSettings).2 check_paddedSettings _ List.mem_cons_self⟩

end Settings

end Toggles
