import Toggles.Proofs.ArtifactFiles

/-! What a write of an artifact leaves behind.

A write that is done leaves the file with what was written and the folders in which its path lies,
and everything else as it was. A write that fails changes no file; folders that it made on the way
to the file stay. A check that follows compares with what was written.
-/

set_option autoImplicit false

namespace Toggles.Artifact

open Disk (Keeps spelled)

section Places
variable {disk later : Disk} {folder place : Location} {path : Path} {content : ByteArray}

/-- What is at a location stays, or nothing was there and now there is a folder in which the path
lies. -/
def KeptAt (folder : Location) (path : Path) (disk later : Disk) (place : Location) : Prop :=
  later.entry? place = disk.entry? place ∨
    disk.entry? place = none ∧ later.entry? place = some .folder ∧
      ∃ outer, path.LiesIn outer ∧ spelled folder outer = place

/-- A disk behind a write that is done. -/
structure Written (folder : Location) (path : Path) (content : ByteArray) (disk later : Disk) :
    Prop where
  file : later.entry? (spelled folder path) = some (.file content)
  folders : ∀ outer, path.LiesIn outer → later.entry? (spelled folder outer) = some .folder
  kept : ∀ place, place ≠ spelled folder path → KeptAt folder path disk later place

theorem keptAt_of_keeps {changed : List Location}
    (keeps : Keeps changed (folders folder path) disk later) (apart : place ∉ changed) :
    KeptAt folder path disk later place := by
  refine (keeps.same place apart).imp_right fun ⟨member, missing, made⟩ => ⟨missing, made, ?_⟩
  obtain ⟨outer, around, same⟩ := List.mem_map.mp member
  exact ⟨outer, Path.liesIn_of_mem_around around, same⟩

theorem written_of_read (keeps : Keeps [spelled folder path] (folders folder path) disk later)
    (read : later.read folder path = .ok content) : Written folder path content disk later := by
  obtain ⟨located, file⟩ := (Disk.read_eq_ok content).mp read
  refine ⟨file, fun outer lies => ?_, fun place apart => ?_⟩
  · exact (Disk.isFolder_iff.mp (Disk.isFolder_of_liesIn located lies)).2
  · exact keptAt_of_keeps keeps (List.mem_singleton.not.mpr apart)

theorem Writes.written {result : Except Failure Unit}
    (writes : Writes folder path content disk result later) (done : result = .ok ()) :
    Written folder path content disk later ∧ ∀ expected, verified later folder path expected =
      if content.data = expected.data then .ok () else .error (.outOfDate path) := by
  cases writes with
  | rejected | failed => cases done
  | done _ keeps read =>
      exact ⟨written_of_read keeps read, fun expected => verified_of_read expected read⟩

theorem Writes.kept {result : Except Failure Unit} {failure : Failure}
    (writes : Writes folder path content disk result later) (failed : result = .error failure) :
    (∀ place, KeptAt folder path disk later place) ∧
      ∀ present, later.read folder path ≠ .ok present := by
  cases writes with
  | rejected rejected =>
      refine ⟨fun place => .inl rfl, fun present read => ?_⟩
      rw [rejects_of_read read] at rejected
      cases rejected
  | failed fault _ keeps unread =>
      exact ⟨fun place => keptAt_of_keeps keeps List.not_mem_nil, unread⟩
  | done => cases failed

theorem Writes.rejected_same {result : Except Failure Unit}
    (writes : Writes folder path content disk result later)
    (rejected : path.isEmpty = true ∨ disk.isFolder folder path = true) :
    result = .error (.outputPath path) ∧ later = disk := by
  rw [← Bool.or_eq_true] at rejected
  cases writes with
  | rejected => exact ⟨rfl, rfl⟩
  | failed _ accepted | done accepted => exact absurd rejected (Bool.eq_false_iff.mp accepted)

end Places

/-- A write of an artifact is exact. Where it is done the file has what was written, so that a check
of the path finds exactly this content; the folders in which the path lies are there, and all else is
as it was. Where it fails no file is changed, only missing folders in which the path lies may have
been made, and there is nothing to be read at the path. An empty path and that of a folder are refused
at once. A check changes nothing. -/
theorem write_exact (world : World) (path : Path) (content : ByteArray) :
    (∃ result later,
      (write path content : ExceptT Failure (StateM World) Unit).run.run world =
          (result, world.onDisk later) ∧
        (result = .ok () → Written world.folder path content world.disk later ∧
          ∀ expected, (verify path expected : ExceptT Failure (StateM World) Unit).run.run
              (world.onDisk later) =
            (if content.data = expected.data then .ok () else .error (.outOfDate path),
              world.onDisk later)) ∧
        (∀ failure, result = .error failure →
          (∀ place, KeptAt world.folder path world.disk later place) ∧
            ∀ present, later.read world.folder path ≠ .ok present) ∧
        (path.isEmpty = true ∨ world.disk.isFolder world.folder path = true →
          result = .error (.outputPath path) ∧ later = world.disk)) ∧
      ∀ expected, ((verify path expected : ExceptT Failure (StateM World) Unit).run.run world).2 =
        world := by
  obtain ⟨result, later, ran, writes⟩ := run_write path content world
  refine ⟨⟨result, later, ran, fun done => ?_, fun failure => writes.kept, writes.rejected_same⟩,
    fun expected => ?_⟩
  · obtain ⟨written, checks⟩ := writes.written done
    refine ⟨written, fun expected => ?_⟩
    rw [run_verify, ← checks expected]
    rfl
  · rw [run_verify]

section Sample

def sampleShelf : World where
  disk := ⟨[(["a"], .file "old".toUTF8)]⟩
  folder := []

/-- A file in a new folder is written. A slash at the end makes the write fail, and the folder stays.
The path of the working folder is refused. -/
theorem write_exact_sample :
    (∃ later, (write ⟨"b/c"⟩ .empty : ExceptT Failure (StateM World) Unit).run.run sampleShelf =
        (.ok (), sampleShelf.onDisk later) ∧ later.entry? ["b"] = some .folder ∧
      ((verify ⟨"b/c"⟩ "old".toUTF8 : ExceptT Failure (StateM World) Unit).run.run
        (sampleShelf.onDisk later)).1 = .error (.outOfDate ⟨"b/c"⟩)) ∧
    (∃ later, (write ⟨"b/c/"⟩ .empty : ExceptT Failure (StateM World) Unit).run.run sampleShelf =
        (.error (.io .isFolder), sampleShelf.onDisk later) ∧
      ∀ place, KeptAt [] ⟨"b/c/"⟩ sampleShelf.disk later place) ∧
    (sampleShelf.disk.isFolder [] ⟨"."⟩ = true ∧
      (write ⟨"."⟩ .empty : ExceptT Failure (StateM World) Unit).run.run sampleShelf =
        (.error (.outputPath ⟨"."⟩), sampleShelf)) := by
  have done : ((write ⟨"b/c"⟩ .empty : ExceptT Failure (StateM World) Unit).run.run sampleShelf).1 =
      .ok () := by decide +kernel
  have failed : ((write ⟨"b/c/"⟩ .empty : ExceptT Failure (StateM World) Unit).run.run sampleShelf).1 =
      .error (.io .isFolder) := by decide +kernel
  have isFolder : sampleShelf.disk.isFolder [] ⟨"."⟩ = true := by decide +kernel
  have lies : Path.LiesIn ⟨"b/c"⟩ ⟨"b"⟩ :=
    ⟨[], "b", ["c"], by decide +kernel, rfl, ⟨"c", by simp, rfl⟩, rfl⟩
  refine ⟨?_, ?_, isFolder, ?_⟩
  · obtain ⟨⟨result, later, ran, written, -⟩, -⟩ := write_exact sampleShelf ⟨"b/c"⟩ .empty
    obtain rfl : result = .ok () := (congrArg Prod.fst ran).symm.trans done
    obtain ⟨written, checks⟩ := written rfl
    refine ⟨later, ran, ?_, ?_⟩
    · have place : spelled sampleShelf.folder ⟨"b"⟩ = ["b"] := by decide +kernel
      rw [← place]
      exact written.folders _ lies
    · rw [checks, if_neg (by decide +kernel)]
  · obtain ⟨⟨result, later, ran, -, kept, -⟩, -⟩ := write_exact sampleShelf ⟨"b/c/"⟩ .empty
    obtain rfl := (congrArg Prod.fst ran).symm.trans failed
    exact ⟨later, ran, (kept _ rfl).1⟩
  · obtain ⟨⟨result, later, ran, -, -, refused⟩, -⟩ := write_exact sampleShelf ⟨"."⟩ .empty
    obtain ⟨rfl, rfl⟩ := refused (.inr isFolder)
    exact ran

end Sample

end Toggles.Artifact
