import Toggles.Artifact
import Toggles.Proofs.Folders
import Toggles.Proofs.Runs

/-! Artifacts on the disk of a world.

A write goes through the folders around the path, of which it makes the missing ones, and ends with
the file. It fails only where nothing can be read at the path afterwards. A check reads.
-/

set_option autoImplicit false

namespace Toggles

namespace Disk

variable {disk : Disk} {folder : Location} {path : Path}

theorem createFolder_cases (disk : Disk) (folder : Location) (path : Path) :
    (disk.createFolder folder path = (.error .present, disk) ∧ disk.isFolder folder path = true) ∨
    (∃ fault, disk.createFolder folder path = (.error fault, disk) ∧
      disk.isFolder folder path = false) ∨
    ∃ later, disk.createFolder folder path = (.ok (), later) ∧
      Keeps [] [spelled folder path] disk later := by
  cases located : disk.locate folder path with
  | error fault =>
      refine .inr (.inl ⟨fault, by rw [createFolder, located], ?_⟩)
      simp [isFolder, at?, located]
  | ok location =>
      cases locate_eq_ok located
      simp only [createFolder, isFolder, at?, located]
      cases found : disk.entry? (spelled folder path) with
      | none => exact .inr (.inr ⟨_, rfl, keeps_put_folder found⟩)
      | some entry =>
          cases entry with
          | folder => exact .inl ⟨rfl, rfl⟩
          | file content => exact .inr (.inl ⟨_, rfl, rfl⟩)

end Disk

namespace Artifact

open Disk (Keeps spelled)

section Folders
variable {world : World} {path : Path}

theorem run_ensureFolder (path : Path) (world : World) : ∃ result later,
    (Workspace.ensureFolder path : StateM World (Except Fault Unit)).run world =
        (result, world.onDisk later) ∧
      Keeps [] [spelled world.folder path] world.disk later ∧
      (result = .ok () ∨ later.isFolder world.folder path = false) := by
  have creates : (Workspace.createFolder path : StateM World (Except Fault Unit)).run world =
      ((world.disk.createFolder world.folder path).1,
        world.onDisk (world.disk.createFolder world.folder path).2) := rfl
  rw [Workspace.ensureFolder, run_bind, creates]
  rcases Disk.createFolder_cases world.disk world.folder path with
    ⟨made, isFolder⟩ | ⟨fault, made, noFolder⟩ | ⟨later, made, keeps⟩
  · rw [made]
    have looks : (Workspace.isFolder path : StateM World Bool).run (world.onDisk world.disk) =
        (true, world.onDisk world.disk) := by
      rw [← isFolder]
      rfl
    dsimp only
    rw [run_bind, looks]
    exact ⟨_, _, rfl, .refl _ _ _, .inl rfl⟩
  · rw [made]
    cases fault <;> exact ⟨_, _, rfl, .refl _ _ _, .inr noFolder⟩
  · rw [made]
    exact ⟨_, _, rfl, keeps, .inl rfl⟩

theorem run_ensureNested_cons (path : Path) (outer : List Path) (world : World) :
    (Workspace.ensureNested (path :: outer) : StateM World (Except Fault Unit)).run world =
      match (Workspace.ensureFolder path : StateM World (Except Fault Unit)).run world with
      | (.error .missing, behind) =>
          match (Workspace.ensureNested outer : StateM World (Except Fault Unit)).run behind with
          | (.error fault, last) => (.error fault, last)
          | (.ok (), last) =>
              (Workspace.ensureFolder path : StateM World (Except Fault Unit)).run last
      | (result, behind) => (result, behind) := by
  rw [Workspace.ensureNested, run_bind]
  rcases (Workspace.ensureFolder path : StateM World (Except Fault Unit)).run world with
    ⟨fault | -, behind⟩
  · cases fault with
    | missing =>
        dsimp only
        rw [run_bind]
        rcases (Workspace.ensureNested outer : StateM World (Except Fault Unit)).run behind with
          ⟨fault | -, last⟩
        · rfl
        · rfl
    | present | notFolder | isFolder | nameTooLong | nulByte | other => rfl
  · rfl

-- Where not all of the folders could be made, one of them is missing.
theorem run_ensureNested (paths : List Path) (world : World) : ∃ result later,
    (Workspace.ensureNested paths : StateM World (Except Fault Unit)).run world =
        (result, world.onDisk later) ∧
      Keeps [] (paths.map (spelled world.folder)) world.disk later ∧
      (result = .ok () ∨ ∃ path ∈ paths, later.isFolder world.folder path = false) := by
  induction paths generalizing world with
  | nil => exact ⟨_, _, rfl, .refl _ _ _, .inl rfl⟩
  | cons path outer ih =>
      have ownFresh : [spelled world.folder path] ⊆ (path :: outer).map (spelled world.folder) := by
        simp
      have outerFresh :
          outer.map (spelled world.folder) ⊆ (path :: outer).map (spelled world.folder) :=
        List.subset_cons_self _ _
      obtain ⟨first, disk, ranFirst, keepsFirst, noFolder⟩ := run_ensureFolder path world
      have keepsOwn := keepsFirst.mono (List.Subset.refl _) ownFresh
      have noneFirst := noFolder.imp_right fun noPath =>
        (⟨path, List.mem_cons_self, noPath⟩ :
          ∃ around ∈ path :: outer, disk.isFolder world.folder around = false)
      rw [run_ensureNested_cons, ranFirst]
      split
      · next same =>
          cases same
          obtain ⟨second, diskOuter, ranOuter, keepsOuter, noOuter⟩ := ih (world.onDisk disk)
          have keeps := keepsOwn.trans (keepsOuter.mono (List.Subset.refl _) outerFresh)
          rw [ranOuter]
          rcases second with fault | -
          · obtain ⟨around, member, noAround⟩ := noOuter.resolve_left nofun
            exact ⟨_, _, rfl, keeps, .inr ⟨around, List.mem_cons_of_mem _ member, noAround⟩⟩
          · obtain ⟨last, later, ranLast, keepsLast, noLast⟩ :=
              run_ensureFolder path (world.onDisk diskOuter)
            exact ⟨last, later, ranLast, keeps.trans (keepsLast.mono (List.Subset.refl _) ownFresh),
              noLast.imp_right fun noPath => ⟨path, List.mem_cons_self, noPath⟩⟩
      · next same =>
          cases same
          exact ⟨_, _, rfl, keepsOwn, noneFirst⟩

end Folders

section Artifacts
variable {world : World} {disk : Disk} {folder : Location} {path : Path} {content : ByteArray}

/-- Whether only a folder can be meant by a path. -/
def rejects (disk : Disk) (folder : Location) (path : Path) : Bool :=
  path.isEmpty || disk.isFolder folder path

def folders (folder : Location) (path : Path) : List Location :=
  path.around.map (spelled folder)

/-- How a write of an artifact comes out, and the disk behind it. -/
inductive Writes (folder : Location) (path : Path) (content : ByteArray) (disk : Disk) :
    Except Failure Unit → Disk → Prop where
  | rejected : rejects disk folder path = true →
      Writes folder path content disk (.error (.outputPath path)) disk
  | failed {later : Disk} (fault : Fault) : rejects disk folder path = false →
      Keeps [] (folders folder path) disk later →
      (∀ present, later.read folder path ≠ .ok present) →
      Writes folder path content disk (.error (.io fault)) later
  | done {later : Disk} : rejects disk folder path = false →
      Keeps [spelled folder path] (folders folder path) disk later →
      later.read folder path = .ok content →
      Writes folder path content disk (.ok ()) later

theorem run_attempt {α : Type} {operation : StateM World (Except Fault α)} {result : Except Fault α}
    {behind : World} (ran : operation.run world = (result, behind)) :
    (attempt operation : ExceptT Failure (StateM World) α).run.run world =
      (result.mapError .io, behind) := by
  have lifted : (liftM operation : ExceptT Failure (StateM World) (Except Fault α)).run.run world =
      (.ok result, behind) := by
    rw [run_lift, ran]
  rw [attempt, run_bind_of_ok lifted]
  cases result <;> rfl

def pathChecked (disk : Disk) (folder : Location) (path : Path) : Except Failure Unit :=
  if rejects disk folder path then .error (.outputPath path) else .ok ()

theorem run_checkPath (path : Path) (world : World) :
    (checkPath path : ExceptT Failure (StateM World) Unit).run.run world =
      (pathChecked world.disk world.folder path, world) := by
  have looks : (liftM (Workspace.isFolder path : StateM World Bool) :
      ExceptT Failure (StateM World) Bool).run.run world =
        (.ok (world.disk.isFolder world.folder path), world) := rfl
  rw [checkPath, run_bind_of_ok looks, pathChecked, rejects]
  split <;> rfl

theorem rejects_of_read (read : disk.read folder path = .ok content) :
    rejects disk folder path = false := by
  have named : path.text ≠ "" := by
    obtain ⟨_, checked, -⟩ := bind_eq_ok.mp ((Disk.read_eq_ok content).mp read).1
    exact (Disk.checkPath_eq_ok.mp checked).2.1
  simp [rejects, Disk.isFolder_of_read read, Path.isEmpty, named]

def verified (disk : Disk) (folder : Location) (path : Path) (content : ByteArray) :
    Except Failure Unit := do
  pathChecked disk folder path
  let present ← (disk.read folder path).mapError .io
  if present.data = content.data then .ok () else .error (.outOfDate path)

-- A check leaves the world as it is.
theorem run_verify (path : Path) (content : ByteArray) (world : World) :
    (verify path content : ExceptT Failure (StateM World) Unit).run.run world =
      (verified world.disk world.folder path content, world) := by
  have reads : (Workspace.readFile path : StateM World (Except Fault ByteArray)).run world =
      (world.disk.read world.folder path, world) := rfl
  refine run_bind_of_same (run_checkPath path world) fun _ => ?_
  refine run_bind_of_same (run_attempt reads) fun present => ?_
  split <;> rfl

theorem verified_of_read {present : ByteArray} (content : ByteArray) (read : disk.read folder path = .ok present) :
    verified disk folder path content =
      if present.data = content.data then .ok () else .error (.outOfDate path) := by
  rw [verified, pathChecked, rejects_of_read read, read]
  rfl

theorem write_eq (path : Path) (content : ByteArray) :
    (write path content : ExceptT Failure (StateM World) Unit) = (do
      checkPath path
      attempt (Workspace.ensureNested path.around)
      attempt (Workspace.writeFile path content)) := by
  rw [write, Path.around]
  cases path.parent? with
  | none => rfl
  | some parent =>
      -- The folder without a name is not looked for, and nothing is around it.
      by_cases nameless : parent.isEmpty = true
      · obtain rfl : parent = ⟨""⟩ := congrArg Path.mk (String.isEmpty_iff.mp nameless)
        rfl
      · simp only [nameless]
        rfl

-- Where a file cannot be written nothing is changed, and nothing can be read either.
theorem run_writeFile (path : Path) (content : ByteArray) (world : World) :
    (∃ fault,
      (attempt (Workspace.writeFile path content) : ExceptT Failure (StateM World) Unit).run.run world =
          (.error (.io fault), world) ∧
        ∀ present, world.disk.read world.folder path ≠ .ok present) ∨
    ∃ later,
      (attempt (Workspace.writeFile path content) : ExceptT Failure (StateM World) Unit).run.run world =
          (.ok (), world.onDisk later) ∧
        Keeps [spelled world.folder path] [] world.disk later ∧
        later.read world.folder path = .ok content := by
  have writes : (Workspace.writeFile path content : StateM World (Except Fault Unit)).run world =
      ((world.disk.write world.folder path content).1,
        world.onDisk (world.disk.write world.folder path content).2) := rfl
  have ends := run_attempt writes
  cases written : (world.disk.write world.folder path content).1 with
  | error fault =>
      rw [written, Disk.write, Disk.change_of_error written] at ends
      refine .inl ⟨fault, ends, fun present read => ?_⟩
      rw [Disk.write, Disk.change_of_read read] at written
      cases written
  | ok =>
      rw [written] at ends
      exact .inr ⟨_, ends, Disk.keeps_change .., Disk.read_change_self written⟩

theorem run_write (path : Path) (content : ByteArray) (world : World) : ∃ result later,
    (write path content : ExceptT Failure (StateM World) Unit).run.run world =
        (result, world.onDisk later) ∧
      Writes world.folder path content world.disk result later := by
  have checked := run_checkPath path world
  rw [write_eq]
  cases rejected : rejects world.disk world.folder path with
  | true =>
      rw [pathChecked, rejected, if_pos rfl] at checked
      exact ⟨_, _, run_bind_of_error checked, .rejected rejected⟩
  | false =>
      rw [pathChecked, rejected, if_neg Bool.false_ne_true] at checked
      rw [run_bind_of_ok checked]
      obtain ⟨made, disk, ranMade, keeps, noFolder⟩ := run_ensureNested path.around world
      have makes := run_attempt ranMade
      cases made with
      | error fault =>
          refine ⟨_, _, run_bind_of_error makes, .failed fault rejected keeps fun present read => ?_⟩
          obtain ⟨outer, member, missing⟩ := noFolder.resolve_left nofun
          have there := Disk.isFolder_of_liesIn ((Disk.read_eq_ok present).mp read).1
            (Path.liesIn_of_mem_around member)
          rw [missing] at there
          cases there
      | ok =>
          rw [run_bind_of_ok makes]
          rcases run_writeFile path content (world.onDisk disk) with
            ⟨fault, ran, unread⟩ | ⟨later, ran, keepsFile, present⟩
          · exact ⟨_, _, ran, .failed fault rejected keeps unread⟩
          · refine ⟨_, _, ran, .done rejected ?_ present⟩
            exact (keeps.mono (List.nil_subset _) (List.Subset.refl _)).trans
              (keepsFile.mono (List.Subset.refl _) (List.nil_subset _))

end Artifacts

end Artifact

end Toggles
