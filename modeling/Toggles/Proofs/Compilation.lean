import Toggles.Proofs.ArtifactFiles

/-! What a compilation records.

A compilation begins with one event and ends with another. Between them stands at most one more, for
the artifact if it was written. How a run ends is told by its last event, and the disk is changed as
the events say.
-/

set_option autoImplicit false

namespace Toggles

open Disk (Keeps spelled)

def Event.lines (milliseconds : Nat) (events : List Event) : ByteArray :=
  (String.join (events.map (Event.line milliseconds))).toUTF8

theorem Event.lines_append (milliseconds : Nat) (first second : List Event) :
    lines milliseconds (first ++ second) = lines milliseconds first ++ lines milliseconds second := by
  simp only [lines, List.map_append, String.join_append]
  exact String.toByteArray_append

theorem Event.lines_singleton (milliseconds : Nat) (event : Event) :
    lines milliseconds [event] = (event.line milliseconds).toUTF8 := by
  simp [lines, String.join]

/-- Between two worlds some events were recorded, and the disk was kept but for some locations. -/
structure Passes (log : Path) (changed fresh : List Location) (events : List Event)
    (world later : World) : Prop where
  folder : later.folder = world.folder
  clock : later.clock = world.clock
  environment : later.environment = world.environment
  keeps : Keeps changed fresh world.disk later.disk
  grows : ∀ content, world.disk.read world.folder log = .ok content →
    later.disk.read later.folder log = .ok (content ++ Event.lines world.clock events)

section Passes
variable {log : Path} {changed fresh : List Location} {first second : List Event}
  {world behind last : World}

theorem Passes.trans (one : Passes log changed fresh first world behind)
    (two : Passes log changed fresh second behind last) :
    Passes log changed fresh (first ++ second) world last where
  folder := two.folder.trans one.folder
  clock := two.clock.trans one.clock
  environment := two.environment.trans one.environment
  keeps := one.keeps.trans two.keeps
  grows content read := by
    rw [Event.lines_append, ← ByteArray.append_assoc, ← one.clock]
    exact two.grows _ (one.clock ▸ one.grows content read)

theorem Passes.mono {more moreFresh : List Location} (passes : Passes log changed fresh first world last)
    (wider : changed ⊆ more) (widerFresh : fresh ⊆ moreFresh) :
    Passes log more moreFresh first world last :=
  { passes with keeps := passes.keeps.mono wider widerFresh }

theorem passes_logged (event : Event) (own : spelled world.folder log ∈ changed) :
    Passes log changed fresh [event] world (world.logged log event) where
  folder := rfl
  clock := rfl
  environment := rfl
  keeps := (Disk.keeps_change world.disk world.folder log _).mono
    (List.cons_subset.mpr ⟨own, List.nil_subset _⟩) (List.nil_subset _)
  grows content read := by
    have present : world.disk.contentAt world.folder log = content := by
      rw [Disk.contentAt, read]
    rw [Event.lines_singleton, ← present]
    exact Disk.read_change_self (Disk.change_of_read read)

theorem passes_onDisk {disk : Disk} (keeps : Keeps changed fresh world.disk disk)
    (apart : spelled world.folder log ∉ changed) :
    Passes log changed fresh [] world (world.onDisk disk) where
  folder := rfl
  clock := rfl
  environment := rfl
  keeps := keeps
  grows content read := by
    have none : Event.lines world.clock [] = .empty := rfl
    rw [none, ByteArray.append_empty]
    exact keeps.read apart read

-- What stands on the screen makes no difference to what is recorded.
theorem Passes.aside {out : String} (passes : Passes log changed fresh first { world with out } last)
    (err : String) : Passes log changed fresh first world { last with err } :=
  { passes with }

end Passes

namespace Command

structure Compilation where
  source : Path
  root : String
  output : Path
  check : Bool

namespace Compilation

/-- A compilation that is asked for, with settings for what is not said. -/
def of (settings : Settings) (source : Option Path) (root : Option String) (target : Target) :
    Compilation :=
  ⟨source.getD settings.compiler.source, root.getD settings.compiler.rootInterface,
    target.out.getD settings.compiler.output, target.check⟩

variable (job : Compilation)

def started : Event :=
  .compile .started job.source job.root job.output none none

def failed (count : Option Nat) (kind : String) : Event :=
  .compile .failed job.source job.root job.output count (some kind)

def completed (count : Nat) : Event :=
  .compile .completed job.source job.root job.output (some count) none

def written (size : Nat) : Event :=
  .artifact job.output size

def compiled (world : World) : Except Failure Json :=
  compileRead job.source job.root (world.disk.read world.folder job.source)

/-- How a compilation goes on behind its first event: what it gives, what it records, and the world
behind it. -/
inductive Ends (log : Path) (world : World) : Except Failure Unit → List Event → World → Prop where
  | stopped {failure : Failure} : job.compiled world = .error failure →
      Ends log world (.error failure) [job.failed none failure.kind]
        (world.logged log (job.failed none failure.kind))
  | unlike {schema : Json} {failure : Artifact.Failure} : job.compiled world = .ok schema →
      job.check = true →
      Artifact.verified world.disk world.folder job.output schema.pretty.toUTF8 = .error failure →
      Ends log world (.error (.artifact failure))
        [job.failed (some (propertyCount schema)) "artifact"]
        (world.logged log (job.failed (some (propertyCount schema)) "artifact"))
  | unwritten {schema : Json} {failure : Artifact.Failure} {disk : Disk} :
      job.compiled world = .ok schema → job.check = false →
      Artifact.Writes world.folder job.output schema.pretty.toUTF8 world.disk (.error failure) disk →
      Ends log world (.error (.artifact failure))
        [job.failed (some (propertyCount schema)) "artifact"]
        ((world.onDisk disk).logged log (job.failed (some (propertyCount schema)) "artifact"))
  | wrote {schema : Json} {disk : Disk} {out : String} : job.compiled world = .ok schema →
      job.check = false →
      Artifact.Writes world.folder job.output schema.pretty.toUTF8 world.disk (.ok ()) disk →
      Ends log world (.ok ())
        [job.written schema.pretty.toUTF8.size, job.completed (propertyCount schema)]
        ({ (world.onDisk disk).logged log (job.written schema.pretty.toUTF8.size) with out }.logged
          log (job.completed (propertyCount schema)))
  | checked {schema : Json} {out : String} : job.compiled world = .ok schema →
      job.check = true →
      Artifact.verified world.disk world.folder job.output schema.pretty.toUTF8 = .ok () →
      Ends log world (.ok ()) [job.completed (propertyCount schema)]
        ({ world with out }.logged log (job.completed (propertyCount schema)))

end Compilation

section Runs
variable {settings : Settings} {log : Path} {world : World} {job : Compilation}

end Runs

namespace Compilation

section Ends
variable {job : Compilation} {log : Path} {world later : World} {result : Except Failure Unit}
  {events : List Event}

abbrev fresh (job : Compilation) (folder : Location) : List Location :=
  Artifact.folders folder job.output

-- Only a write that was tried makes folders, and only one that was recorded changes the output.
theorem Ends.passes (ends : job.Ends log world result events later)
    (apart : spelled world.folder log ≠ spelled world.folder job.output) :
    Passes log [spelled world.folder log] [] events world later ∨
    (job.check = false ∧ Artifact.rejects world.disk world.folder job.output = false ∧
      (∀ kind, events ≠ [job.failed none kind]) ∧
      (Passes log [spelled world.folder log] (job.fresh world.folder) events world later ∨
      (∃ size, job.written size ∈ events) ∧
        Passes log [spelled world.folder log, spelled world.folder job.output]
          (job.fresh world.folder) events world later)) := by
  have own := List.mem_singleton_self (spelled world.folder log)
  cases ends with
  | stopped => exact .inl (passes_logged _ own)
  | unlike => exact .inl (passes_logged _ own)
  | @unwritten schema failure disk compiled check writes =>
      cases writes with
      | rejected => exact .inl (passes_logged _ own)
      | failed fault admitted keeps =>
          refine .inr ⟨check, admitted, nofun, .inl ?_⟩
          have made : Passes log _ _ [] world (world.onDisk disk) :=
            passes_onDisk keeps List.not_mem_nil
          exact (made.mono (List.nil_subset _) (List.Subset.refl _)).trans (passes_logged _ own)
  | @wrote schema disk out compiled check writes =>
      cases writes with
      | done admitted keeps read =>
          refine .inr ⟨check, admitted, nofun, .inr ⟨⟨_, List.mem_cons_self⟩, ?_⟩⟩
          have own : spelled world.folder log ∈
              [spelled world.folder log, spelled world.folder job.output] := List.mem_cons_self
          have wrote : Passes log _ _ [] world (world.onDisk disk) :=
            passes_onDisk keeps (by simpa using apart)
          have recorded : Passes log _ (job.fresh world.folder) _ (world.onDisk disk) _ :=
            passes_logged (job.written schema.pretty.toUTF8.size) own
          have ended : Passes log _ (job.fresh world.folder) _
              { (world.onDisk disk).logged log (job.written schema.pretty.toUTF8.size) with out } _ :=
            passes_logged (job.completed (propertyCount schema)) own
          exact (wrote.mono (List.subset_cons_self _ _) (List.Subset.refl _)).trans
            (recorded.trans (ended.aside world.err))
  | @checked schema out =>
      have ended : Passes log _ [] _ { world with out } _ :=
        passes_logged (job.completed (propertyCount schema)) own
      exact .inl (ended.aside world.err)

end Ends

def exit : Except Failure Unit → Exit
  | .ok () => .success
  | .error _ => .failure

section Whole
variable {world : World} {arguments : List String} {argument source : Option Path}
  {root : Option String} {target : Target} {settings : Settings} {log : Path}

end Whole

end Compilation

section Recorded
variable {world : World} {arguments : List String} {argument source : Option Path}
  {root : Option String} {target : Target} {settings : Settings} {log : Path}

end Recorded

section Sample

open Compilation (of)

end Sample

end Command

end Toggles
