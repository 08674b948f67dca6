import Toggles.Command.Run
import Toggles.Proofs.Frames
import Toggles.Proofs.Replacement

/-! Steps of commands in a world.

Each step is described once by what it gives and by the world behind it. What reads leaves the world
as it is; an event goes to the end of the log.
-/

set_option autoImplicit false

namespace Toggles

def World.onDisk (world : World) (disk : Disk) : World :=
  { world with disk }

section Bind
variable {ε α β : Type} {world behind : World}

theorem run_bind (step : StateM World α) (next : α → StateM World β) (world : World) :
    (step >>= next).run world = (next (step.run world).1).run (step.run world).2 :=
  rfl

theorem run_bind_of_ok {step : ExceptT ε (StateM World) α} {next : α → ExceptT ε (StateM World) β}
    {value : α} (done : step.run.run world = (.ok value, behind)) :
    (step >>= next).run.run world = (next value).run.run behind := by
  rw [ExceptT.run_bind, run_bind, done]

theorem run_bind_of_error {step : ExceptT ε (StateM World) α}
    {next : α → ExceptT ε (StateM World) β} {cause : ε}
    (failed : step.run.run world = (.error cause, behind)) :
    (step >>= next).run.run world = (.error cause, behind) := by
  rw [ExceptT.run_bind, run_bind, failed]
  rfl

-- What only looks at a world gives what can be computed from it.
theorem run_bind_of_same {step : ExceptT ε (StateM World) α} {next : α → ExceptT ε (StateM World) β}
    {first : Except ε α} {second : α → Except ε β} (looked : step.run.run world = (first, world))
    (looks : ∀ value, (next value).run.run world = (second value, world)) :
    (step >>= next).run.run world = (first >>= second, world) := by
  cases first with
  | ok value => exact (run_bind_of_ok looked).trans (looks value)
  | error cause => exact run_bind_of_error looked

theorem run_adapt {δ : Type} {step : ExceptT ε (StateM World) α} {result : Except ε α}
    (reason : ε → δ) (ran : step.run.run world = (result, behind)) :
    (step.adapt reason).run.run world = (result.mapError reason, behind) := by
  rw [ExceptT.run_adapt, StateT.run_map, ran]
  rfl

theorem run_lift (step : StateM World α) (world : World) :
    (liftM step : ExceptT ε (StateM World) α).run.run world =
      (.ok (step.run world).1, (step.run world).2) :=
  rfl

end Bind

namespace Command

section Reading
variable {source path : Path} {root : String} {limit : Nat} {read : Except Fault ByteArray}

theorem run_orFail {ε α : Type} (reason : ε → Failure) (result : Except ε α) (world : World) :
    (orFail reason result : Step (StateM World) α).run.run world = (result.mapError reason, world) := by
  cases result <;> rfl

def bytesRead (path : Path) (limit : Nat) (read : Except Fault ByteArray) :
    Except Failure ByteArray := do
  let bytes ← read.mapError (.unreadable path)
  if limit < bytes.size then .error (.tooLarge path bytes.size limit) else .ok bytes

theorem run_readBytes (path : Path) (limit : Nat) (world : World) :
    (readBytes path limit : Step (StateM World) ByteArray).run.run world =
      (bytesRead path limit (world.disk.read world.folder path), world) := by
  rw [readBytes, run_bind_of_ok (run_lift _ world)]
  refine run_bind_of_same (run_orFail _ _ world) fun bytes => ?_
  split <;> rfl

def textRead (source : Path) (read : Except Fault ByteArray) : Except Failure String := do
  match String.fromUTF8? (← bytesRead source Declaration.maximumSourceSize read) with
  | some text => .ok text
  | none => .error (.notText source)

theorem run_readSource (source : Path) (world : World) :
    (readSource source : Step (StateM World) String).run.run world =
      (textRead source (world.disk.read world.folder source), world) := by
  refine run_bind_of_same (run_readBytes source _ world) fun bytes => ?_
  cases String.fromUTF8? bytes <;> rfl

def compileRead (source : Path) (root : String) (read : Except Fault ByteArray) :
    Except Failure Json := do
  let text ← textRead source read
  (Declaration.compile text root).mapError (.compile source)

-- A compilation reads the source and nothing else.
theorem run_compileSource (source : Path) (root : String) (world : World) :
    (compileSource source root : Step (StateM World) Json).run.run world =
      (compileRead source root (world.disk.read world.folder source), world) :=
  run_bind_of_same (run_readSource source world) fun _ => run_orFail _ _ world

theorem fromUTF8?_eq_some {bytes : ByteArray} {text : String} :
    String.fromUTF8? bytes = some text ↔ bytes = text.toUTF8 := by
  constructor
  · intro decoded
    unfold String.fromUTF8? at decoded
    split at decoded
    · cases decoded; rfl
    · cases decoded
  · rintro rfl
    exact dif_pos text.isValidUTF8

theorem bytesRead_eq_ok {bytes : ByteArray} :
    bytesRead path limit read = .ok bytes ↔ read = .ok bytes ∧ bytes.size ≤ limit := by
  cases read with
  | error fault => exact iff_of_false nofun nofun
  | ok present =>
      simp only [bytesRead, Except.mapError, bind, Except.bind, Except.ok.injEq]
      split
      · next large => exact iff_of_false nofun fun ⟨same, fits⟩ => Nat.not_le.mpr large (same ▸ fits)
      · next fits =>
          rw [Except.ok.injEq]
          exact (and_iff_left_of_imp fun same => same ▸ Nat.not_lt.mp fits).symm

theorem textRead_eq_ok {text : String} : textRead source read = .ok text ↔
    read = .ok text.toUTF8 ∧ text.utf8ByteSize ≤ Declaration.maximumSourceSize := by
  have decodes (bytes : ByteArray) : (match String.fromUTF8? bytes with
      | some text => .ok text
      | none => .error (Failure.notText source)) = Except.ok text ↔ bytes = text.toUTF8 := by
    rw [← fromUTF8?_eq_some]
    cases String.fromUTF8? bytes <;> simp
  simp only [textRead, bind_eq_ok, bytesRead_eq_ok, decodes]
  constructor
  · rintro ⟨_, ⟨read, fits⟩, rfl⟩
    exact ⟨read, fits⟩
  · rintro ⟨read, fits⟩
    exact ⟨_, ⟨read, fits⟩, rfl⟩

-- What is compiled is the text of the file. A text that is compiled is not too large to be read.
theorem compileRead_eq_ok {artifact : Json} : compileRead source root read = .ok artifact ↔
    ∃ text : String, read = .ok text.toUTF8 ∧ Declaration.compile text root = .ok artifact := by
  simp only [compileRead, bind_eq_ok, textRead_eq_ok, mapError_eq_ok]
  exact exists_congr fun text => and_congr_left fun compiled =>
    and_iff_left (Declaration.size_of_compile compiled)

end Reading

section Settings
variable {world : World} {argument : Option Path} {settings : Settings} {bytes : ByteArray}

def settingsPath (world : World) (argument : Option Path) : Path :=
  ((namedSettings? argument : StateM World (Option Path)).run world).1.getD defaultSettingsPath

end Settings

section Failures
variable {α : Type} {world behind last : World} {step : Step (StateM World) α}
  {before : Failure → Step (StateM World) Unit}

end Failures

end Command

def World.opened (world : World) (log : Path) : World :=
  world.onDisk (world.disk.append world.folder log .empty).2

def World.logged (world : World) (log : Path) (event : Event) : World :=
  world.onDisk (world.disk.append world.folder log (event.line world.clock).toUTF8).2

end Toggles
