import Toggles.Proofs.LineEndings
import Toggles.Proofs.Runs

/-! A check of an artifact, with either line endings in the source.

A run is looked at in two worlds at once, which differ in what the source file holds and in
nothing else. Each step of a check does the same in both and leaves them such a pair.
-/

set_option autoImplicit false

namespace Toggles

/-- A step gives the same result in worlds that are related, and leaves them related. -/
def Agrees (related : World → World → Prop) {α : Type} (step : StateM World α) : Prop :=
  ∀ world other, related world other →
    (step.run other).1 = (step.run world).1 ∧ related (step.run world).2 (step.run other).2

section Steps
variable {related : World → World → Prop} {ε α β : Type}

theorem Agrees.pure (value : α) : Agrees related (pure value) :=
  fun _ _ pair => ⟨rfl, pair⟩

theorem Agrees.bind {step : StateM World α} {next : α → StateM World β}
    (first : Agrees related step) (second : ∀ value, Agrees related (next value)) :
    Agrees related (step >>= next) := by
  intro world other pair
  obtain ⟨same, pairBehind⟩ := first world other pair
  rw [run_bind, run_bind, same]
  exact second _ _ _ pairBehind

theorem Agrees.bindExcept {step : ExceptT ε (StateM World) α} {next : α → ExceptT ε (StateM World) β}
    (first : Agrees related step.run) (second : ∀ value, Agrees related (next value).run) :
    Agrees related (step >>= next).run := by
  rw [ExceptT.run_bind]
  refine first.bind fun result => ?_
  cases result with
  | ok value => exact second value
  | error cause => exact .pure _

theorem Agrees.lift {step : StateM World α} (agrees : Agrees related step) :
    Agrees related (liftM step : ExceptT ε (StateM World) α).run := by
  rw [ExceptT.run_liftM]
  exact agrees.bind fun _ => .pure _

end Steps

structure World.DifferAt (folder : Location) (path : Path) (content contentOther : ByteArray)
    (world other : World) : Prop where
  inFolder : world.folder = folder
  read : world.disk.read folder path = .ok content
  readOther : other.disk.read folder path = .ok contentOther
  differ : Disk.DifferAt (Disk.spelled folder path) world.disk other.disk
  same : ∃ disk, other = { world with disk }

section Operations
variable {folder : Location} {path place : Path} {content contentOther : ByteArray}

theorem agrees_observe {α : Type} {look : Disk → Location → α}
    (alike : ∀ {disk other}, Disk.DifferAt (Disk.spelled folder path) disk other →
      look other folder = look disk folder) :
    Agrees (World.DifferAt folder path content contentOther) (World.observe look) := by
  rintro world _ ⟨rfl, read, readOther, differ, disk, rfl⟩
  exact ⟨alike differ, rfl, read, readOther, differ, disk, rfl⟩

theorem agrees_isFolder (place : Path) : Agrees (World.DifferAt folder path content contentOther)
    (Workspace.isFolder place : StateM World Bool) :=
  agrees_observe fun differ => differ.isFolder folder place

theorem agrees_readFile (elsewhere : Disk.spelled folder place ≠ Disk.spelled folder path) :
    Agrees (World.DifferAt folder path content contentOther)
      (Workspace.readFile place : StateM World (Except Fault ByteArray)) :=
  agrees_observe fun differ => differ.read elsewhere

theorem agrees_putOut (text : String) : Agrees (World.DifferAt folder path content contentOther)
    (Workspace.putOut text : StateM World Unit) := by
  rintro world _ ⟨inFolder, read, readOther, differ, disk, rfl⟩
  exact ⟨rfl, inFolder, read, readOther, differ, disk, rfl⟩

theorem agrees_putErr (text : String) : Agrees (World.DifferAt folder path content contentOther)
    (Workspace.putErr text : StateM World Unit) := by
  rintro world _ ⟨inFolder, read, readOther, differ, disk, rfl⟩
  exact ⟨rfl, inFolder, read, readOther, differ, disk, rfl⟩

theorem agrees_milliseconds : Agrees (World.DifferAt folder path content contentOther)
    (Workspace.milliseconds : StateM World Nat) := by
  rintro world _ ⟨inFolder, read, readOther, differ, disk, rfl⟩
  exact ⟨rfl, inFolder, read, readOther, differ, disk, rfl⟩

theorem agrees_appendFile (elsewhere : Disk.spelled folder place ≠ Disk.spelled folder path)
    (bytes : ByteArray) : Agrees (World.DifferAt folder path content contentOther)
      (Workspace.appendFile place bytes : StateM World (Except Fault Unit)) := by
  rintro world _ ⟨rfl, read, readOther, differ, disk, rfl⟩
  obtain ⟨sameResult, differBehind⟩ := differ.change elsewhere (· ++ bytes)
  exact ⟨sameResult, rfl, Disk.read_change elsewhere _ read, Disk.read_change elsewhere _ readOther,
    differBehind, _, rfl⟩

end Operations

section Commands
variable {folder : Location} {path output : Path} {content contentOther : ByteArray}
  {context : Command.Context} {source sourceOther root : String} {artifact : Json}

open Command (Step Failure)

theorem agrees_onFailure {α : Type} {step : Step (StateM World) α}
    {before : Failure → Step (StateM World) Unit}
    (agrees : Agrees (World.DifferAt folder path content contentOther) step.run)
    (agreesBefore : ∀ failure, Agrees (World.DifferAt folder path content contentOther)
      (before failure).run) :
    Agrees (World.DifferAt folder path content contentOther) (Command.onFailure step before).run := by
  rw [Command.onFailure, ExceptT.run_tryCatch]
  refine agrees.bind fun result => ?_
  cases result with
  | ok value => exact .pure _
  | error failure => exact (agreesBefore failure).bindExcept fun _ => .pure _

/-- The event log, if it is a file, is another one than the source. -/
def LogElsewhere (context : Command.Context) (folder : Location) (path : Path) : Prop :=
  ∀ log, context.log = .file log → Disk.spelled folder log ≠ Disk.spelled folder path

theorem agrees_record (elsewhere : LogElsewhere context folder path) (event : Event) :
    Agrees (World.DifferAt folder path content contentOther)
      (Command.record context event : Step (StateM World) Unit).run := by
  refine Agrees.lift (agrees_milliseconds.bind fun now => ?_)
  cases logged : context.log with
  | discarded => exact .pure _
  | stderr => exact agrees_putErr _
  | file log => exact (agrees_appendFile (elsewhere log logged) _).bind fun _ => .pure _

theorem agrees_verify (elsewhere : Disk.spelled folder output ≠ Disk.spelled folder path)
    (bytes : ByteArray) : Agrees (World.DifferAt folder path content contentOther)
      (Artifact.verify output bytes : ExceptT Artifact.Failure (StateM World) Unit).run := by
  have checks : Agrees (World.DifferAt folder path content contentOther)
      (Artifact.checkPath output : ExceptT Artifact.Failure (StateM World) Unit).run := by
    refine (Agrees.lift (agrees_isFolder output)).bindExcept fun isFolder => ?_
    split
    · exact .pure _
    · exact .pure _
  have reads : Agrees (World.DifferAt folder path content contentOther)
      (Artifact.attempt (Workspace.readFile output) :
        ExceptT Artifact.Failure (StateM World) ByteArray).run := by
    refine (Agrees.lift (agrees_readFile elsewhere)).bindExcept fun result => ?_
    cases result with
    | ok bytes => exact .pure _
    | error fault => exact .pure _
  refine checks.bindExcept fun _ => reads.bindExcept fun present => ?_
  split
  · exact .pure _
  · exact .pure _

theorem agrees_emit_check (elsewhere : Disk.spelled folder output ≠ Disk.spelled folder path)
    (value : Json) : Agrees (World.DifferAt folder path content contentOther)
      (Command.emit context value output true : Step (StateM World) Unit).run := by
  have verifies : Agrees (World.DifferAt folder path content contentOther)
      (ExceptT.adapt Failure.artifact (Artifact.verify output value.pretty.toUTF8 :
        ExceptT Artifact.Failure (StateM World) Unit)).run := by
    rw [ExceptT.run_adapt]
    exact (agrees_verify elsewhere _).bind fun _ => .pure _
  exact verifies.bindExcept fun _ => .lift (agrees_putOut _)

theorem compileSource_of_read {world : World}
    (read : world.disk.read world.folder path = .ok source.toUTF8)
    (compiled : Declaration.compile source root = .ok artifact) :
    (Command.compileSource path root : Step (StateM World) Json).run.run world =
      (.ok artifact, world) := by
  rw [Command.run_compileSource, Command.compileRead_eq_ok.mpr ⟨source, read, compiled⟩]

theorem agrees_compileSource (compiled : Declaration.compile source root = .ok artifact)
    (compiledOther : Declaration.compile sourceOther root = .ok artifact) :
    Agrees (World.DifferAt folder path source.toUTF8 sourceOther.toUTF8)
      (Command.compileSource path root : Step (StateM World) Json).run := by
  rintro world _ ⟨rfl, read, readOther, differ, disk, rfl⟩
  rw [compileSource_of_read read compiled, compileSource_of_read readOther compiledOther]
  exact ⟨rfl, rfl, read, readOther, differ, disk, rfl⟩

-- A check goes the same way for two sources that have the same artifact.
theorem agrees_runCompile_check
    (compiled : Declaration.compile source root = .ok artifact)
    (compiledOther : Declaration.compile sourceOther root = .ok artifact)
    (outputElsewhere : Disk.spelled folder output ≠ Disk.spelled folder path)
    (logElsewhere : LogElsewhere context folder path) :
    Agrees (World.DifferAt folder path source.toUTF8 sourceOther.toUTF8)
      (Command.runCompile context path root output true : Step (StateM World) Unit).run := by
  have records (event : Event) : Agrees (World.DifferAt folder path source.toUTF8 sourceOther.toUTF8)
      (Command.record context event : Step (StateM World) Unit).run :=
    agrees_record logElsewhere event
  have compiles : Agrees (World.DifferAt folder path source.toUTF8 sourceOther.toUTF8)
      (Command.compileSource path root : Step (StateM World) Json).run :=
    agrees_compileSource compiled compiledOther
  refine (records _).bindExcept fun _ => ?_
  refine (agrees_onFailure compiles fun _ => records _).bindExcept fun schema => ?_
  exact (agrees_onFailure (agrees_emit_check outputElsewhere schema) fun _ => records _).bindExcept
    fun _ => records _

end Commands

section Checks
variable {source root : String} {artifact : Json}

open Declaration (withReturns)

def World.withFile (world : World) (path : Path) (text : String) : World :=
  { world with disk := world.disk.put (Disk.spelled world.folder path) (.file text.toUTF8) }

theorem differAt_withFile {world : World} {path : Path} {content : ByteArray}
    (read : world.disk.read world.folder path = .ok content) (text : String) :
    World.DifferAt world.folder path content text.toUTF8 world (world.withFile path text) where
  inFolder := rfl
  read := read
  readOther := by
    obtain ⟨located, file⟩ := (Disk.read_eq_ok content).mp read
    have noFolder : world.disk.entry? (Disk.spelled world.folder path) ≠ some .folder := by
      simp [file]
    exact (Disk.read_eq_ok text.toUTF8).mpr ⟨Disk.locate_put noFolder located,
      Disk.entry?_put_self (Disk.ne_nil_of_not_folder noFolder)⟩
  differ := Disk.differAt_put ((Disk.read_eq_ok content).mp read).2 _
  same := ⟨_, rfl⟩

def verdict (context : Command.Context) (path : Path) (root : String) (output : Path)
    (world : World) : Except Command.Failure Unit :=
  ((Command.runCompile context path root output true : Command.Step (StateM World) Unit).run world).1

/-- Line endings make no difference: if a source without carriage returns is compiled, and none of
its string literals has a line feed behind a backslash, then the source whose lines end with a
carriage return and a line feed is compiled to the same artifact. A check of an artifact comes out
the same with either in the source file. -/
theorem check_withReturns (noReturn : '\r' ∉ source.toList)
    (unbroken : ∀ fragment ∈ Declaration.fragments source.toList,
      fragment.lexeme.isStringLiteral = true → ¬['\\', '\n'] <:+: fragment.text)
    (size : (withReturns source).utf8ByteSize ≤ Declaration.maximumSourceSize)
    (compiled : Declaration.compile source root = .ok artifact) :
    Declaration.compile (withReturns source) root = .ok artifact ∧
      ∀ (context : Command.Context) (world : World) (path output : Path),
        world.disk.read world.folder path = .ok source.toUTF8 →
        Disk.spelled world.folder output ≠ Disk.spelled world.folder path →
        LogElsewhere context world.folder path →
        verdict context path root output (world.withFile path (withReturns source)) =
          verdict context path root output world := by
  have same := Declaration.compile_withReturns noReturn unbroken size compiled
  refine ⟨same, fun context world path output read outputElsewhere logElsewhere => ?_⟩
  exact (agrees_runCompile_check compiled same outputElsewhere logElsewhere _ _
    (differAt_withFile read _)).1

def commentedSource : String :=
  "interface A \x7b // a\n  /** Mode\n   * @default \"fast\"\n   */\n  mode: 'fast';\n\x7d\n"

def commentedInterface : Declaration.Interface :=
  ⟨"A", [⟨"mode", false, some " Mode\n   * @default \"fast\"\n   ", .literal (.string "fast")⟩]⟩

theorem parse_commentedSource :
    Declaration.SourceFile.parse commentedSource = .ok ⟨[commentedInterface]⟩ := by
  have tokenized : Declaration.tokenize commentedSource = .ok ⟨[
      ⟨.word "interface", 0, none⟩, ⟨.word "A", 10, none⟩, ⟨.mark .openBrace, 12, none⟩,
      ⟨.word "mode", 59, some " Mode\n   * @default \"fast\"\n   "⟩, ⟨.mark .colon, 63, none⟩,
      ⟨.quoted "fast", 65, none⟩, ⟨.mark .semicolon, 71, none⟩, ⟨.mark .closeBrace, 73, none⟩],
      75, none⟩ := by
    decide +kernel
  rw [Declaration.SourceFile.parse, tokenized]
  refine Declaration.ofTokens_eq_ok ?_
  with_unfolding_all rfl

def commentedWorld : World where
  disk := ⟨[(["flags.ts"], .file commentedSource.toUTF8),
    (["flags.json"], .file commentedInterface.schema.pretty.toUTF8)]⟩
  folder := []

theorem check_withReturns_commented :
    Declaration.compile (withReturns commentedSource) "A" = .ok commentedInterface.schema ∧
      verdict ⟨{}, .discarded⟩ ⟨"flags.ts"⟩ "A" ⟨"flags.json"⟩
          (commentedWorld.withFile ⟨"flags.ts"⟩ (withReturns commentedSource)) =
        verdict ⟨{}, .discarded⟩ ⟨"flags.ts"⟩ "A" ⟨"flags.json"⟩ commentedWorld := by
  have compiled : Declaration.compile commentedSource "A" = .ok commentedInterface.schema :=
    Declaration.compile_eq_ok_iff.mpr ⟨_, _, parse_commentedSource, rfl, rfl⟩
  obtain ⟨same, verdicts⟩ := check_withReturns (by decide +kernel) (by decide +kernel)
    (by decide +kernel) compiled
  refine ⟨same, verdicts _ _ _ _ ?_ ?_ nofun⟩
  · rfl
  · decide +kernel

end Checks

end Toggles
