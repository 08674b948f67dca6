import Toggles.Files.Disk

/-! What the program does to its surroundings.

The program is written once over the operations of a workspace. A world is the
workspace in which its runs can be reasoned about.
-/

set_option autoImplicit false

namespace Toggles

/-- Files, output, surroundings and time. -/
class Workspace (m : Type → Type) where
  readFile : Path → m (Except Fault ByteArray)
  isFile : Path → m Bool
  isFolder : Path → m Bool
  /-- The names in a folder, in whatever order the system has them. -/
  namesIn : Path → m (Except Fault (List FileName))
  isFileIn : Path → FileName → m Bool
  createFolder : Path → m (Except Fault Unit)
  writeFile : Path → ByteArray → m (Except Fault Unit)
  appendFile : Path → ByteArray → m (Except Fault Unit)
  putOut : String → m Unit
  putErr : String → m Unit
  environment? : String → m (Option String)
  milliseconds : m Nat

namespace Workspace

variable {m : Type → Type} [Monad m] [Workspace m]

def ensureFolder (path : Path) : m (Except Fault Unit) := do
  match ← createFolder path with
  | .error .present => return if ← isFolder path then .ok () else .error .present
  | result => return result

/-- Make the first of some folders, each of which lies in the next one, and those
around it that are missing. What was made stays when a later step fails. -/
def ensureNested : List Path → m (Except Fault Unit)
  | [] => return .ok ()
  | path :: outer => do
      match ← ensureFolder path with
      | .error .missing =>
          match ← ensureNested outer with
          | .error fault => return .error fault
          | .ok () => ensureFolder path
      | result => return result

def ensureFolders (path : Path) : m (Except Fault Unit) :=
  ensureNested path.enclosing

end Workspace

abbrev StrayName := { name : FileName // name.text? = none }

/-- A disk with a folder to work in, an environment, a clock, and the output so far. Paths are
texts, so files whose names are none are seen only where the names in a folder are listed. -/
structure World where
  disk : Disk
  folder : Location
  strays : List (Location × StrayName) := []
  environment : Ordered String := []
  clock : Nat := 0
  out : String := ""
  err : String := ""
  deriving Inhabited

namespace World

def observe {α : Type} (look : Disk → Location → α) : StateM World α := do
  let world ← get
  return look world.disk world.folder

def act {α : Type} (operation : Disk → Location → α × Disk) : StateM World α :=
  modifyGet fun world =>
    let (result, disk) := operation world.disk world.folder
    (result, { world with disk })

/-- The names in a folder, those that are no texts behind the others. -/
def namesIn (world : World) (path : Path) : Except Fault (List FileName) := do
  let names ← world.disk.names world.folder path
  let location ← world.disk.locate world.folder path
  return names.map FileName.ofText ++
    (world.strays.filter fun stray => stray.1 = location).map fun stray => stray.2.1

/-- Whether a path to the entry of a folder can be written and leads to a file. -/
def isFileIn (world : World) (path : Path) (name : FileName) : Bool :=
  match name.text?, world.disk.locate world.folder path with
  | some text, _ => world.disk.isFile world.folder (path.join text)
  | none, .ok location =>
      (world.strays.any fun stray => stray.1 = location && stray.2.1 = name) &&
        (path.join "").text.utf8ByteSize + name.length < pathSizeBound
  | none, .error _ => false

end World

instance : Workspace (StateM World) where
  readFile path := World.observe fun disk folder => disk.read folder path
  isFile path := World.observe fun disk folder => disk.isFile folder path
  isFolder path := World.observe fun disk folder => disk.isFolder folder path
  namesIn path := do return (← get).namesIn path
  isFileIn path name := do return (← get).isFileIn path name
  createFolder path := World.act fun disk folder => disk.createFolder folder path
  writeFile path content := World.act fun disk folder => disk.write folder path content
  appendFile path content := World.act fun disk folder => disk.append folder path content
  putOut text := modify fun world => { world with out := world.out ++ text }
  putErr text := modify fun world => { world with err := world.err ++ text }
  environment? name := do return (← get).environment.get? name
  milliseconds := do return (← get).clock

end Toggles
