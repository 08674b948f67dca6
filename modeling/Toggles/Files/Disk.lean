import Toggles.Files.Fault
import Toggles.Files.Path
import Toggles.Ordered

/-! A disk: files and folders at their locations, and the operations on them.

A location is the list of names from the root. A path is followed name by name, and
every name but the last has to lead to a folder. Operations give the disk back
whether they succeed or not.
-/

set_option autoImplicit false

namespace Toggles

/-- The names that lead from the root to a file or folder. -/
abbrev Location := List String

inductive Entry where
  | file (content : ByteArray)
  | folder

structure Disk where
  entries : List (Location × Entry) := []
  deriving Inhabited

def maximumNameSize : Nat := 255

/-- Paths have fewer bytes than this. -/
def pathSizeBound : Nat := 4096

namespace Disk

/-- What is at a location. The root is always a folder. -/
def entry? (disk : Disk) (location : Location) : Option Entry :=
  if location.isEmpty then some .folder else disk.entries.lookup location

def putEntry (location : Location) (entry : Entry) :
    List (Location × Entry) → List (Location × Entry)
  | [] => [(location, entry)]
  | (present, old) :: rest =>
      if present = location then (location, entry) :: rest
      else (present, old) :: putEntry location entry rest

def put (disk : Disk) (location : Location) (entry : Entry) : Disk :=
  ⟨putEntry location entry disk.entries⟩

def remove (disk : Disk) (location : Location) : Disk :=
  ⟨disk.entries.filter fun (present, _) => !location.isPrefixOf present⟩

def follow (disk : Disk) (place : Location) (name : String) : Except Fault Location :=
  match disk.entry? place with
  | none => .error .missing
  | some (.file _) => .error .notFolder
  | some .folder =>
      if Path.isIdle name then .ok place
      else if name = ".." then .ok place.dropLast
      else if maximumNameSize < name.utf8ByteSize then .error .nameTooLong
      else .ok (place ++ [name])

def checkPath (path : Path) : Except Fault Unit :=
  if path.text.toList.contains '\x00' then .error .nulByte
  else if path.isEmpty then .error .missing
  else if pathSizeBound ≤ path.text.utf8ByteSize then .error .nameTooLong
  else .ok ()

def startOf (folder : Location) (path : Path) : Location :=
  if path.isAbsolute then [] else folder

/-- The location of a path, at which nothing has to be. -/
def locate (disk : Disk) (folder : Location) (path : Path) : Except Fault Location := do
  checkPath path
  path.parts.foldlM disk.follow (startOf folder path)

def at? (disk : Disk) (folder : Location) (path : Path) : Option Entry :=
  match disk.locate folder path with
  | .ok location => disk.entry? location
  | .error _ => none

def isFolder (disk : Disk) (folder : Location) (path : Path) : Bool :=
  match disk.at? folder path with
  | some .folder => true
  | _ => false

def isFile (disk : Disk) (folder : Location) (path : Path) : Bool :=
  match disk.at? folder path with
  | some (.file _) => true
  | _ => false

def read (disk : Disk) (folder : Location) (path : Path) : Except Fault ByteArray := do
  match disk.entry? (← disk.locate folder path) with
  | none => .error .missing
  | some .folder => .error .isFolder
  | some (.file content) => .ok content

def nameWithin? (folder location : Location) : Option String :=
  match location.getLast? with
  | some name => if location.dropLast = folder then some name else none
  | none => none

def names (disk : Disk) (folder : Location) (path : Path) : Except Fault (List String) := do
  let location ← disk.locate folder path
  match disk.entry? location with
  | none => .error .missing
  | some (.file _) => .error .notFolder
  | some .folder => .ok (disk.entries.filterMap fun (present, _) => nameWithin? location present)

/-- The parts of a path up to its last name, for which an idle part stands. -/
def partsBeforeName (path : Path) : List String :=
  (path.parts.reverse.dropWhile (· == "")).reverse.dropLast ++ [""]

/-- The location of a file that may be made. A slash behind its name would make it
a folder. -/
def locateFile (disk : Disk) (folder : Location) (path : Path) : Except Fault Location :=
  if path.endsWithSlash then do
    checkPath path
    let _ ← (partsBeforeName path).foldlM disk.follow (startOf folder path)
    .error .isFolder
  else disk.locate folder path

/-- Replace the content of a file, which is made if it is missing. -/
def change (disk : Disk) (folder : Location) (path : Path) (content : ByteArray → ByteArray) :
    Except Fault Unit × Disk :=
  match disk.locateFile folder path with
  | .error fault => (.error fault, disk)
  | .ok location =>
      match disk.entry? location with
      | some .folder => (.error .isFolder, disk)
      | some (.file present) => (.ok (), disk.put location (.file (content present)))
      | none => (.ok (), disk.put location (.file (content .empty)))

def write (disk : Disk) (folder : Location) (path : Path) (content : ByteArray) :
    Except Fault Unit × Disk :=
  disk.change folder path fun _ => content

def append (disk : Disk) (folder : Location) (path : Path) (content : ByteArray) :
    Except Fault Unit × Disk :=
  disk.change folder path (· ++ content)

def createFolder (disk : Disk) (folder : Location) (path : Path) : Except Fault Unit × Disk :=
  match disk.locate folder path with
  | .error fault => (.error fault, disk)
  | .ok location =>
      match disk.entry? location with
      | some _ => (.error .present, disk)
      | none => (.ok (), disk.put location .folder)

end Disk

end Toggles
