import Std.Time.DateTime.Timestamp
import Toggles.Command.Run

/-! The program, run in the surroundings that it is started in. -/

set_option autoImplicit false

open Toggles

def errorNumber : IO.Error → UInt32
  | .alreadyExists _ number _ | .otherError number _ | .resourceBusy number _
  | .resourceVanished number _ | .unsupportedOperation number _ | .hardwareFault number _
  | .unsatisfiedConstraints number _ | .illegalOperation number _ | .protocolError number _
  | .timeExpired number _ | .interrupted _ number _ | .noFileOrDirectory _ number _
  | .invalidArgument _ number _ | .permissionDenied _ number _ | .resourceExhausted _ number _
  | .inappropriateType _ number _ | .noSuchThing _ number _ => number
  | .unexpectedEof | .userError _ => 0

/-- What an error of the system means for an operation on a file. Some operations
report its number negated. -/
def faultOf (error : IO.Error) : Fault :=
  let number := errorNumber error
  match min number (0 - number) with
  | 2 => .missing
  | 17 => .present
  | 20 => .notFolder
  | 21 => .isFolder
  | 36 => .nameTooLong
  | _ => .other error.toString

def attempting {α : Type} (path : Path) (operation : IO α) : IO (Except Fault α) := do
  match Disk.checkPath path with
  | .error fault => return .error fault
  | .ok () =>
      match ← operation.toBaseIO with
      | .ok value => return .ok value
      | .error error => return .error (faultOf error)

def placeOf (path : Path) : IO.FS.DirEntry :=
  ⟨path.text, ""⟩

def leadsTo (path : Path) (kind : IO.FS.FileType) : IO Bool := do
  match ← attempting path (placeOf path).root.metadata with
  | .ok found => return found.type == kind
  | .error _ => return false

instance : Workspace IO where
  readFile path := attempting path (IO.FS.readBinFile path.text)
  isFile path := leadsTo path .file
  isFolder path := leadsTo path .dir
  namesIn path := attempting path do
    return (← (placeOf path).root.readDir).toList.map fun entry => .ofText entry.fileName
  isFileIn path name :=
    match name.text? with
    | some text => leadsTo (path.join text) .file
    | none => return false
  createFolder path := attempting path (IO.FS.createDir path.text)
  writeFile path content := attempting path (IO.FS.writeBinFile path.text content)
  appendFile path content := attempting path do
    let handle ← IO.FS.Handle.mk path.text .append
    handle.write content
    handle.flush
  putOut text := do (← IO.getStdout).putStr text
  putErr text := do (← IO.getStderr).putStr text
  environment? name := IO.getEnv name
  milliseconds := do
    return (← Std.Time.Timestamp.now).toMillisecondsSinceUnixEpoch.toInt.toNat

def main (arguments : List String) : IO UInt32 := do
  let exit : Command.Exit ← Command.run arguments
  return exit.code.toUInt32
