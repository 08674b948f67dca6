import Toggles.Files.Workspace

/-! Artifacts: files that are written whole, or compared with what would be written. -/

set_option autoImplicit false

namespace Toggles.Artifact

inductive Failure where
  | io (fault : Fault)
  | outputPath (path : Path)
  | outOfDate (path : Path)
  deriving DecidableEq, Repr

def Failure.message : Failure → String
  | .io fault => "io error: " ++ fault.message
  | .outputPath path => "invalid output path: " ++ path.text
  | .outOfDate path => "artifact out of date: " ++ path.text

variable {m : Type → Type} [Monad m] [Workspace m]

def attempt {α : Type} (operation : m (Except Fault α)) : ExceptT Failure m α := do
  match ← operation with
  | .ok value => return value
  | .error fault => throw (.io fault)

/-- Refuse a path that can only be a folder. -/
def checkPath (path : Path) : ExceptT Failure m Unit := do
  let isFolder : Bool ← (Workspace.isFolder path : m Bool)
  if path.isEmpty || isFolder then throw (.outputPath path)

/-- Write an artifact, and make the folders around it. -/
def write (path : Path) (content : ByteArray) : ExceptT Failure m Unit := do
  checkPath path
  match path.parent? with
  | some parent =>
      if !parent.isEmpty then attempt (Workspace.ensureFolders parent)
  | none => pure ()
  attempt (Workspace.writeFile path content)

def verify (path : Path) (content : ByteArray) : ExceptT Failure m Unit := do
  checkPath path
  let present ← attempt (Workspace.readFile path)
  if present.data = content.data then return else throw (.outOfDate path)

end Toggles.Artifact
