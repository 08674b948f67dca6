import Toggles.Command.Failure
import Toggles.Document.Registry
import Toggles.Json.Reader

/-! What commands read: settings, texts, JSON files and the folder of versions. -/

set_option autoImplicit false

namespace Toggles.Command

variable {m : Type → Type} [Monad m] [Workspace m]

abbrev Step (m : Type → Type) (α : Type) := ExceptT Failure m α

def orFail {ε α : Type} (reason : ε → Failure) (result : Except ε α) : Step m α :=
  match result with
  | .ok value => return value
  | .error error => throw (reason error)

def maximumJsonSize : Nat := 8388608

def readBytes (path : Path) (limit : Nat) : Step m ByteArray := do
  let result ← (Workspace.readFile path : m _)
  let bytes ← orFail (.unreadable path) result
  if limit < bytes.size then throw (.tooLarge path bytes.size limit) else return bytes

def readSource (path : Path) : Step m String := do
  match String.fromUTF8? (← readBytes path Declaration.maximumSourceSize) with
  | some text => return text
  | none => throw (.notText path)

def readJson (path : Path) : Step m Json := do
  let bytes ← readBytes path maximumJsonSize
  match (String.fromUTF8? bytes).bind Json.parse? with
  | some value => return value
  | none => throw (.notJson path)

def readDefinition (path : Path) : Step m Definition.Tree := do
  let value ← readJson path
  orFail (.definition path) (Definition.Tree.read value)

/-- Read a version document, whether its children stand next to one another or in a
member of their own. -/
def readDocument (path : Path) : Step m Document := do
  let value ← readJson path
  orFail (.document path) (Document.ofFlattened value)

def defaultSettingsPath : Path := ⟨"feature-gate.toml"⟩

def settingsVariable : String := "FEATURE_GATE_CONFIG"

def namedSettings? (argument : Option Path) : m (Option Path) := do
  match argument with
  | some path => return some path
  | none => return (← Workspace.environment? settingsVariable).map Path.mk

def readSettings (path : Path) : Step m Settings := do
  orFail .settings (Settings.checkFilePath path)
  match ← (Workspace.readFile path : m _) with
  | .error fault => throw (.settings (.unreadable path fault))
  | .ok bytes => orFail .settings (Settings.ofBytes bytes)

/-- Read the settings file, which has to be there. -/
def loadSettings (argument : Option Path) : Step m Settings := do
  let named ← (namedSettings? argument : m _)
  readSettings (named.getD defaultSettingsPath)

/-- Read the settings file, or take the defaults if none is named and none is there. -/
def loadSettingsOrDefaults (argument : Option Path) : Step m Settings := do
  match ← (namedSettings? argument : m _) with
  | some path => readSettings path
  | none =>
      let isFile ← (Workspace.isFile defaultSettingsPath : m _)
      let isFolder ← (Workspace.isFolder defaultSettingsPath : m _)
      if isFile || isFolder then readSettings defaultSettingsPath else return {}

def isDocumentName (name : FileName) : Bool :=
  name.splitExtension.2 = some (.ofText "json")

/-- The version whose document has a name, if what stands before the extension is a text. -/
def versionOf? (name : FileName) : Option String :=
  name.splitExtension.1.text?

/-- The files of documents among those with some names in the folder of versions, in the order of
the bytes of their names. -/
def versionFiles (folder : Path) (names : List FileName) : Step m (List FileName) := do
  let found ← (names.filter isDocumentName).filterM
    fun name => (Workspace.isFileIn folder name : m Bool)
  if maximumVersions < found.length then throw (.tooManyVersions found.length)
  else return found.mergeSort

/-- Register the documents of some files in turn. A file without a version is passed over. -/
def readVersions (folder : Path) (registry : Registry) : List FileName → Step m Registry
  | [] => return registry
  | name :: rest =>
      match versionOf? name with
      | none => readVersions folder registry rest
      | some version => do
          let document ← readDocument (folder.join (Settings.documentName version))
          readVersions folder (registry.insert version document) rest

def registryOf (versions : Settings.Versions) (names : List FileName) : Step m Registry := do
  readVersions versions.folder (.empty versions.defaultVersion)
    (← versionFiles versions.folder names)

def readRegistry (versions : Settings.Versions) : Step m Registry := do
  let result ← (Workspace.namesIn versions.folder : m _)
  registryOf versions (← orFail (.versionsFolder versions.folder) result)

end Toggles.Command
