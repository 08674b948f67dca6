import Toggles.Files.Fault
import Toggles.Settings.Decode
import Toggles.Text.Blank
import Toggles.Toml.Document

/-! Checking settings, and reading them from TOML text.

Paths are checked without the white space around them, though they are kept with it.
-/

set_option autoImplicit false

namespace Toggles.Settings

open Text (isAllBlank trim utf8Size)

inductive Refusal where
  | unreadable (path : Path) (fault : Fault)
  | unparsable
  | fileTooLarge
  | fileNotText
  | empty (field : String)
  | tooLong (field : String)
  | componentTooLong (field : String)
  | notIdentifier (value : String)
  | separators (field : String)
  | logWithoutPath
  deriving DecidableEq, Repr

def Refusal.reason : Refusal → String
  | .unreadable path fault => path.text ++ ": " ++ fault.message
  | .unparsable => ""
  | .fileTooLarge => "config file exceeds size limit"
  | .fileNotText => "config file must be utf-8"
  | .empty field => field ++ " must be non-empty"
  | .tooLong field => field ++ " exceeds max length"
  | .componentTooLong field => field ++ " component too long"
  | .notIdentifier value => "compiler.root_interface must be an identifier: " ++ value
  | .separators field => field ++ " must not contain path separators"
  | .logWithoutPath => "logging.sink = \"file\" requires logging.path"

def Refusal.message : Refusal → String
  | .unparsable => "config parse error"
  | .unreadable path fault => "config io error: " ++ (Refusal.unreadable path fault).reason
  | refusal => "invalid config: " ++ refusal.reason

def maximumFileSize : Nat := 1048576

def maximumPathSize : Nat := 4096

def maximumComponentSize : Nat := 255

def maximumVersionSize : Nat := 128

def checkPathSize (tooLong componentTooLong : Refusal) (text : List Char) : Except Refusal Unit :=
  if maximumPathSize < utf8Size text then .error tooLong
  else if (Text.splitAt '/' text).any (maximumComponentSize < utf8Size ·) then
    .error componentTooLong
  else .ok ()

def checkPath (field : String) (path : Path) : Except Refusal Unit :=
  let text := trim path.text.toList
  if text.isEmpty then .error (.empty field)
  else checkPathSize (.tooLong field) (.componentTooLong (field ++ " path")) text

def checkFilePath (path : Path) : Except Refusal Unit :=
  checkPathSize (.tooLong "config path") (.componentTooLong "config path") path.text.toList

/-- Check the name of a version, which is also the name of its file. -/
def checkVersion (field name : String) : Except Refusal Unit :=
  if isAllBlank name.toList then .error (.empty field)
  else if maximumVersionSize < name.utf8ByteSize then .error (.tooLong field)
  else if name.toList.any (fun c => c == '/' || c == '\\') || name == "." || name == ".." then
    .error (.separators field)
  else .ok ()

def isIdentifierPart (c : Char) : Bool :=
  c.isAlphanum || c == '_' || c == '$'

/-- ASCII letters, digits, `_` and `$`, with no digit in front. -/
def isIdentifier (text : String) : Bool :=
  match text.toList with
  | [] => false
  | c :: rest => isIdentifierPart c && !c.isDigit && rest.all isIdentifierPart

def Compiler.check (compiler : Compiler) : Except Refusal Unit := do
  checkPath "compiler.source" compiler.source
  checkPath "compiler.output" compiler.output
  if isIdentifier compiler.rootInterface then return
  else .error (.notIdentifier compiler.rootInterface)

def Definitions.check (definitions : Definitions) : Except Refusal Unit := do
  checkPath "definitions.path" definitions.path
  checkPath "definitions.schema_output" definitions.schemaOutput
  checkPath "definitions.defaults_output" definitions.defaultsOutput
  if isAllBlank definitions.defaultName.toList then .error (.empty "definitions.default_name")
  else return

def Versions.check (versions : Versions) : Except Refusal Unit := do
  checkPath "versions.dir" versions.folder
  checkVersion "versions.default_version" versions.defaultVersion

def Logging.check (logging : Logging) : Except Refusal Unit :=
  match logging.sink, logging.path with
  | .file, none => .error .logWithoutPath
  | _, some path => checkPath "logging.path" path
  | _, none => .ok ()

def check (settings : Settings) : Except Refusal Unit := do
  settings.compiler.check
  settings.definitions.check
  settings.versions.check
  settings.logging.check

def parse (text : String) : Except Refusal Settings :=
  if maximumFileSize < text.utf8ByteSize then .error .fileTooLarge
  else
    let decoded := (Toml.parse? text).map fun members =>
      decode .toml (.obj (Toml.membersToJson members))
    match decoded with
    | some (.ok settings) => do
        settings.check
        return settings
    | _ => .error .unparsable

def ofBytes (bytes : ByteArray) : Except Refusal Settings :=
  if maximumFileSize < bytes.size then .error .fileTooLarge
  else
    match String.fromUTF8? bytes with
    | some text => parse text
    | none => .error .fileNotText

def documentName (version : String) : String :=
  version ++ ".json"

def Versions.documentPath (versions : Versions) (name : String) : Except Refusal Path := do
  checkVersion "version" name
  return versions.folder.join (documentName name)

end Toggles.Settings
