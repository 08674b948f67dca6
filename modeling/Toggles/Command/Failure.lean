import Toggles.Artifact
import Toggles.Declaration.Schema
import Toggles.Definition.Reader
import Toggles.Document.Basic
import Toggles.Event
import Toggles.Validation.Violation

/-! Why a command fails. -/

set_option autoImplicit false

namespace Toggles.Command

def maximumVersions : Nat := 1024

inductive Failure where
  | settings (refusal : Settings.Refusal)
  | eventLog (fault : Fault)
  | unreadable (path : Path) (fault : Fault)
  | tooLarge (path : Path) (size limit : Nat)
  | notText (path : Path)
  | notJson (path : Path)
  | compile (path : Path) (error : Declaration.CompileError)
  | definition (path : Path) (error : Definition.DefinitionError)
  | document (path : Path) (error : Document.ReadError)
  | schema (path : Path) (violation : Validation.Violation)
  | artifact (failure : Artifact.Failure)
  | versionName (refusal : Settings.Refusal)
  | versionsFolder (folder : Path) (fault : Fault)
  | tooManyVersions (count : Nat)
  | unknownVersion (requested fallback : String)

def Failure.message : Failure → String
  | .settings refusal => "failed to load config: " ++ refusal.message
  | .eventLog fault => "failed to open event log: " ++ fault.message
  | .unreadable path fault => "failed to read " ++ path.text ++ ": " ++ fault.message
  | .tooLarge path size limit =>
      path.text ++ " is too large: " ++ toString size ++ " bytes (max " ++ toString limit ++ ")"
  | .notText path => path.text ++ " must be utf-8"
  | .notJson path => path.text ++ ": invalid json"
  | .compile path error => path.text ++ ": " ++ error.message
  | .definition path error => path.text ++ ": " ++ error.message
  | .document path error => path.text ++ ": " ++ error.message
  | .schema path violation => path.text ++ ": invalid schema: " ++ violation.message
  | .artifact failure => failure.message
  | .versionName refusal => refusal.message
  | .versionsFolder folder fault =>
      "failed to read versions dir " ++ folder.text ++ ": " ++ fault.message
  | .tooManyVersions count =>
      "versions dir holds " ++ toString count ++ " documents (max " ++ toString maximumVersions ++
        ")"
  | .unknownVersion requested fallback =>
      "version `" ++ requested ++ "` not found and default version `" ++ fallback ++
        "` is not loaded"

/-- The kind of a failed compilation, as events record it. -/
def Failure.kind : Failure → String
  | .compile _ (.source _) => "parse"
  | .compile _ (.definitionNotFound _) => "definition_not_found"
  | .artifact _ => "artifact"
  | _ => "io"

end Toggles.Command
