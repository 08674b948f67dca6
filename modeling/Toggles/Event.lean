import Toggles.Json.Compact
import Toggles.Settings.Check
import Toggles.Files.Workspace

/-! Events: what the program records about its work, one JSON line each. -/

set_option autoImplicit false

namespace Toggles

inductive Event.Outcome where
  | started
  | completed
  | failed
  deriving DecidableEq, Repr

inductive Event where
  | compile (outcome : Event.Outcome) (source : Path) (rootInterface : String) (output : Path)
      (propertyCount : Option Nat) (failure : Option String)
  | artifact (path : Path) (size : Nat)
  | query (version : String) (path : Option String) (operation : String) (found : Bool)
  deriving DecidableEq, Repr

namespace Event

def Outcome.label : Outcome → String
  | .started => "compile_started"
  | .completed => "compile_completed"
  | .failed => "compile_failed"

def label : Event → String
  | .compile outcome .. => outcome.label
  | .artifact .. => "artifact_written"
  | .query .. => "query_evaluated"

def optionalText (value : Option String) : Json :=
  (value.map Json.str).getD .null

def details : Event → Json.Members
  | .compile _ source rootInterface output propertyCount failure =>
      [("source", .str source.text), ("root_interface", .str rootInterface),
        ("output", .str output.text),
        ("property_count", (propertyCount.map fun count => Json.int count).getD .null),
        ("error_kind", optionalText failure)]
  | .artifact path size => [("path", .str path.text), ("bytes", .int size)]
  | .query version path operation found =>
      [("version", .str version), ("path", optionalText path), ("operation", .str operation),
        ("found", .bool found)]

def toJson (milliseconds : Nat) (event : Event) : Json :=
  .obj (("event", .str event.label) :: ("timestamp_ms", .int milliseconds) :: event.details)

def line (milliseconds : Nat) (event : Event) : String :=
  (event.toJson milliseconds).compact ++ "\n"

end Event

inductive EventLog where
  | discarded
  | stderr
  | file (path : Path)
  deriving DecidableEq, Repr

namespace EventLog

variable {m : Type → Type} [Monad m] [Workspace m]

/-- Open the event log that settings ask for. A file is made if it is missing. -/
def start (logging : Settings.Logging) : m (Except Fault EventLog) := do
  match logging.sink, logging.path with
  | .none, _ => return .ok .discarded
  | .stderr, _ => return .ok .stderr
  | .file, none => return .error (.other "logging.path is required")
  | .file, some path =>
      match ← Workspace.appendFile path .empty with
      | .ok () => return .ok (.file path)
      | .error fault => return .error fault

/-- Record an event. A line that cannot be written is lost. -/
def record (log : EventLog) (event : Event) : m Unit := do
  let line := event.line (← Workspace.milliseconds)
  match log with
  | .discarded => return
  | .stderr => Workspace.putErr line
  | .file path =>
      let _ ← Workspace.appendFile path line.toUTF8
      return

end EventLog

end Toggles
