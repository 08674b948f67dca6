import Toggles.Command.Input
import Toggles.Command.Parse
import Toggles.Definition.Outline
import Toggles.Document.Difference
import Toggles.Json.Canonical
import Toggles.Json.Pretty
import Toggles.Validation.Schema

/-! Running commands. -/

set_option autoImplicit false

namespace Toggles.Command

variable {m : Type → Type} [Monad m] [Workspace m]

inductive Exit where
  | success
  | failure
  | usage
  deriving DecidableEq, Repr

def Exit.code : Exit → UInt8
  | .success => 0
  | .failure => 1
  | .usage => 2

structure Context where
  settings : Settings
  log : EventLog

def putText (text : String) : Step m Unit :=
  (Workspace.putOut text : m Unit)

def putLine (text : String) : Step m Unit :=
  putText (text ++ "\n")

def record (context : Context) (event : Event) : Step m Unit :=
  (context.log.record event : m Unit)

def emit (context : Context) (value : Json) (path : Path) (check : Bool) : Step m Unit := do
  let content := value.pretty.toUTF8
  if check then
    (Artifact.verify path content).adapt .artifact
    putLine ("artifact up to date: " ++ path.text)
  else
    (Artifact.write path content).adapt .artifact
    record context (.artifact path content.size)
    putLine ("wrote " ++ path.text)

def propertyCount (schema : Json) : Nat :=
  match (schema.member? "properties").bind Json.asObject? with
  | some properties => properties.length
  | none => 0

def compileSource (source : Path) (root : String) : Step m Json := do
  let text ← readSource source
  orFail (.compile source) (Declaration.compile text root)

/-- Run a step, and another one before its failure is passed on. -/
def onFailure {α : Type} (step : Step m α) (before : Failure → Step m Unit) : Step m α :=
  tryCatch step fun failure => do
    before failure
    throw failure

def runCompile (context : Context) (source : Path) (root : String) (output : Path)
    (check : Bool) : Step m Unit := do
  let event (outcome : Event.Outcome) (count : Option Nat) (failure : Option Failure) :=
    Event.compile outcome source root output count (failure.map Failure.kind)
  record context (event .started none none)
  let schema ← onFailure (compileSource source root) fun failure =>
    record context (event .failed none (some failure))
  let count := propertyCount schema
  onFailure (emit context schema output check) fun failure =>
    record context (event .failed (some count) (some failure))
  record context (event .completed (some count) none)

def selectVersion (registry : Registry) (version : Option String) :
    Step m (String × Document) := do
  let requested := version.getD registry.defaultVersion
  match registry.document? requested with
  | none => throw (.unknownVersion requested registry.defaultVersion)
  | some document =>
      return (if registry.contains requested then requested else registry.defaultVersion, document)

def answerQuery (registry : Registry) : Query → Step m (Event × Json)
  | .list =>
      return (.query registry.defaultVersion none "list" true,
        .arr (registry.versions.map .str))
  | .info version => do
      let (version, document) ← selectVersion registry version
      return (.query version none "info" true, document.summary.toJson)
  | .feature question path version => do
      let (version, document) ← selectVersion registry version
      let (found, answer) := question.answer document path
      return (.query version (some path) question.label found, answer)

def runQuery (context : Context) (query : Query) : Step m Unit := do
  let registry ← readRegistry context.settings.versions
  let (event, answer) ← answerQuery registry query
  record context event
  putLine answer.canonical

def differenceText (difference : Document.Difference) : Format → String
  | .json => difference.toJson.pretty
  | .markdown => if difference.isEmpty then "no feature differences\n" else difference.markdown

def runDiff (context : Context) (base target : String) (format : Format) : Step m Unit := do
  let versions := context.settings.versions
  let basePath ← orFail .versionName (versions.documentPath base)
  let targetPath ← orFail .versionName (versions.documentPath target)
  let base ← readDocument basePath
  let target ← readDocument targetPath
  putText (differenceText (Document.difference base target) format)

def runValidate (schemaPath documentPath : Path) : Step m Exit := do
  let schema ← readJson schemaPath
  let document ← readJson documentPath
  match Validation.schemaFault? schema with
  | some violation => throw (.schema schemaPath violation)
  | none =>
      match Validation.check document schema with
      | [] =>
          putLine (documentPath.text ++ ": valid")
          return .success
      | findings =>
          (Workspace.putErr (String.join (findings.map fun finding => finding.message ++ "\n")) :
            m Unit)
          return .failure

def defaultDocument (tree : Definition.Tree) (label : Definition.VersionLabel) (nested : Bool) :
    Json :=
  if nested then (tree.nestedDefaultDocument label).toJson else tree.defaultDocument label

def runCommand (context : Context) (settingsPath : Option Path) : Command → Step m Exit
  | .compile source root target => do
      let compiler := context.settings.compiler
      runCompile context (source.getD compiler.source) (root.getD compiler.rootInterface)
        (target.out.getD compiler.output) target.check
      return .success
  | .schema path target => do
      let definitions := context.settings.definitions
      let tree ← readDefinition (path.getD definitions.path)
      emit context tree.versionSchema (target.out.getD definitions.schemaOutput) target.check
      return .success
  | .defaults path target nested => do
      let definitions := context.settings.definitions
      let tree ← readDefinition (path.getD definitions.path)
      let label := ⟨definitions.defaultName, definitions.defaultDescription⟩
      emit context (defaultDocument tree label nested)
        (target.out.getD definitions.defaultsOutput) target.check
      return .success
  | .types path => do
      let tree ← readDefinition (path.getD context.settings.definitions.path)
      putText (Definition.typeDefinitions tree.versionSchema)
      return .success
  | .query asked => do
      runQuery context asked
      return .success
  | .diff base target format => do
      runDiff context base target format
      return .success
  | .validate schemaPath documentPath => runValidate schemaPath documentPath
  | .checkSettings => do
      let _ ← loadSettings settingsPath
      putLine "config ok"
      return .success

def runInvocation (invocation : Invocation) : Step m Exit := do
  let settings ← loadSettingsOrDefaults invocation.settings
  let started ← (EventLog.start settings.logging : m _)
  let log ← orFail .eventLog started
  runCommand ⟨settings, log⟩ invocation.settings invocation.command

def usageText : String :=
  "usage: feature-gate [--config PATH] COMMAND\n" ++
    "commands: compile, schema, defaults, types, query, diff, validate, config\n"

def run (arguments : List String) : m Exit := do
  match parse arguments with
  | .error .help =>
      Workspace.putOut usageText
      return .success
  | .error .usage =>
      Workspace.putErr usageText
      return .usage
  | .ok invocation =>
      match ← (runInvocation invocation).run with
      | .ok exit => return exit
      | .error failure =>
          Workspace.putErr (failure.message ++ "\n")
          return .failure

end Toggles.Command
