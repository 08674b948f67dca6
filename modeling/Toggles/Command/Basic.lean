import Toggles.Document.Query
import Toggles.Files.Path

/-! The commands of the program. -/

set_option autoImplicit false

namespace Toggles

namespace Command

structure Target where
  out : Option Path
  check : Bool
  deriving DecidableEq, Repr

inductive Question where
  | enabled
  | config
  | params
  | children
  | has
  | option (name : String)
  deriving DecidableEq, Repr

inductive Query where
  | feature (question : Question) (path : String) (version : Option String)
  | info (version : Option String)
  | list
  deriving DecidableEq, Repr

inductive Format where
  | json
  | markdown
  deriving DecidableEq, Repr

end Command

inductive Command where
  | compile (source : Option Path) (root : Option String) (target : Command.Target)
  | schema (definitions : Option Path) (target : Command.Target)
  | defaults (definitions : Option Path) (target : Command.Target) (nested : Bool)
  | types (definitions : Option Path)
  | query (query : Command.Query)
  | diff (base target : String) (format : Command.Format)
  | validate (schema document : Path)
  | checkSettings
  deriving DecidableEq, Repr

namespace Command

structure Invocation where
  settings : Option Path
  command : Command
  deriving DecidableEq, Repr

def Question.label : Question → String
  | .enabled => "enabled"
  | .config => "config"
  | .params => "params"
  | .children => "children"
  | .has => "has"
  | .option _ => "option"

def orNull (answer : Option Json) : Bool × Json :=
  (answer.isSome, answer.getD .null)

/-- Whether what is asked for was found, and the answer. -/
def Question.answer (question : Question) (document : Document) (path : String) : Bool × Json :=
  match question with
  | .enabled => (document.isEnabled path, .bool (document.isEnabled path))
  | .config => orNull ((document.feature? path).map Document.Feature.toJson)
  | .params => orNull ((document.params? path).map Json.obj)
  | .children =>
      orNull ((document.children? path).map fun children => .obj (Document.membersOf children))
  | .has => (document.hasFeature path, .bool (document.hasFeature path))
  | .option name => orNull (document.option? path name)

end Command

end Toggles
