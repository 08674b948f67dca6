import Toggles.Command.Basic
import Toggles.Ordered

/-! Reading a command line.

Options may stand before and behind the words of a command, and after two dashes
everything is a word. An option is given at most once, though the settings file may
be named again for an inner command, which then decides.
-/

set_option autoImplicit false

namespace Toggles.Command

inductive Takes where
  | nothing
  | path
  | text
  | oneOf (values : List String)
  deriving DecidableEq, Repr

abbrev Options := List (String × Takes)

inductive Stop where
  | help
  | usage
  deriving DecidableEq, Repr

structure Scan where
  values : Ordered String := []
  words : List String := []
  deriving DecidableEq, Repr

namespace Scan

def add (scan : Scan) (name value : String) : Except Stop Scan :=
  if Ordered.contains scan.values name then .error .usage
  else .ok { scan with values := Ordered.insert scan.values name value }

def has (scan : Scan) (name : String) : Bool :=
  Ordered.contains scan.values name

def text? (scan : Scan) (name : String) : Option String :=
  Ordered.get? scan.values name

def path? (scan : Scan) (name : String) : Option Path :=
  (scan.text? name).map Path.mk

end Scan

/-- An option takes a value of its kind. A path is not empty. -/
def Takes.admits : Takes → String → Bool
  | .nothing, _ => false
  | .path, value => !value.isEmpty
  | .text, _ => true
  | .oneOf values, value => values.contains value

/-- A dash with something behind it. -/
def looksLikeOption (argument : String) : Bool :=
  match argument.toList with
  | '-' :: _ :: _ => true
  | _ => false

def splitOption (body : List Char) : String × Option String :=
  let name := String.ofList (body.takeWhile (· != '='))
  match body.dropWhile (· != '=') with
  | _ :: value => (name, some (String.ofList value))
  | [] => (name, none)

inductive Expects where
  | name
  | words (atMost : Nat)
  deriving DecidableEq, Repr

/-- Go through arguments. Where a command is to be named, stop at the first word.
The first mistake or call for help decides, so a word too many is refused at once. -/
def scan (options : Options) (expects : Expects) (soFar : Scan) :
    List String → Except Stop (Scan × List String)
  | [] => .ok (soFar, [])
  | argument :: rest =>
      match argument.toList with
      | ['-', '-'] =>
          match expects with
          | .name => .error .usage
          | .words most =>
              if (soFar.words ++ rest).length ≤ most then
                .ok ({ soFar with words := soFar.words ++ rest }, [])
              else .error .usage
      | '-' :: '-' :: body =>
          match splitOption body with
          | ("help", attached) => .error (if attached.isNone then .help else .usage)
          | (name, attached) =>
              match options.lookup name, attached, rest with
              | some .nothing, none, rest => do
                  scan options expects (← soFar.add name "") rest
              | some takes, some value, rest =>
                  if takes.admits value then do
                    scan options expects (← soFar.add name value) rest
                  else .error .usage
              | some takes, none, value :: rest =>
                  if takes.admits value && !looksLikeOption value then do
                    scan options expects (← soFar.add name value) rest
                  else .error .usage
              | _, _, _ => .error .usage
      | '-' :: c :: _ => .error (if c = 'h' then .help else .usage)
      | _ =>
          match expects with
          | .name => .ok (soFar, argument :: rest)
          | .words most =>
              if soFar.words.length < most then
                scan options expects { soFar with words := soFar.words ++ [argument] } rest
              else .error .usage

def commonOptions : Options :=
  [("config", .path)]

def scanName (arguments : List String) :
    Except Stop (Option Path × String × List String) := do
  match ← scan commonOptions .name {} arguments with
  | (found, name :: rest) => return (found.path? "config", name, rest)
  | (_, []) => .error .usage

def scanCommand (settings : Option Path) (options : Options) (most : Nat)
    (build : Scan → Option Command) (arguments : List String) : Except Stop Invocation := do
  let (found, _) ← scan (commonOptions ++ options) (.words most) {} arguments
  match build found with
  | some command => return ⟨(found.path? "config").or settings, command⟩
  | none => .error .usage

def targetOptions : Options :=
  [("out", .path), ("check", .nothing)]

def target (scan : Scan) : Target :=
  ⟨scan.path? "out", scan.has "check"⟩

def definitionsOptions : Options :=
  [("definitions", .path)]

def versionOptions : Options :=
  [("version", .text)]

def pathQuestions : List (String × Question) :=
  [("enabled", .enabled), ("config", .config), ("params", .params), ("children", .children),
    ("has", .has)]

def formatNamed (name : Option String) : Format :=
  if name = some "json" then .json else .markdown

def parseQuery (outer : Option Path) (arguments : List String) : Except Stop Invocation := do
  let (inner, name, rest) ← scanName arguments
  let settings := inner.or outer
  match name with
  | "list" => scanCommand settings [] 0 (fun _ => some (.query .list)) rest
  | "info" =>
      scanCommand settings versionOptions 0
        (fun scan => some (.query (.info (scan.text? "version")))) rest
  | "option" =>
      scanCommand settings versionOptions 2 (fun scan =>
        match scan.words with
        | [path, option] =>
            some (.query (.feature (.option option) path (scan.text? "version")))
        | _ => none) rest
  | name =>
      match pathQuestions.lookup name with
      | none => .error .usage
      | some question =>
          scanCommand settings versionOptions 1 (fun scan =>
            match scan.words with
            | [path] => some (.query (.feature question path (scan.text? "version")))
            | _ => none) rest

def parseConfig (outer : Option Path) (arguments : List String) : Except Stop Invocation := do
  let (inner, name, rest) ← scanName arguments
  match name with
  | "validate" => scanCommand (inner.or outer) [] 0 (fun _ => some .checkSettings) rest
  | _ => .error .usage

def parse (arguments : List String) : Except Stop Invocation := do
  let (settings, name, rest) ← scanName arguments
  match name with
  | "compile" =>
      scanCommand settings (targetOptions ++ [("source", .path), ("root", .text)]) 0 (fun scan =>
        some (.compile (scan.path? "source") (scan.text? "root") (target scan))) rest
  | "schema" =>
      scanCommand settings (targetOptions ++ definitionsOptions) 0 (fun scan =>
        some (.schema (scan.path? "definitions") (target scan))) rest
  | "defaults" =>
      scanCommand settings (targetOptions ++ definitionsOptions ++ [("nested", .nothing)]) 0
        (fun scan =>
          some (.defaults (scan.path? "definitions") (target scan) (scan.has "nested"))) rest
  | "types" =>
      scanCommand settings definitionsOptions 0 (fun scan =>
        some (.types (scan.path? "definitions"))) rest
  | "query" => parseQuery settings rest
  | "diff" =>
      scanCommand settings [("format", .oneOf ["json", "markdown"])] 2 (fun scan =>
        match scan.words with
        | [base, target] => some (.diff base target (formatNamed (scan.text? "format")))
        | _ => none) rest
  | "validate" =>
      scanCommand settings [("schema", .path), ("document", .path)] 0 (fun scan => do
        return .validate (← scan.path? "schema") (← scan.path? "document")) rest
  | "config" => parseConfig settings rest
  | _ => .error .usage

end Toggles.Command
