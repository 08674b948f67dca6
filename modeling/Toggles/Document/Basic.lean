import Toggles.Document.Flattened

/-! Configuration documents: the state of all features in one version.

A document is read from a JSON object in either of two forms, which differ in
where the children of a feature stand. Members are decoded in their order, so that
order decides which of several faults is reported.
-/

set_option autoImplicit false

namespace Toggles

open Json (Decoded Members)

structure Document where
  version : Option String
  name : String
  description : Option String
  features : Document.Features
  deriving Repr

namespace Document

inductive ReadError where
  | notAnObject
  | missingFeatures
  | invalid (cause : Json.DecodeError)
  deriving Repr

def ReadError.message : ReadError → String
  | .notAnObject => "configuration document must be an object"
  | .missingFeatures => "configuration document `features` must be an object"
  | .invalid cause => "invalid configuration document: " ++ cause.message

def blank : Document := ⟨none, "", none, []⟩

def assign (document : Document) (name : String) (value : Json) : Decoded Document :=
  match name with
  | "version" => do
      return { document with version := ← Json.decodeOptional Json.decodeString value }
  | "name" => do return { document with name := ← Json.decodeString value }
  | "description" => do
      return { document with description := ← Json.decodeOptional Json.decodeString value }
  | "features" => do
      return { document with features := ← decodeFeatures (← Json.decodeMembers value) }
  | _ => .ok document

def decode (members : Members) : Except ReadError Document :=
  match members.foldlM (fun document (name, value) => document.assign name value) blank with
  | .ok document => .ok document
  | .error cause => .error (.invalid cause)

/-- Read a document whose features have their children in a member of their own. -/
def ofNested : Json → Except ReadError Document
  | .obj members =>
      match Ordered.get? members "features" with
      | some (.obj _) => decode members
      | _ => .error .missingFeatures
  | _ => .error .notAnObject

/-- Read a document with flattened features. They are taken out first, which puts
the last member in their place. -/
def ofFlattened : Json → Except ReadError Document
  | .obj members =>
      match Ordered.get? members "features" with
      | some (.obj features) => do
          let document ← decode (Ordered.swapErase members "features")
          return { document with features := nestFeatures features }
      | _ => .error .missingFeatures
  | _ => .error .notAnObject

def toJson (document : Document) : Json :=
  .obj ([document.version.map fun version => ("version", .str version),
    some ("name", .str document.name),
    document.description.map fun text => ("description", .str text),
    some ("features", .obj (membersOf document.features))].filterMap id)

end Document

end Toggles
