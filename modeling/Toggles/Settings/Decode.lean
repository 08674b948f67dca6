import Toggles.Json.Decode
import Toggles.Settings.Basic

/-! Decoding settings from a JSON value or from a TOML table.

A record is written as an object, or as an array of its fields in order, and every
field may be left out. The two forms differ only in how strictly arrays are taken.
-/

set_option autoImplicit false

namespace Toggles.Settings

open Json (Decoded DecodeError mismatch)

inductive Form where
  | json
  | toml
  deriving DecidableEq, Repr

structure Field (α : Type) where
  name : String
  take : Json → α → Decoded α

def field {α β : Type} (name : String) (decode : Json → Decoded β) (set : β → α → α) : Field α :=
  ⟨name, fun value record => (decode value).map (set · record)⟩

variable {α : Type}

def takeMember (fields : List (Field α)) (record : α) (member : String × Json) : Decoded α :=
  match fields.find? (·.name = member.1) with
  | some field => field.take member.2 record
  | none => .error (.unknownField member.1 (fields.map Field.name))

def takeInOrder (record : α) : List (Field α) → List Json → Decoded α
  | field :: fields, item :: items => do takeInOrder (← field.take item record) fields items
  | _, _ => .ok record

/-- Decode a record whose fields are set one after the other. Items beyond the last
field are refused in JSON and passed over in TOML. -/
def decodeRecord (form : Form) (label : String) (fields : List (Field α)) (start : α) :
    Json → Decoded α
  | .obj members => members.foldlM (takeMember fields) start
  | .arr items => do
      let record ← takeInOrder start fields items
      if form = .json ∧ fields.length < items.length then
        .error (.invalidLength items.length "fewer elements in array")
      else return record
  | value => mismatch value ("struct " ++ label)

def decodePath : Json → Decoded Path
  | .str text => .ok ⟨text⟩
  | value => mismatch value "path string"

def Sink.names : List (String × Sink) :=
  [("stderr", .stderr), ("file", .file), ("none", .none)]

def decodeSinkName (name : String) : Decoded Sink :=
  match Ordered.get? Sink.names name with
  | some sink => .ok sink
  | none => .error (.unknownVariant name (Ordered.keys Sink.names))

/-- What may stand beside the name of a sink: nothing, in the way of the form. -/
def decodeNothing : Form → Json → Decoded Unit
  | .json, .null | .toml, .arr [] | .toml, .obj [] => .ok ()
  | _, value => mismatch value "unit"

/-- A sink is its name, or an object with that name and nothing beside it. -/
def decodeSink (form : Form) : Json → Decoded Sink
  | .str name => decodeSinkName name
  | .obj [(name, content)] => do
      let sink ← decodeSinkName name
      decodeNothing form content
      return sink
  | .obj members => .error (.invalidValue (.obj members) "map with a single key")
  | value => mismatch value "string or map"

def compilerFields : List (Field Compiler) :=
  [field "source" decodePath fun source record => { record with source },
    field "root_interface" Json.decodeString fun rootInterface record =>
      { record with rootInterface },
    field "output" decodePath fun output record => { record with output }]

def definitionsFields : List (Field Definitions) :=
  [field "path" decodePath fun path record => { record with path },
    field "schema_output" decodePath fun schemaOutput record => { record with schemaOutput },
    field "defaults_output" decodePath fun defaultsOutput record =>
      { record with defaultsOutput },
    field "default_name" Json.decodeString fun defaultName record => { record with defaultName },
    field "default_description" Json.decodeString fun defaultDescription record =>
      { record with defaultDescription }]

def versionsFields : List (Field Versions) :=
  [field "dir" decodePath fun folder record => { record with folder },
    field "default_version" Json.decodeString fun defaultVersion record =>
      { record with defaultVersion }]

def loggingFields (form : Form) : List (Field Logging) :=
  [field "sink" (decodeSink form) fun sink record => { record with sink },
    field "path" (Json.decodeOptional decodePath) fun path record => { record with path }]

def fields (form : Form) : List (Field Settings) :=
  [field "compiler" (decodeRecord form "CompilerConfig" compilerFields {})
      fun compiler record => { record with compiler },
    field "definitions" (decodeRecord form "DefinitionsConfig" definitionsFields {})
      fun definitions record => { record with definitions },
    field "versions" (decodeRecord form "VersionsConfig" versionsFields {})
      fun versions record => { record with versions },
    field "logging" (decodeRecord form "LoggingConfig" (loggingFields form) {})
      fun logging record => { record with logging }]

/-- Decode settings without checking their values. -/
def decode (form : Form) : Json → Decoded Settings :=
  decodeRecord form "FeatureGateConfig" (fields form) {}

end Toggles.Settings
