import Toggles.Json.Decode

/-! Declared parameters of features.

A parameter has a few known constraints; the others are kept as they are.
-/

set_option autoImplicit false

namespace Toggles.Definition

open Json (Decoded Members)

/-- A declared parameter. A default of null is a default. -/
structure Parameter where
  kind : Option String
  title : Option String
  description : Option String
  defaultValue : Option Json
  minimum : Option Json
  maximum : Option Json
  allowed : Option (List Json)
  allowedDescriptions : Option (List String)
  extra : Members
  deriving Repr

namespace Parameter

def blank : Parameter := ⟨none, none, none, none, none, none, none, none, []⟩

/-- Decode a bound: any value but null. -/
def decodeBound (value : Json) : Decoded (Option Json) :=
  Json.decodeOptional .ok value

def assign (parameter : Parameter) (name : String) (value : Json) : Decoded Parameter :=
  match name with
  | "type" => do return { parameter with kind := ← Json.decodeOptional Json.decodeString value }
  | "title" => do return { parameter with title := ← Json.decodeOptional Json.decodeString value }
  | "description" => do
      return { parameter with description := ← Json.decodeOptional Json.decodeString value }
  | "default" => .ok { parameter with defaultValue := some value }
  | "minimum" => do return { parameter with minimum := ← decodeBound value }
  | "maximum" => do return { parameter with maximum := ← decodeBound value }
  | "enum" => do return { parameter with allowed := ← Json.decodeOptional Json.decodeItems value }
  | "enumDescriptions" => do
      return { parameter with
        allowedDescriptions := ← Json.decodeOptional Json.decodeStrings value }
  | name => .ok { parameter with extra := Ordered.insert parameter.extra name value }

def decode : Json → Decoded Parameter
  | .obj members =>
      members.foldlM (fun parameter (name, value) => parameter.assign name value) blank
  | value => Json.mismatch value "struct ParameterSpec"

/-- The constraints that stand after the title in every form of a parameter. -/
def constraints (parameter : Parameter) : Members :=
  [parameter.description.map fun text => ("description", Json.str text),
    parameter.defaultValue.map fun value => ("default", value),
    parameter.minimum.map fun value => ("minimum", value),
    parameter.maximum.map fun value => ("maximum", value),
    parameter.allowed.map fun values => ("enum", .arr values),
    parameter.allowedDescriptions.map fun texts => ("enumDescriptions", .arr (texts.map .str))
  ].filterMap id

def toJson (parameter : Parameter) : Json :=
  .obj ([parameter.kind.map fun kind => ("type", Json.str kind),
    parameter.title.map fun title => ("title", Json.str title)].filterMap id ++
      parameter.constraints ++ parameter.extra)

/-- Assign the entries whose names are not yet there. -/
def keepingPresent (present added : Members) : Members :=
  present ++ added.filter fun (name, _) => !Ordered.contains present name

/-- The schema of a parameter: a string titled with its key, unless it says otherwise. -/
def schema (key : String) (parameter : Parameter) : Json :=
  .obj (keepingPresent
    ([("type", .str (parameter.kind.getD "string")), ("title", .str (parameter.title.getD key))] ++
      parameter.constraints)
    parameter.extra)

end Parameter

end Toggles.Definition
