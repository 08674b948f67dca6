import Toggles.Declaration.Schema
import Toggles.Definition.Tree

/-! The schema of the documents that fit a definition.

A feature is an object with its state and, next to it, its children. Parameters
that are not declared are refused.
-/

set_option autoImplicit false

namespace Toggles.Definition

open Declaration (dialect typed)
open Json (Members)

def described (kind title description : String) : Members :=
  typed kind ++ [("title", .str title), ("description", .str description)]

def enabledSchema : Json :=
  .obj (described "boolean" "Enabled" "Whether the feature is enabled" ++
    [("default", .bool true)])

def paramsSchema (parameters : Ordered Parameter) : Json :=
  .obj (described "object" "Parameters" "Parameters of the feature" ++
    [("properties", .obj (parameters.map fun (name, parameter) =>
        (name, parameter.schema name))),
      ("additionalProperties", .bool false)])

mutual

/-- The schema of a feature, titled with its name unless it has a title. -/
def Feature.schema (name : String) : Feature → Json
  | ⟨metadata, children⟩ =>
      .obj ([("type", Json.str "object"), ("title", .str (metadata.title.getD name))] ++
        (match metadata.description with
          | some text => [("description", .str text)]
          | none => []) ++
        [("properties", .obj (Ordered.insertAll
          [("enabled", enabledSchema), ("params", paramsSchema metadata.parameters)]
          (featureSchemas children)))])

def featureSchemas : List (String × Feature) → Members
  | [] => []
  | (name, feature) :: rest => (name, feature.schema name) :: featureSchemas rest

end

def Tree.featureProperties (tree : Tree) : Members :=
  featureSchemas tree

def Tree.versionSchema (tree : Tree) : Json :=
  .obj [("$schema", .str dialect), ("type", .str "object"),
    ("properties", .obj [
      ("name", .obj (described "string" "Version name"
        "Version name, such as enterprise or community")),
      ("description", .obj (described "string" "Version description"
        "Detailed description of the version")),
      ("features", .obj [("type", .str "object"), ("title", .str "Feature list"),
        ("properties", .obj tree.featureProperties), ("additionalProperties", .bool false)])]),
    ("required", .arr [.str "name", .str "features"]),
    ("additionalProperties", .bool false)]

end Toggles.Definition
