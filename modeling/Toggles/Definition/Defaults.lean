import Toggles.Definition.Tree
import Toggles.Document.Basic

/-! Default documents of a definition: every feature enabled, with the parameters
that declare a default. -/

set_option autoImplicit false

namespace Toggles.Definition

open Json (Members)

structure VersionLabel where
  name : String
  description : String
  deriving DecidableEq, Repr

def VersionLabel.standard : VersionLabel := ⟨"enterprise", ""⟩

def defaultParams (parameters : Ordered Parameter) : Members :=
  parameters.filterMap fun (name, parameter) =>
    parameter.defaultValue.map fun value => (name, value)

mutual

/-- The default state of a feature, with its children next to it. Its children are
never named like its state. -/
def Feature.defaultMembers : Feature → Members
  | ⟨metadata, children⟩ =>
      Ordered.insertAll
        [("enabled", .bool true), ("params", .obj (defaultParams metadata.parameters))]
        (defaultsOf children)

def defaultsOf : List (String × Feature) → Members
  | [] => []
  | (name, feature) :: rest => (name, .obj feature.defaultMembers) :: defaultsOf rest

end

def Tree.defaultFeatures (tree : Tree) : Members :=
  defaultsOf tree

def Tree.defaultDocument (tree : Tree) (label : VersionLabel) : Json :=
  .obj [("name", .str label.name), ("description", .str label.description),
    ("features", .obj tree.defaultFeatures)]

def Tree.nestedDefaultDocument (tree : Tree) (label : VersionLabel) : Document :=
  ⟨none, label.name, some label.description, Document.nestFeatures tree.defaultFeatures⟩

end Toggles.Definition
