import Toggles.Definition.Parameter

/-! Feature definitions: a tree of features with their metadata and parameters. -/

set_option autoImplicit false

namespace Toggles.Definition

structure Metadata where
  title : Option String
  description : Option String
  enabled : Bool
  kind : Option String
  defaultValue : Option Json
  minimum : Option Json
  maximum : Option Json
  allowed : Option (List Json)
  allowedDescriptions : Option (List String)
  parameters : Ordered Parameter
  deriving Repr

/-- A feature is enabled unless it says otherwise. -/
def Metadata.blank : Metadata :=
  ⟨none, none, true, none, none, none, none, none, none, []⟩

structure Feature where
  metadata : Metadata
  children : List (String × Feature)
  deriving Repr

abbrev Tree := Ordered Feature

def Feature.isLeaf (feature : Feature) : Bool :=
  feature.children.isEmpty

def childPath (parent name : String) : String :=
  if parent.isEmpty then name else parent ++ "." ++ name

def Metadata.members (metadata : Metadata) : Json.Members :=
  [metadata.title.map fun text => ("title", Json.str text),
    metadata.description.map fun text => ("description", .str text),
    some ("enabled", .bool metadata.enabled),
    metadata.kind.map fun kind => ("type", .str kind),
    metadata.defaultValue.map fun value => ("default", value),
    metadata.minimum.map fun value => ("min", value),
    metadata.maximum.map fun value => ("max", value),
    metadata.allowed.map fun values => ("enum", .arr values),
    metadata.allowedDescriptions.map fun texts => ("enumDescriptions", .arr (texts.map .str)),
    if metadata.parameters.isEmpty then none
    else some ("params", .obj (Ordered.mapValues Parameter.toJson metadata.parameters))
  ].filterMap id

mutual

/-- The normal form of a feature: its children stand under a member of their own. -/
def Feature.toJson : Feature → Json
  | ⟨metadata, []⟩ => .obj metadata.members
  | ⟨metadata, child :: children⟩ =>
      .obj (metadata.members ++ [("children", .obj (membersOf (child :: children)))])

def membersOf : List (String × Feature) → Json.Members
  | [] => []
  | (name, feature) :: rest => (name, feature.toJson) :: membersOf rest

end

def Tree.toJson (tree : Tree) : Json :=
  .obj (membersOf tree)

mutual

def Feature.leafPaths (path : String) : Feature → List String
  | ⟨_, []⟩ => [path]
  | ⟨_, child :: children⟩ => leafPathsUnder path (child :: children)

def leafPathsUnder (parent : String) : List (String × Feature) → List String
  | [] => []
  | (name, feature) :: rest =>
      feature.leafPaths (childPath parent name) ++ leafPathsUnder parent rest

end

mutual

def Feature.height : Feature → Nat
  | ⟨_, children⟩ => heightOf children + 1

def heightOf : List (String × Feature) → Nat
  | [] => 0
  | (_, feature) :: rest => max feature.height (heightOf rest)

end

end Toggles.Definition
