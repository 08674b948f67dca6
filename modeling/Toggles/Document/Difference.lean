import Toggles.Document.Basic
import Toggles.Definition.Tree

/-! What differs between two documents.

Features are compared name by name on every level that both documents have. A
feature that only one of them has is reported alone, without those under it.
-/

set_option autoImplicit false

namespace Toggles.Document

open Json (Members)
open Definition (childPath)

/-- One difference between two states of a feature. Parameters are named by paths. -/
inductive Change where
  | enabled (before after : Bool)
  | added (path : String) (value : Json)
  | removed (path : String)
  | replaced (path : String) (before after : Json)
  deriving Repr

def flagText (flag : Bool) : String :=
  if flag then "true" else "false"

def Change.line : Change → String
  | .enabled before after => "enabled: " ++ flagText before ++ " → " ++ flagText after
  | .added path value => path ++ ": added (" ++ value.compact ++ ")"
  | .removed path => path ++ ": removed"
  | .replaced path before after => path ++ ": " ++ before.compact ++ " → " ++ after.compact

structure Added where
  path : String
  enabled : Bool
  deriving DecidableEq, Repr

structure Modified where
  path : String
  changes : List Change
  deriving Repr

structure Difference where
  added : List Added
  removed : List String
  modified : List Modified
  deriving Repr

namespace Difference

def none : Difference := ⟨[], [], []⟩

def append (first second : Difference) : Difference :=
  ⟨first.added ++ second.added, first.removed ++ second.removed,
    first.modified ++ second.modified⟩

instance : Append Difference := ⟨append⟩

def isEmpty (difference : Difference) : Bool :=
  difference.added.isEmpty && difference.removed.isEmpty && difference.modified.isEmpty

end Difference

def addedMembers (path : String) (before after : Members) : List Change :=
  (after.filter fun (name, _) => !Ordered.contains before name).map fun (name, value) =>
    .added (path ++ "." ++ name) value

mutual

/-- The changes from one member to the one of the same name. Objects are compared
member by member. -/
def changedValue (path : String) (before after : Json) : List Change :=
  match before, after with
  | .obj before, .obj after =>
      changedMembers path after before ++ addedMembers path before after
  | before, after => if before.equivalent after then [] else [.replaced path before after]

def changedMembers (path : String) (after : Members) : List (String × Json) → List Change
  | [] => []
  | (name, before) :: rest =>
      (match Ordered.get? after name with
        | some value => changedValue (path ++ "." ++ name) before value
        | none => [.removed (path ++ "." ++ name)]) ++ changedMembers path after rest

end

def changedObject (path : String) (before after : Members) : List Change :=
  changedMembers path after before ++ addedMembers path before after

def Feature.changes (before after : Feature) : List Change :=
  (if before.enabled = after.enabled then [] else [.enabled before.enabled after.enabled]) ++
    changedObject "params" before.paramMembers after.paramMembers

def addedFeatures (parent : String) (before after : Features) : List Added :=
  (after.filter fun (name, _) => !Ordered.contains before name).map fun (name, feature) =>
    ⟨childPath parent name, feature.enabled⟩

def modification (path : String) (before after : Feature) : Difference :=
  let changes := before.changes after
  if changes.isEmpty then .none else ⟨[], [], [⟨path, changes⟩]⟩

mutual

def differencesAt (path : String) (after : Feature) : Feature → Difference
  | ⟨enabled, params, none, extra⟩ =>
      modification path ⟨enabled, params, none, extra⟩ after ++
        ⟨addedFeatures path [] after.childFeatures, [], []⟩
  | ⟨enabled, params, some children, extra⟩ =>
      modification path ⟨enabled, params, some children, extra⟩ after ++
        ⟨addedFeatures path children after.childFeatures, [], []⟩ ++
        differencesUnder path after.childFeatures children

def differencesUnder (parent : String) (after : Features) : List (String × Feature) → Difference
  | [] => .none
  | (name, before) :: rest =>
      (match Ordered.get? after name with
        | some feature => differencesAt (childPath parent name) feature before
        | none => ⟨[], [childPath parent name], []⟩) ++ differencesUnder parent after rest

end

def difference (before after : Document) : Difference :=
  ⟨addedFeatures "" before.features after.features, [], []⟩ ++
    differencesUnder "" after.features before.features

namespace Difference

def sectionText (title : String) (lines : List String) : String :=
  if lines.isEmpty then "" else String.join ((title :: lines).map (· ++ "\n"))

def spacedSection (title : String) (lines : List String) : String :=
  if lines.isEmpty then "" else sectionText title lines ++ "\n"

def stateText (enabled : Bool) : String :=
  if enabled then "enabled" else "disabled"

/-- A report in Markdown. Equal documents have an empty one. -/
def markdown (difference : Difference) : String :=
  spacedSection "## Added features"
      (difference.added.map fun entry => "- " ++ entry.path ++ ": " ++ stateText entry.enabled) ++
    spacedSection "## Removed features" (difference.removed.map ("- " ++ ·)) ++
    sectionText "## Modified features" (difference.modified.flatMap fun entry =>
      ("### " ++ entry.path) :: entry.changes.map fun change => "  - " ++ change.line)

def toJson (difference : Difference) : Json :=
  .obj [("added", .arr (difference.added.map fun entry =>
      .obj [("feature", .str entry.path), ("enabled", .bool entry.enabled)])),
    ("removed", .arr (difference.removed.map .str)),
    ("modified", .arr (difference.modified.map fun entry =>
      .obj [("feature", .str entry.path),
        ("changes", .arr (entry.changes.map fun change => .str change.line))]))]

end Difference

end Toggles.Document
