import Toggles.Document.Basic
import Toggles.Text.Split

/-! Questions to a document. Features are named by paths with dots between the
names of a feature and of those under it. -/

set_option autoImplicit false

namespace Toggles.Document

open Json (Members)

def pathNames (path : String) : List String :=
  (Text.splitAt '.' path.toList).map String.ofList

def follow? : Features → List String → Option Feature
  | _, [] => none
  | features, [name] => Ordered.get? features name
  | features, name :: rest => do
      let feature ← Ordered.get? features name
      follow? (← feature.children) rest

def feature? (document : Document) (path : String) : Option Feature :=
  follow? document.features (pathNames path)

def hasFeature (document : Document) (path : String) : Bool :=
  (document.feature? path).isSome

/-- A feature that does not exist is not enabled. -/
def isEnabled (document : Document) (path : String) : Bool :=
  match document.feature? path with
  | some feature => feature.enabled
  | none => false

def params? (document : Document) (path : String) : Option Members :=
  (document.feature? path).bind Feature.params

def children? (document : Document) (path : String) : Option Features :=
  (document.feature? path).bind Feature.children

def option? (document : Document) (path option : String) : Option Json :=
  (document.params? path).bind fun params => Ordered.get? params option

def hasOption (document : Document) (path option : String) : Bool :=
  (document.option? path option).isSome

def enabledFeatures (document : Document) : Features :=
  document.features.filter fun (_, feature) => feature.enabled

/-- A feature with its name among its members. A member that it already has under
this name stands in the place of the name. -/
def namedJson (name : String) (feature : Feature) : Json :=
  .obj (Ordered.insertAll [("featureName", .str name)] feature.members)

structure Summary where
  version : Option String
  name : String
  enabledFeatures : Nat
  totalFeatures : Nat
  deriving DecidableEq, Repr

def summary (document : Document) : Summary :=
  ⟨document.version, document.name, document.enabledFeatures.length, document.features.length⟩

def Summary.toJson (summary : Summary) : Json :=
  .obj [("version", match summary.version with
      | some version => .str version
      | none => .null),
    ("name", .str summary.name),
    ("enabledFeatures", .int summary.enabledFeatures),
    ("totalFeatures", .int summary.totalFeatures)]

end Toggles.Document
