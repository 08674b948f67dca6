import Toggles.Document.Query

/-! Documents by version.

A question about a version that is not registered goes to the default version, and
has no answer if that is not registered either.
-/

set_option autoImplicit false

namespace Toggles

structure Registry where
  defaultVersion : String
  documents : Ordered Document
  deriving Repr

namespace Registry

def empty (defaultVersion : String) : Registry := ⟨defaultVersion, []⟩

/-- Register a document. A version that is registered keeps its place. -/
def insert (registry : Registry) (version : String) (document : Document) : Registry :=
  { registry with documents := Ordered.insert registry.documents version document }

/-- The document that is registered for a version itself. -/
def registered? (registry : Registry) (version : String) : Option Document :=
  Ordered.get? registry.documents version

/-- Register a document, and give the one that it takes the place of. -/
def replace (registry : Registry) (version : String) (document : Document) :
    Option Document × Registry :=
  (registry.registered? version, registry.insert version document)

def contains (registry : Registry) (version : String) : Bool :=
  (registry.registered? version).isSome

def versions (registry : Registry) : List String :=
  Ordered.keys registry.documents

def document? (registry : Registry) (version : String) : Option Document :=
  (registry.registered? version).or (registry.registered? registry.defaultVersion)

def isEnabled (registry : Registry) (version path : String) : Bool :=
  match registry.document? version with
  | some document => document.isEnabled path
  | none => false

def feature? (registry : Registry) (version path : String) : Option Document.Feature :=
  (registry.document? version).bind fun document => document.feature? path

def params? (registry : Registry) (version path : String) : Option Json.Members :=
  (registry.document? version).bind fun document => document.params? path

end Registry

end Toggles
