import Toggles.Definition.Tree

/-! Reading feature definitions.

The members of a feature are read in their order. A member with the name of a
metadata field is metadata, the children member holds children by name, and any
other object is a child itself.
-/

set_option autoImplicit false

namespace Toggles.Definition

def maximumDepth : Nat := 64

/-- Names that the state of a feature has for itself. -/
def reservedNames : List String := ["enabled", "params", "children"]

inductive DefinitionError where
  | notAnObject (path : String)
  | invalidField (path field expected : String)
  | tooDeep (path : String)
  | reservedChildName (path name : String)
  deriving DecidableEq, Repr

def DefinitionError.message : DefinitionError → String
  | .notAnObject path => "feature definition `" ++ path ++ "` must be an object"
  | .invalidField path field expected =>
      "feature definition `" ++ path ++ "` field `" ++ field ++ "` must be " ++ expected
  | .tooDeep path =>
      "feature definition `" ++ path ++ "` exceeds max depth " ++ toString maximumDepth
  | .reservedChildName path name =>
      "feature definition `" ++ path ++ "` declares reserved child name `" ++ name ++ "`"

/-- What a field has to be when it is not, or its value. -/
abbrev Field (α : Type) := Except String α

def readString (value : Json) : Field String :=
  match value with
  | .str text => .ok text
  | _ => .error "a string"

def readBool (value : Json) : Field Bool :=
  match value with
  | .bool flag => .ok flag
  | _ => .error "a boolean"

def readNumber (value : Json) : Field Json :=
  if value.isNumber then .ok value else .error "a number"

def readItems (value : Json) : Field (List Json) :=
  match value with
  | .arr items => .ok items
  | _ => .error "an array"

def readStrings (value : Json) : Field (List String) := do
  (← readItems value).mapM readString

def readParameter (entry : String × Json) : Field (String × Parameter) :=
  match Parameter.decode entry.2 with
  | .ok parameter => .ok (entry.1, parameter)
  | .error _ => .error "an object of parameter specs"

def readParameters (value : Json) : Field (Ordered Parameter) :=
  match value with
  | .obj members => members.mapM readParameter
  | _ => .error "an object"

/-- Take a metadata field into the metadata; other names are none. -/
def Metadata.assign? (metadata : Metadata) (name : String) (value : Json) :
    Option (Field Metadata) :=
  match name with
  | "title" => some do return { metadata with title := some (← readString value) }
  | "description" => some do return { metadata with description := some (← readString value) }
  | "type" => some do return { metadata with kind := some (← readString value) }
  | "enabled" => some do return { metadata with enabled := ← readBool value }
  | "default" => some (.ok { metadata with defaultValue := some value })
  | "min" => some do return { metadata with minimum := some (← readNumber value) }
  | "max" => some do return { metadata with maximum := some (← readNumber value) }
  | "enum" => some do return { metadata with allowed := some (← readItems value) }
  | "enumDescriptions" => some do
      return { metadata with allowedDescriptions := some (← readStrings value) }
  | "params" => some do return { metadata with parameters := ← readParameters value }
  | _ => none

mutual

def readFeature (path : String) (depth : Nat) (value : Json) : Except DefinitionError Feature :=
  if maximumDepth < depth then .error (.tooDeep path)
  else
    match value with
    | .obj members => readMembers path depth ⟨.blank, []⟩ members
    | _ => .error (.notAnObject path)

def readMembers (path : String) (depth : Nat) (soFar : Feature) :
    List (String × Json) → Except DefinitionError Feature
  | [] => .ok soFar
  | (name, value) :: rest =>
      match soFar.metadata.assign? name value with
      | some (.ok metadata) => readMembers path depth ⟨metadata, soFar.children⟩ rest
      | some (.error expected) => .error (.invalidField path name expected)
      | none => do
          let children ←
            if name = "children" then
              match value with
              | .obj members => readChildren path depth soFar.children members
              | _ => .error (.invalidField path name "an object")
            else if value.isObject then do
              let child ← readFeature (childPath path name) (depth + 1) value
              pure (Ordered.insert soFar.children name child)
            else pure soFar.children
          readMembers path depth ⟨soFar.metadata, children⟩ rest

def readChildren (path : String) (depth : Nat) (soFar : List (String × Feature)) :
    List (String × Json) → Except DefinitionError (List (String × Feature))
  | [] => .ok soFar
  | (name, value) :: rest =>
      if name ∈ reservedNames then .error (.reservedChildName path name)
      else do
        let child ← readFeature (childPath path name) (depth + 1) value
        readChildren path depth (Ordered.insert soFar name child) rest

end

def Feature.read (value : Json) : Except DefinitionError Feature :=
  readFeature "" 1 value

def readEntry (entry : String × Json) : Except DefinitionError (String × Feature) := do
  return (entry.1, ← readFeature entry.1 1 entry.2)

def Tree.read : Json → Except DefinitionError Tree
  | .obj members => members.mapM readEntry
  | _ => .error (.notAnObject "")

end Toggles.Definition
