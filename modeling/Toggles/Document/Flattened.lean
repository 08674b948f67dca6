import Toggles.Document.Feature

/-! Features in flattened form, where the children of a feature stand next to its
own state.

Every object that is not part of the state of a feature is a child of it. Children
in a member of their own come first, and a flattened child of the same name takes
the place of one of them.
-/

set_option autoImplicit false

namespace Toggles.Document

open Json (Members)

structure Flattened where
  enabled : Bool
  params : Option Members
  explicit : List (String × Feature)
  siblings : List (String × Feature)
  extra : Members

def Flattened.blank : Flattened := ⟨false, none, [], [], []⟩

def Flattened.toFeature (parts : Flattened) : Feature :=
  let children := Ordered.insertAll parts.explicit parts.siblings
  ⟨parts.enabled, parts.params, if children.isEmpty then none else some children, parts.extra⟩

mutual

/-- The feature that a value describes; only objects describe one. -/
def nestFeature? : Json → Option Feature
  | .obj members => some (flattenedParts members).toFeature
  | _ => none

/-- The features that a map describes; other entries are left out. -/
def nestFeatures : List (String × Json) → List (String × Feature)
  | [] => []
  | (name, value) :: rest =>
      match nestFeature? value with
      | some feature => (name, feature) :: nestFeatures rest
      | none => nestFeatures rest

def flattenedParts : List (String × Json) → Flattened
  | [] => .blank
  | (name, value) :: rest =>
      let parts := flattenedParts rest
      if name = "enabled" then { parts with enabled := value.asBool?.getD false }
      else if name = "params" then { parts with params := value.asObject? }
      else if name = "children" then
        match value with
        | .obj members => { parts with explicit := nestFeatures members }
        | _ => { parts with explicit := [] }
      else
        match nestFeature? value with
        | some feature => { parts with siblings := (name, feature) :: parts.siblings }
        | none => { parts with extra := (name, value) :: parts.extra }

end

end Toggles.Document
