import Toggles.Json.Decode

/-! The state of features in a configuration document.

A feature keeps every member that it does not know, so that it can be returned as
it was written.
-/

set_option autoImplicit false

namespace Toggles.Document

open Json (Decoded Members)

structure Feature where
  enabled : Bool
  params : Option Members
  children : Option (List (String × Feature))
  extra : Members
  deriving Repr

/-- A feature about which nothing is said is disabled. -/
def Feature.blank : Feature := ⟨false, none, none, []⟩

abbrev Features := Ordered Feature

/-- The features under a feature; a missing map counts as an empty one. -/
def Feature.childFeatures (feature : Feature) : Features :=
  feature.children.getD []

/-- The parameters of a feature; a missing object counts as an empty one. -/
def Feature.paramMembers (feature : Feature) : Members :=
  feature.params.getD []

mutual

def Feature.members : Feature → Members
  | ⟨enabled, params, children, extra⟩ =>
      [some ("enabled", Json.bool enabled), params.map fun params => ("params", .obj params),
        match children with
        | some children => some ("children", .obj (membersOf children))
        | none => none].filterMap id ++ extra

def membersOf : List (String × Feature) → Members
  | [] => []
  | (name, feature) :: rest => (name, .obj feature.members) :: membersOf rest

end

def Feature.toJson (feature : Feature) : Json :=
  .obj feature.members

mutual

def decodeFeature : Json → Decoded Feature
  | .obj members => decodeInto .blank members
  | value => Json.mismatch value "struct FeatureInstance"

def decodeInto (soFar : Feature) : List (String × Json) → Decoded Feature
  | [] => .ok soFar
  | (name, value) :: rest =>
      if name = "enabled" then do
        let enabled ← Json.decodeBool value
        decodeInto { soFar with enabled := enabled } rest
      else if name = "params" then do
        let params ← Json.decodeOptional Json.decodeMembers value
        decodeInto { soFar with params := params } rest
      else if name = "children" then
        match value with
        | .null => decodeInto { soFar with children := none } rest
        | .obj members => do
            let children ← decodeFeatures members
            decodeInto { soFar with children := some children } rest
        | value => Json.mismatch value "a map"
      else decodeInto { soFar with extra := Ordered.insert soFar.extra name value } rest

def decodeFeatures : List (String × Json) → Decoded (List (String × Feature))
  | [] => .ok []
  | (name, value) :: rest => do
      let feature ← decodeFeature value
      return (name, feature) :: (← decodeFeatures rest)

end

end Toggles.Document
