import Toggles.Json.Basic

/-! Values of a TOML text and the rules by which its tables grow.

A table may be begun by a longer header, by its own header or by a dotted key, and
what may be added to it later depends on that. A value in braces or brackets is
complete where it stands.
-/

set_option autoImplicit false

namespace Toggles

/-- What brought a table into being. -/
inductive Toml.Origin where
  /-- The header of a table inside it. -/
  | implied
  /-- Its own header. -/
  | declared
  /-- A dotted key. -/
  | dotted
  /-- A value in braces. -/
  | closed
  deriving DecidableEq, Repr

inductive Toml where
  | str (value : String)
  | bool (value : Bool)
  /-- A number, a date or a time as it is written. -/
  | unquoted (written : String)
  | arr (items : List Toml)
  | table (origin : Toml.Origin) (members : List (String × Toml))
  /-- A list of tables that grows by headers, the latest table first. -/
  | tables (members : List (List (String × Toml)))
  deriving Repr, Inhabited

namespace Toml

abbrev Members := Ordered Toml

/-- Change the table to which the names of a header lead. Tables on the way are
made where they are missing, and of a list of tables the latest one is meant. -/
def changeAt (change : Members → Option Members) : List String → Members → Option Members
  | [], members => change members
  | name :: path, members =>
      match Ordered.get? members name with
      | none => do
          let inner ← changeAt change path []
          return Ordered.insert members name (.table .implied inner)
      | some (.table .closed _) => none
      | some (.table origin inner) => do
          let inner ← changeAt change path inner
          return Ordered.insert members name (.table origin inner)
      | some (.tables (latest :: earlier)) => do
          let latest ← changeAt change path latest
          return Ordered.insert members name (.tables (latest :: earlier))
      | some _ => none

/-- Begin the table of a header, which may only have been implied before. -/
def declareTable (name : String) (members : Members) : Option Members :=
  match Ordered.get? members name with
  | none => some (Ordered.insert members name (.table .declared []))
  | some (.table .implied inner) => some (Ordered.insert members name (.table .declared inner))
  | some _ => none

def declareNext (name : String) (members : Members) : Option Members :=
  match Ordered.get? members name with
  | none => some (Ordered.insert members name (.tables [[]]))
  | some (.tables earlier) => some (Ordered.insert members name (.tables ([] :: earlier)))
  | some _ => none

/-- Give a value to a dotted key. A name is given one value, and only tables that
dotted keys began are added to. -/
def assign (value : Toml) : List String → Members → Option Members
  | [], _ => none
  | [name], members =>
      if Ordered.contains members name then none else some (Ordered.insert members name value)
  | name :: path, members =>
      match Ordered.get? members name with
      | none => do
          let inner ← assign value path []
          return Ordered.insert members name (.table .dotted inner)
      | some (.table .dotted inner) => do
          let inner ← assign value path inner
          return Ordered.insert members name (.table .dotted inner)
      | some _ => none

mutual

/-- The same value in JSON, without what brought its tables into being. Numbers,
dates and times have no counterpart and become members, so none is taken for a text. -/
def toJson : Toml → Json
  | .str value => .str value
  | .bool value => .bool value
  | .unquoted written => .obj [("unquoted", .str written)]
  | .arr items => .arr (itemsToJson items)
  | .table _ members => .obj (membersToJson members)
  | .tables members => .arr (tablesToJson members).reverse

def itemsToJson : List Toml → List Json
  | [] => []
  | item :: rest => toJson item :: itemsToJson rest

def membersToJson : List (String × Toml) → List (String × Json)
  | [] => []
  | (name, value) :: rest => (name, toJson value) :: membersToJson rest

def tablesToJson : List (List (String × Toml)) → List Json
  | [] => []
  | members :: rest => .obj (membersToJson members) :: tablesToJson rest

end

end Toml

end Toggles
