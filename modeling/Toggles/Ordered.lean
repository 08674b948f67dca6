/-! Finite maps from names that remember the order in which names arrived.

Assigning to a present name keeps its place. An element is removed either by
closing the gap or by moving the last entry into it.
-/

set_option autoImplicit false

namespace Toggles

abbrev Ordered (α : Type) := List (String × α)

namespace Ordered

variable {α β : Type}

def get? : Ordered α → String → Option α
  | [], _ => none
  | (key, value) :: rest, name => if key = name then some value else get? rest name

def contains (entries : Ordered α) (name : String) : Bool :=
  (get? entries name).isSome

def keys (entries : Ordered α) : List String :=
  entries.map Prod.fst

/-- Assign a value to a name, at its place or at the end. -/
def insert : Ordered α → String → α → Ordered α
  | [], name, value => [(name, value)]
  | (key, present) :: rest, name, value =>
      if key = name then (key, value) :: rest else (key, present) :: insert rest name value

def insertAll (entries added : Ordered α) : Ordered α :=
  added.foldl (fun result (name, value) => insert result name value) entries

/-- The entries of a list in which a later entry of a name replaces an earlier one. -/
def ofList (entries : List (String × α)) : Ordered α :=
  insertAll [] entries

def erase (entries : Ordered α) (name : String) : Ordered α :=
  entries.filter fun (key, _) => key ≠ name

/-- Put the last entry in the place of a name that is removed. -/
def swapErase : Ordered α → String → Ordered α
  | [], _ => []
  | (key, value) :: rest, name =>
      if key = name then
        match rest.getLast? with
        | none => []
        | some last => last :: rest.dropLast
      else (key, value) :: swapErase rest name

def mapValues (f : α → β) (entries : Ordered α) : Ordered β :=
  entries.map fun (name, value) => (name, f value)

def Distinct (entries : Ordered α) : Prop :=
  (keys entries).Nodup

end Ordered

end Toggles
