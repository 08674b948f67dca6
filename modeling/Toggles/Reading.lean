/-! Readings: a value read off the front of a list, with what is left of it.

What is left is shorter than a bound, which the reading proves. A reader takes its
input for the bound, so a loop over readers ends when the input does.
-/

set_option autoImplicit false

namespace Toggles

/-- A value with the items behind it, which are fewer than a bound. -/
structure Reading (Item α : Type) (bound : Nat) where
  value : α
  rest : List Item
  within : rest.length < bound

namespace Reading

variable {Item α β : Type} {small large : Nat}

def map (f : α → β) (reading : Reading Item α small) : Reading Item β small :=
  ⟨f reading.value, reading.rest, reading.within⟩

def widen (reading : Reading Item α small) (le : small ≤ large) : Reading Item α large :=
  ⟨reading.value, reading.rest, Nat.lt_of_lt_of_le reading.within le⟩

theorem length_lt_cons (first : Item) (rest : List Item) : rest.length < (first :: rest).length :=
  Nat.lt_succ_self _

theorem length_le_cons (first : Item) (rest : List Item) : rest.length ≤ (first :: rest).length :=
  Nat.le_succ _

def parts (reading : Reading Item α small) : α × List Item :=
  (reading.value, reading.rest)

end Reading

end Toggles
