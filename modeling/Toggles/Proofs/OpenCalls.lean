import Toggles.Proofs.Calls

/-! The calls that are open, and how far the cursor is.

A routine is disciplined if each of its calls stands further on among the tokens than the routine
itself, or at the same place with a smaller rank, and if it returns with the cursor where it says.
Of disciplined routines this holds for all calls that are open at once, in every state: so a routine
is called again only behind a token that was taken since. The counter is that of the calls that are
open and count as nested, and has the same value at the return from a call as before it.
-/

set_option autoImplicit false

namespace Toggles.Declaration

structure Discipline (routines : Routines) where
  /-- Of two calls at one place the inner one has the smaller rank. -/
  rank : routines.Name → Nat
  /-- How far ahead of the cursor a routine looks. -/
  ahead : (name : routines.Name) → routines.Argument name → Nat
  /-- A routine that gives a value has taken a token. -/
  consumes : routines.Name → Bool
  /-- What a routine expects at its entry. -/
  expects : routines.Name → Sight → Prop

section Rules
variable {routines : Routines} {root : routines.Name}

def Call.place (discipline : Discipline routines) (call : Call routines) : Nat :=
  call.entry.index + discipline.ahead call.name call.argument

/-- A place with a rank stands before another one. -/
def Precedes (place rank further smaller : Nat) : Prop :=
  place < further ∨ place = further ∧ smaller < rank

theorem Precedes.of_lt {place rank further smaller : Nat} (before : place < further) (ahead : Nat) :
    Precedes place rank (further + ahead) smaller :=
  .inl (Nat.lt_add_right ahead before)

theorem Precedes.of_rank {place rank further smaller : Nat} (before : place ≤ further)
    (lower : smaller < rank) (ahead : Nat) : Precedes place rank (further + ahead) smaller := by
  unfold Precedes
  omega

-- At one rank only the places are left.
theorem Precedes.lt {place rank further smaller : Nat}
    (precedes : Precedes place rank further smaller) (same : smaller = rank) : place < further := by
  unfold Precedes at precedes
  omega

theorem Precedes.trans {place rank middle between further smaller : Nat}
    (first : Precedes place rank middle between) (second : Precedes middle between further smaller) :
    Precedes place rank further smaller := by
  unfold Precedes at *
  omega

variable (discipline : Discipline routines) (stream : TokenStream) {α β : Type}

def Discipline.Returns (name : routines.Name) (entry index : Nat) : Prop :=
  entry ≤ index ∧ index ≤ stream.tokens.length ∧
    (discipline.consumes name = true → entry < index)

/-- What is left to do in a call with this place and rank is disciplined, and its values are given
where they should be. -/
def Program.Disciplined (place rank : Nat) (ends : α → Nat → Prop) :
    Program routines α → Nat → Prop
  | .done value, index => ends value index
  | .fail _, _ => True
  | .looking ahead next, index =>
      (next (stream.sight (index + ahead))).Disciplined place rank ends index
  | .moving next, index => next.Disciplined place rank ends (stream.placeAfter index)
  | .calling _ name argument next, index =>
      discipline.expects name (stream.sight index) ∧
        Precedes place rank (index + discipline.ahead name argument) (discipline.rank name) ∧
        ∀ result behind, discipline.Returns stream name index behind →
          (next result).Disciplined place rank ends behind

def Call.Disciplined (call : Call routines) (program : Program routines (routines.Result call.name))
    (index : Nat) : Prop :=
  program.Disciplined discipline stream (call.place discipline) (discipline.rank call.name)
    (fun _ => discipline.Returns stream call.name call.entry.index) index

def Routines.Bodies.Disciplined (bodies : routines.Bodies) : Prop :=
  ∀ (call : Call routines), call.entry.index ≤ stream.tokens.length →
    discipline.expects call.name (stream.sight call.entry.index) →
      call.Disciplined discipline stream (bodies call.name call.argument) call.entry.index

end Rules

section Programs
variable {routines : Routines} {discipline : Discipline routines} {stream : TokenStream}
  {α β : Type} {place rank index : Nat} {ends : β → Nat → Prop}

theorem Program.Disciplined.bind {program : Program routines α} {further : α → Program routines β}
    (disciplined : program.Disciplined discipline stream place rank
      (fun value behind => (further value).Disciplined discipline stream place rank ends behind)
      index) :
    (program >>= further).Disciplined discipline stream place rank ends index := by
  change (program.bind further).Disciplined discipline stream place rank ends index
  induction program generalizing index with
  | done value => exact disciplined
  | fail error => trivial
  | looking ahead next ih => exact ih _ disciplined
  | moving next ih => exact ih disciplined
  | calling limit name argument next ih =>
      obtain ⟨expected, precedes, continues⟩ := disciplined
      exact ⟨expected, precedes, fun result behind returns => ih result (continues result behind returns)⟩

end Programs

section States
variable {routines : Routines} {root : routines.Name}

/-- The calls that are open around another one, the innermost first. -/
def Stack.calls : {name : routines.Name} → Stack routines root name → List (Call routines)
  | _, .bottom => []
  | _, .above caller _ _ below => caller :: below.calls

def Stack.nested : {name : routines.Name} → Stack routines root name → Nat
  | _, .bottom => 0
  | _, .above _ nested _ below => below.nested + nested.toNat

namespace State

def calls : State routines root → List (Call routines)
  | running call _ _ stack => call :: stack.calls
  | finished _ _ => []

def nested : State routines root → Nat
  | running _ _ _ stack => stack.nested
  | finished _ _ => 0

def cursor : State routines root → Cursor
  | running _ cursor _ _ | finished _ cursor => cursor

end State

variable (discipline : Discipline routines) (stream : TokenStream)

/-- The calls that are open around one with this argument and entry go on as they should when it
returns, and each of them was entered with the counter at the number of nested calls. -/
def Stack.Sound : {name : routines.Name} → Stack routines root name → routines.Argument name →
    Cursor → Prop
  | _, .bottom, _, entry => entry.nesting = 0
  | name, .above caller nested next below, argument, entry =>
      entry.nesting = caller.entry.nesting + nested.toNat ∧
      Precedes (caller.place discipline) (discipline.rank caller.name)
        (entry.index + discipline.ahead name argument) (discipline.rank name) ∧
      (∀ result behind, discipline.Returns stream name entry.index behind →
        caller.Disciplined discipline stream (next result) behind) ∧
      below.Sound caller.argument caller.entry

def State.Sound : State routines root → Prop
  | .running call cursor program stack =>
      cursor.index ≤ stream.tokens.length ∧ cursor.nesting = call.entry.nesting ∧
        cursor.nesting ≤ maximumNesting ∧
        call.Disciplined discipline stream program cursor.index ∧
        stack.Sound discipline stream call.argument call.entry
  | .finished _ cursor => cursor.index ≤ stream.tokens.length ∧ cursor.nesting = 0

theorem Stack.index_resume {name : routines.Name} {outcome : Except SourceError (routines.Result name)}
    {cursor : Cursor} (stack : Stack routines root name) :
    (stack.resume outcome cursor).cursor.index = cursor.index := by
  cases stack with
  | bottom => rfl
  | above caller nested next below => cases nested <;> rfl

theorem State.index_le_step (bodies : routines.Bodies) (state : State routines root) :
    state.cursor.index ≤ (state.step stream bodies).cursor.index := by
  cases state with
  | finished outcome cursor => exact Nat.le_refl _
  | running call cursor program stack =>
      cases program with
      | done | fail => exact Nat.le_of_eq stack.index_resume.symm
      | looking ahead next => exact Nat.le_refl _
      | moving next => exact stream.le_placeAfter cursor.index
      | calling limit name argument next =>
          cases limit with
          | none => exact Nat.le_refl _
          | some position =>
              rw [step]
              split <;> exact Nat.le_refl _

variable {discipline stream} {bodies : routines.Bodies} {name : routines.Name}
  {argument : routines.Argument name} {entry cursor : Cursor} {stack : Stack routines root name}
  {state : State routines root}

theorem Stack.Sound.nesting (sound : stack.Sound discipline stream argument entry) :
    entry.nesting = stack.nested := by
  induction stack generalizing entry with
  | bottom => exact sound
  | above caller nested next below ih =>
      obtain ⟨counted, -, -, sound⟩ := sound
      rw [counted, ih sound, Stack.nested]

theorem Stack.Sound.pairwise (sound : stack.Sound discipline stream argument entry) :
    (⟨name, argument, entry⟩ :: stack.calls).Pairwise fun inner outer =>
      Precedes (outer.place discipline) (discipline.rank outer.name)
        (inner.place discipline) (discipline.rank inner.name) := by
  induction stack generalizing entry with
  | bottom => exact List.pairwise_singleton _ _
  | above caller nested next below ih =>
      obtain ⟨-, precedes, -, sound⟩ := sound
      have ordered := ih sound
      refine List.pairwise_cons.mpr ⟨fun outer isOpen => ?_, ordered⟩
      rcases List.mem_cons.mp isOpen with rfl | isOpen
      · exact precedes
      · exact (List.rel_of_pairwise_cons ordered isOpen).trans precedes

namespace State.Sound

theorem inside (sound : state.Sound discipline stream) :
    state.cursor.index ≤ stream.tokens.length := by
  cases state <;> exact sound.1

theorem counted (sound : state.Sound discipline stream) : state.cursor.nesting = state.nested := by
  cases state with
  | running call cursor program stack =>
      obtain ⟨-, same, -, -, sound⟩ := sound
      exact same.trans sound.nesting
  | finished outcome cursor => exact sound.2

theorem bounded (sound : state.Sound discipline stream) : state.nested ≤ maximumNesting := by
  rw [← sound.counted]
  cases state with
  | running call cursor program stack => exact sound.2.2.1
  | finished outcome cursor => exact sound.2.symm ▸ Nat.zero_le _

theorem restored (sound : state.Sound discipline stream) :
    ∀ call ∈ state.calls.head?, state.cursor.nesting = call.entry.nesting := by
  cases state with
  | running call cursor program stack =>
      rintro _ ⟨⟩
      exact sound.2.1
  | finished outcome cursor => nofun

theorem onward (sound : state.Sound discipline stream) :
    state.calls.Pairwise fun inner outer =>
      inner.name = outer.name → outer.place discipline < inner.place discipline := by
  cases state with
  | running call cursor program stack =>
      obtain ⟨-, -, -, -, sound⟩ := sound
      exact sound.pairwise.imp fun precedes same =>
        precedes.lt (congrArg discipline.rank same)
  | finished outcome cursor => exact .nil

end State.Sound

theorem Stack.Sound.resume {outcome : Except SourceError (routines.Result name)}
    (sound : stack.Sound discipline stream argument entry)
    (inside : cursor.index ≤ stream.tokens.length) (counted : cursor.nesting = entry.nesting)
    (bounded : cursor.nesting ≤ maximumNesting)
    (returns : ∀ value, outcome = .ok value →
      discipline.Returns stream name entry.index cursor.index) :
    (stack.resume outcome cursor).Sound discipline stream := by
  cases stack with
  | bottom => exact ⟨inside, counted.trans sound⟩
  | above caller nested next below =>
      obtain ⟨entered, -, continues, sound⟩ := sound
      have proceeds : caller.Disciplined discipline stream (Program.resume next outcome)
          cursor.index := by
        cases outcome with
        | ok value => exact continues value _ (returns value rfl)
        | error error => trivial
      cases nested with
      | true =>
          have left : cursor.nesting - 1 = caller.entry.nesting := by
            rw [counted, entered, Bool.toNat_true, Nat.add_sub_cancel]
          exact ⟨inside, left, Nat.le_trans (Nat.sub_le _ 1) bounded, proceeds, sound⟩
      | false => exact ⟨inside, counted.trans entered, bounded, proceeds, sound⟩

theorem State.Sound.step (disciplined : bodies.Disciplined discipline stream)
    (sound : state.Sound discipline stream) :
    (state.step stream bodies).Sound discipline stream := by
  cases state with
  | finished outcome cursor => exact sound
  | running call cursor program stack =>
      obtain ⟨inside, counted, bounded, proceeds, sound⟩ := sound
      cases program with
      | done value => exact sound.resume inside counted bounded fun _ _ => proceeds
      | fail error => exact sound.resume inside counted bounded nofun
      | looking ahead next => exact ⟨inside, counted, bounded, proceeds, sound⟩
      | moving next =>
          exact ⟨TokenStream.placeAfter_le inside, counted, bounded, proceeds, sound⟩
      | calling limit name argument next =>
          obtain ⟨expected, precedes, continues⟩ := proceeds
          cases limit with
          | none =>
              exact ⟨inside, rfl, bounded, disciplined ⟨name, argument, cursor⟩ inside expected,
                counted, precedes, continues, sound⟩
          | some position =>
              rw [State.step]
              split
              · exact ⟨inside, counted, bounded, trivial, sound⟩
              · next room =>
                  exact ⟨inside, rfl, Nat.le_of_not_lt room,
                    disciplined ⟨name, argument, cursor.enter⟩ inside expected,
                    congrArg (· + 1) counted, precedes, continues, sound⟩

theorem State.Sound.after (disciplined : bodies.Disciplined discipline stream)
    (sound : state.Sound discipline stream) (count : Nat) :
    (state.after stream bodies count).Sound discipline stream := by
  induction count generalizing state with
  | zero => exact sound
  | succ count ih => exact ih (sound.step disciplined)

end States

end Toggles.Declaration
