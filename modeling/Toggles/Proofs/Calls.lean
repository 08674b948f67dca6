import Mathlib.Logic.Function.Iterate
import Toggles.Declaration.Reading

/-! Routines that read tokens at a cursor.

A routine looks at tokens, moves the cursor on and calls routines, itself among them, and nothing
bounds how often. The calls that are open stand on a stack, with what is left to do in each of them.
Every look, move, call and return is one step of a state, so that what happens on the way can be said
of each state, and whether the steps come to an end is a question. A routine evaluates to an outcome
if its steps lead to it whatever is left to do behind them.

The end of the source is a place of its own behind the tokens, where the cursor stops. Calls that
count as nested raise a counter, which has a limit, and lower it again on their return.
-/

set_option autoImplicit false

namespace Toggles.Declaration

inductive Sight where
  | token (located : Located)
  | stop (position : Nat) (doc : Option String)
  | beyond

namespace Sight

def position : Sight → Nat
  | token located => located.position
  | stop position _ => position
  | beyond => 0

def describe : Sight → String
  | token located => located.token.describe
  | stop _ _ | beyond => endOfInput

def doc : Sight → Option String
  | token located => located.doc
  | stop _ doc => doc
  | beyond => none

def isMark (mark : Mark) : Sight → Bool
  | token located => located.token = .mark mark
  | stop _ _ | beyond => false

def isWord (word : String) : Sight → Bool
  | token located => located.token = .word word
  | stop _ _ | beyond => false

def isAnyWord : Sight → Bool
  | token ⟨.word _, _, _⟩ => true
  | _ => false

end Sight

def TokenStream.sight (stream : TokenStream) (place : Nat) : Sight :=
  match stream.tokens[place]? with
  | some located => .token located
  | none => if place = stream.tokens.length then .stop stream.stop stream.trailingDoc else .beyond

/-- The place behind another one. There is none behind the end. -/
def TokenStream.placeAfter (stream : TokenStream) (place : Nat) : Nat :=
  if place < stream.tokens.length then place + 1 else place

theorem TokenStream.le_placeAfter (stream : TokenStream) (place : Nat) :
    place ≤ stream.placeAfter place := by
  unfold placeAfter
  split <;> omega

theorem TokenStream.placeAfter_le {stream : TokenStream} {place : Nat}
    (inside : place ≤ stream.tokens.length) : stream.placeAfter place ≤ stream.tokens.length := by
  unfold placeAfter
  split <;> omega

/-- A place among the tokens, and how many calls that count as nested are open. -/
structure Cursor where
  index : Nat
  nesting : Nat
  deriving DecidableEq, Repr

def Cursor.enter (cursor : Cursor) : Cursor :=
  { cursor with nesting := cursor.nesting + 1 }

def Cursor.leave (cursor : Cursor) : Cursor :=
  { cursor with nesting := cursor.nesting - 1 }

structure Routines where
  Name : Type
  Argument : Name → Type
  Result : Name → Type

/-- What is left to do in a routine. A call that counts as nested has the position to report when it
is nested too deep. -/
inductive Program (routines : Routines) (α : Type) where
  | done (value : α)
  | fail (error : SourceError)
  | looking (ahead : Nat) (next : Sight → Program routines α)
  | moving (next : Program routines α)
  | calling (limit : Option Nat) (name : routines.Name) (argument : routines.Argument name)
      (next : routines.Result name → Program routines α)

structure Call (routines : Routines) where
  name : routines.Name
  argument : routines.Argument name
  entry : Cursor

/-- What is left to do behind a call, in the calls that are open around it. -/
inductive Stack (routines : Routines) (root : routines.Name) : routines.Name → Type where
  | bottom : Stack routines root root
  | above {callee : routines.Name} (caller : Call routines) (nested : Bool)
      (next : routines.Result callee → Program routines (routines.Result caller.name))
      (below : Stack routines root caller.name) : Stack routines root callee

inductive State (routines : Routines) (root : routines.Name) where
  | running (call : Call routines) (cursor : Cursor)
      (program : Program routines (routines.Result call.name))
      (stack : Stack routines root call.name)
  | finished (outcome : Except SourceError (routines.Result root)) (cursor : Cursor)

abbrev Routines.Bodies (routines : Routines) : Type :=
  (name : routines.Name) → routines.Argument name → Program routines (routines.Result name)

section Programs
variable {routines : Routines} {α β γ : Type}

namespace Program

def bind : Program routines α → (α → Program routines β) → Program routines β
  | done value, next => next value
  | fail error, _ => fail error
  | looking ahead first, next => looking ahead fun sight => (first sight).bind next
  | moving first, next => moving (first.bind next)
  | calling limit name argument first, next =>
      calling limit name argument fun result => (first result).bind next

instance : Monad (Program routines) where
  pure := done
  bind := bind

theorem bind_assoc (first : Program routines α) (second : α → Program routines β)
    (third : β → Program routines γ) :
    (first.bind second).bind third = first.bind fun value => (second value).bind third := by
  induction first with
  | done value => rfl
  | fail error => rfl
  | looking ahead first ih => exact congrArg (looking ahead) (funext ih)
  | moving first ih => exact congrArg moving ih
  | calling limit name argument first ih =>
      exact congrArg (calling limit name argument) (funext ih)

theorem bind_done (program : Program routines α) : program.bind done = program := by
  induction program with
  | done | fail => rfl
  | looking ahead next ih => exact congrArg (looking ahead) (funext ih)
  | moving next ih => exact congrArg moving ih
  | calling limit name argument next ih =>
      exact congrArg (calling limit name argument) (funext ih)

def resume (next : α → Program routines β) : Except SourceError α → Program routines β
  | .ok value => next value
  | .error error => fail error

def look (ahead : Nat) : Program routines Sight :=
  looking ahead done

def current : Program routines Sight :=
  look 0

def move : Program routines Unit :=
  moving (done ())

def call (name : routines.Name) (argument : routines.Argument name) :
    Program routines (routines.Result name) :=
  calling none name argument done

def nest (position : Nat) (name : routines.Name) (argument : routines.Argument name) :
    Program routines (routines.Result name) :=
  calling (some position) name argument done

def unexpected (expected : String) : Program routines α := do
  let sight ← current
  fail (.unexpectedToken expected sight.describe sight.position)

def isAt (mark : Mark) : Program routines Bool := do
  return (← current).isMark mark

def take (mark : Mark) : Program routines Bool := do
  if ← isAt mark then
    move
    return true
  else return false

def takeMark (mark : Mark) (expected : String) : Program routines Unit := do
  if ← take mark then return () else unexpected expected

def takeWord (expected : String) : Program routines String := do
  match ← current with
  | .token ⟨.word name, _, _⟩ =>
      move
      return name
  | _ => unexpected expected

end Program

end Programs

section Steps
variable {routines : Routines} {root : routines.Name}

def Stack.resume {name : routines.Name} (outcome : Except SourceError (routines.Result name))
    (cursor : Cursor) : Stack routines root name → State routines root
  | .bottom => .finished outcome cursor
  | .above caller nested next below =>
      .running caller (if nested then cursor.leave else cursor) (Program.resume next outcome) below

variable (stream : TokenStream) (bodies : routines.Bodies)

def State.step : State routines root → State routines root
  | .finished outcome cursor => .finished outcome cursor
  | .running _ cursor (.done value) stack => stack.resume (.ok value) cursor
  | .running _ cursor (.fail error) stack => stack.resume (.error error) cursor
  | .running call cursor (.looking ahead next) stack =>
      .running call cursor (next (stream.sight (cursor.index + ahead))) stack
  | .running call cursor (.moving next) stack =>
      .running call { cursor with index := stream.placeAfter cursor.index } next stack
  | .running call cursor (.calling none name argument next) stack =>
      .running ⟨name, argument, cursor⟩ cursor (bodies name argument) (.above call false next stack)
  | .running call cursor (.calling (some position) name argument next) stack =>
      if maximumNesting < cursor.nesting + 1 then
        .running call cursor
          (.fail (.nestingTooDeep maximumNesting (cursor.nesting + 1) position)) stack
      else
        .running ⟨name, argument, cursor.enter⟩ cursor.enter (bodies name argument)
          (.above call true next stack)

def State.after (count : Nat) (state : State routines root) : State routines root :=
  (State.step stream bodies)^[count] state

theorem State.after_succ (count : Nat) (state : State routines root) :
    state.after stream bodies (count + 1) = (state.after stream bodies count).step stream bodies :=
  Function.iterate_succ_apply' _ count state

def Reaches (state later : State routines root) : Prop :=
  ∃ count, state.after stream bodies count = later

variable {stream bodies} {state next later : State routines root}

theorem Reaches.refl (state : State routines root) : Reaches stream bodies state state :=
  ⟨0, rfl⟩

theorem Reaches.trans (first : Reaches stream bodies state next)
    (second : Reaches stream bodies next later) : Reaches stream bodies state later := by
  obtain ⟨count, rfl⟩ := first
  obtain ⟨more, rfl⟩ := second
  exact ⟨more + count, Function.iterate_add_apply _ more count state⟩

theorem Reaches.step (reaches : Reaches stream bodies (state.step stream bodies) later) :
    Reaches stream bodies state later := by
  obtain ⟨count, rfl⟩ := reaches
  exact ⟨count + 1, Function.iterate_succ_apply _ count state⟩

end Steps

section Evaluation
variable {routines : Routines} {stream : TokenStream} {bodies : routines.Bodies} {α β : Type}
  {program : Program routines α} {cursor middle behind : Cursor}

/-- Whatever is left to do behind a program, its steps lead to its outcome. -/
def Evaluates (stream : TokenStream) (bodies : routines.Bodies) (program : Program routines α)
    (cursor : Cursor) (outcome : Except SourceError α) (behind : Cursor) : Prop :=
  ∀ (root : routines.Name) (call : Call routines)
    (next : α → Program routines (routines.Result call.name))
    (stack : Stack routines root call.name),
    Reaches stream bodies (.running call cursor (program.bind next) stack)
      (.running call behind (Program.resume next outcome) stack)

namespace Evaluates

theorem done (value : α) : Evaluates stream bodies (pure value) cursor (.ok value) cursor :=
  fun _ _ _ _ => .refl _

theorem fail (error : SourceError) :
    Evaluates stream bodies (.fail error : Program routines α) cursor (.error error) cursor :=
  fun _ _ _ _ => .refl _

theorem look (ahead : Nat) : Evaluates stream bodies (Program.look ahead) cursor
    (.ok (stream.sight (cursor.index + ahead))) cursor :=
  fun _ _ _ _ => .step (.refl _)

theorem move : Evaluates stream bodies Program.move cursor (.ok ())
    { cursor with index := stream.placeAfter cursor.index } :=
  fun _ _ _ _ => .step (.refl _)

theorem bind {value : α} {further : α → Program routines β} {outcome : Except SourceError β}
    (first : Evaluates stream bodies program cursor (.ok value) middle)
    (second : Evaluates stream bodies (further value) middle outcome behind) :
    Evaluates stream bodies (program >>= further) cursor outcome behind := by
  intro root call next stack
  have reaches := first root call (fun value => (further value).bind next) stack
  rw [← Program.bind_assoc] at reaches
  exact reaches.trans (second root call next stack)

theorem bind_error {error : SourceError} (further : α → Program routines β)
    (first : Evaluates stream bodies program cursor (.error error) behind) :
    Evaluates stream bodies (program >>= further) cursor (.error error) behind := by
  intro root call next stack
  have reaches := first root call (fun value => (further value).bind next) stack
  rwa [← Program.bind_assoc] at reaches

-- A body that evaluates ends with a return, whatever its outcome.
theorem returns {name : routines.Name} {argument : routines.Argument name} {root : routines.Name}
    {outcome : Except SourceError (routines.Result name)} {entry : Cursor}
    (body : Evaluates stream bodies (bodies name argument) cursor outcome behind)
    (stack : Stack routines root name) :
    Reaches stream bodies (.running ⟨name, argument, entry⟩ cursor (bodies name argument) stack)
      (stack.resume outcome behind) := by
  have reaches := body root ⟨name, argument, entry⟩ .done stack
  rw [Program.bind_done] at reaches
  refine reaches.trans (.step ?_)
  cases outcome <;> exact .refl _

theorem call {name : routines.Name} {argument : routines.Argument name}
    {outcome : Except SourceError (routines.Result name)}
    (body : Evaluates stream bodies (bodies name argument) cursor outcome behind) :
    Evaluates stream bodies (Program.call name argument) cursor outcome behind := by
  intro root call next stack
  refine .step ((body.returns _).trans ?_)
  exact .refl _

theorem nest {name : routines.Name} {argument : routines.Argument name}
    {position index later nesting : Nat} {outcome : Except SourceError (routines.Result name)}
    (room : nesting + 1 ≤ maximumNesting)
    (body : Evaluates stream bodies (bodies name argument) ⟨index, nesting + 1⟩ outcome
      ⟨later, nesting + 1⟩) :
    Evaluates stream bodies (Program.nest position name argument) ⟨index, nesting⟩ outcome
      ⟨later, nesting⟩ := by
  intro root call next stack
  refine .step ?_
  rw [Program.nest, Program.bind, State.step, if_neg (Nat.not_lt.mpr room)]
  exact (body.returns _).trans (.refl _)

theorem nest_tooDeep {name : routines.Name} {argument : routines.Argument name} {position : Nat}
    (full : maximumNesting < cursor.nesting + 1) :
    Evaluates stream bodies (Program.nest position name argument) cursor
      (.error (.nestingTooDeep maximumNesting (cursor.nesting + 1) position)) cursor := by
  intro root call next stack
  refine .step ?_
  rw [Program.nest, Program.bind, State.step, if_pos full]
  exact .refl _

end Evaluates

end Evaluation

end Toggles.Declaration
