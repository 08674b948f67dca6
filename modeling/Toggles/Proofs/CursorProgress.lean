import Toggles.Proofs.CursorRules
import Toggles.Proofs.OpenCalls

/-! Every source is read in finitely many steps, with the cursor going forward.

The rules are disciplined: a rule that calls another one at its own place has the larger rank, and
every loop goes on behind a token that it took. With what the rules read, the steps for any tokens end
with the outcome that the readers give.
-/

set_option autoImplicit false

namespace Toggles.Declaration

namespace Rule

/-- Rules that call one another before they take a token have falling ranks. -/
def rank : Rule → Nat
  | interface | heading | objectBody | separators | modifiers | unionMembers | intersectionMembers
  | operators | dottedParts | tuple | arrowAhead | groupEnd => 0
  | file | dottedName | group => 1
  | signature | suffixes | reference | function => 2
  | member | primary => 3
  | members | suffixed => 4
  | intersection => 5
  | union => 6
  | conditional => 7
  | type => 8
  | arguments | items => 9

/-- How far ahead of the cursor a rule looks. -/
def ahead : (rule : Rule) → rule.Argument → Nat
  | arrowAhead, (ahead, _) => ahead
  | _, _ => 0

def place (call : Call grammar) : Nat :=
  call.entry.index + ahead call.name call.argument

/-- A rule that takes a token whenever it gives a value. -/
def consumes : Rule → Bool
  | file | heading | separators | modifiers | unionMembers | intersectionMembers | operators
  | suffixes | dottedParts | arrowAhead => false
  | _ => true

/-- A tuple is read where its bracket has been seen. -/
def expects : Rule → Sight → Prop
  | tuple, sight => sight.isMark .openBracket = true
  | _, _ => True

def discipline : Discipline grammar :=
  ⟨rank, ahead, consumes, expects⟩

abbrev Returns (stream : TokenStream) (rule : Rule) (entry index : Nat) : Prop :=
  discipline.Returns stream rule entry index

abbrev Proceeds {α : Type} (stream : TokenStream) (place rank : Nat) (program : Program grammar α)
    (index : Nat) (ends : α → Nat → Prop) : Prop :=
  program.Disciplined discipline stream place rank ends index

section Programs
variable {stream : TokenStream} {α β : Type} {place rank entry index : Nat} {ends : α → Nat → Prop}
  {rule other : Rule} {argument : other.Argument}

theorem Returns.of_lt (further : entry < index) (inside : index ≤ stream.tokens.length) :
    Returns stream rule entry index :=
  ⟨Nat.le_of_lt further, inside, fun _ => further⟩

theorem Returns.here (inside : index ≤ stream.tokens.length) (free : rule.consumes = false) :
    Returns stream rule index index :=
  ⟨Nat.le_refl _, inside, fun consumes => absurd (free.symm.trans consumes) Bool.false_ne_true⟩

theorem sight_of_lt (before : index < stream.tokens.length) :
    ∃ located, stream.sight index = .token located := by
  simp [TokenStream.sight, before]

theorem sight_length : stream.sight stream.tokens.length = .stop stream.stop stream.trailingDoc := by
  simp [TokenStream.sight]

theorem sight_ne_beyond (inside : index ≤ stream.tokens.length) : stream.sight index ≠ .beyond := by
  rcases Nat.lt_or_eq_of_le inside with before | rfl
  · obtain ⟨located, seen⟩ := sight_of_lt before
    simp [seen]
  · simp [sight_length]

theorem lt_of_isMark {mark : Mark} (inside : index ≤ stream.tokens.length)
    (seen : (stream.sight index).isMark mark = true) : index < stream.tokens.length := by
  refine Nat.lt_of_le_of_ne inside ?_
  rintro rfl
  rw [sight_length] at seen
  contradiction

theorem placeAfter_of_lt (before : index < stream.tokens.length) :
    stream.placeAfter index = index + 1 :=
  if_pos before

namespace Proceeds

theorem done {value : α} (ended : ends value index) :
    Proceeds stream place rank (pure value) index ends :=
  ended

theorem unexpected {expected : String} :
    Proceeds stream place rank (Program.unexpected expected) index ends :=
  trivial

theorem bind {program : Program grammar β} {further : β → Program grammar α}
    (proceeds : Proceeds stream place rank program index fun value behind =>
      Proceeds stream place rank (further value) behind ends) :
    Proceeds stream place rank (program >>= further) index ends :=
  Program.Disciplined.bind proceeds

theorem ite {condition : Prop} [Decidable condition] {yes no : Program grammar α}
    (whenTrue : condition → Proceeds stream place rank yes index ends)
    (whenFalse : ¬condition → Proceeds stream place rank no index ends) :
    Proceeds stream place rank (if condition then yes else no) index ends := by
  split
  · next holds => exact whenTrue holds
  · next fails => exact whenFalse fails

theorem look {ahead : Nat} {further : Sight → Program grammar α}
    (proceeds : Proceeds stream place rank (further (stream.sight (index + ahead))) index ends) :
    Proceeds stream place rank (Program.look ahead >>= further) index ends :=
  proceeds

theorem current {further : Sight → Program grammar α} (inside : index ≤ stream.tokens.length)
    (whenToken : ∀ located, stream.sight index = .token located → index < stream.tokens.length →
      Proceeds stream place rank (further (.token located)) index ends)
    (whenStop : Proceeds stream place rank (further (.stop stream.stop stream.trailingDoc)) index ends) :
    Proceeds stream place rank (Program.current >>= further) index ends := by
  refine look ?_
  rw [Nat.add_zero]
  rcases Nat.lt_or_eq_of_le inside with before | rfl
  · obtain ⟨located, seen⟩ := sight_of_lt before
    rw [seen]
    exact whenToken located seen before
  · rw [sight_length]
    exact whenStop

theorem move {further : Unit → Program grammar α} (before : index < stream.tokens.length)
    (proceeds : Proceeds stream place rank (further ()) (index + 1) ends) :
    Proceeds stream place rank (Program.move >>= further) index ends := by
  rw [← placeAfter_of_lt before] at proceeds
  exact proceeds

-- At the end of the tokens the cursor stays.
theorem moveAny {further : Unit → Program grammar α} (inside : index ≤ stream.tokens.length)
    (proceeds : ∀ behind, index ≤ behind → behind ≤ stream.tokens.length →
      Proceeds stream place rank (further ()) behind ends) :
    Proceeds stream place rank (Program.move >>= further) index ends :=
  proceeds _ (stream.le_placeAfter index) (TokenStream.placeAfter_le inside)

-- A token that was seen at a place is taken, or was before.
theorem moveFrom {further : Unit → Program grammar α} (reached : entry ≤ index)
    (inside : index ≤ stream.tokens.length) (before : entry < stream.tokens.length)
    (proceeds : ∀ behind, entry < behind → behind ≤ stream.tokens.length →
      Proceeds stream place rank (further ()) behind ends) :
    Proceeds stream place rank (Program.move >>= further) index ends := by
  rcases Nat.lt_or_eq_of_le reached with taken | rfl
  · exact moveAny inside fun behind later => proceeds behind (Nat.lt_of_lt_of_le taken later)
  · exact move before (proceeds _ (Nat.lt_succ_self _) before)

theorem isAt {mark : Mark} {further : Bool → Program grammar α}
    (inside : index ≤ stream.tokens.length)
    (whenTrue : index < stream.tokens.length → Proceeds stream place rank (further true) index ends)
    (whenFalse : Proceeds stream place rank (further false) index ends) :
    Proceeds stream place rank (Program.isAt mark >>= further) index ends := by
  change Proceeds stream place rank (further ((stream.sight index).isMark mark)) index ends
  cases seen : (stream.sight index).isMark mark with
  | true => exact whenTrue (lt_of_isMark inside seen)
  | false => exact whenFalse

theorem take {mark : Mark} {further : Bool → Program grammar α}
    (inside : index ≤ stream.tokens.length)
    (whenTrue : index < stream.tokens.length →
      Proceeds stream place rank (further true) (index + 1) ends)
    (whenFalse : Proceeds stream place rank (further false) index ends) :
    Proceeds stream place rank (Program.take mark >>= further) index ends := by
  refine bind (isAt inside (fun before => ?_) whenFalse)
  exact move before (done (whenTrue before))

theorem takeAny {mark : Mark} {further : Bool → Program grammar α}
    (inside : index ≤ stream.tokens.length)
    (proceeds : ∀ taken behind, index ≤ behind → behind ≤ stream.tokens.length →
      Proceeds stream place rank (further taken) behind ends) :
    Proceeds stream place rank (Program.take mark >>= further) index ends :=
  take inside (fun before => proceeds true _ (Nat.le_succ index) before)
    (proceeds false _ (Nat.le_refl index) inside)

theorem takeMark {mark : Mark} {expected : String} {further : Unit → Program grammar α}
    (inside : index ≤ stream.tokens.length)
    (proceeds : index < stream.tokens.length →
      Proceeds stream place rank (further ()) (index + 1) ends) :
    Proceeds stream place rank (Program.takeMark mark expected >>= further) index ends :=
  bind (take inside proceeds unexpected)

theorem takeWord {expected : String} {further : String → Program grammar α}
    (inside : index ≤ stream.tokens.length)
    (proceeds : ∀ name, index < stream.tokens.length →
      Proceeds stream place rank (further name) (index + 1) ends) :
    Proceeds stream place rank (Program.takeWord expected >>= further) index ends := by
  refine bind (current inside (fun located _ before => ?_) unexpected)
  obtain ⟨token, position, doc⟩ := located
  cases token with
  | word name => exact move before (done (proceeds name before))
  | quoted | template | number | mark | symbol => exact unexpected

theorem call {further : other.Result → Program grammar α}
    (expected : other.expects (stream.sight index))
    (precedes : Precedes place rank (index + other.ahead argument) other.rank)
    (continues : ∀ result behind, Returns stream other index behind →
      Proceeds stream place rank (further result) behind ends) :
    Proceeds stream place rank (Rule.call other argument >>= further) index ends :=
  ⟨expected, precedes, continues⟩

theorem nest {position : Nat} {ends : other.Result → Nat → Prop}
    (expected : other.expects (stream.sight index))
    (precedes : Precedes place rank (index + other.ahead argument) other.rank)
    (continues : ∀ result behind, Returns stream other index behind → ends result behind) :
    Proceeds stream place rank (Rule.nest position other argument) index ends :=
  ⟨expected, precedes, continues⟩

-- The last call of a rule stands behind a token, so the rule has taken one when it returns.
theorem last (expected : other.expects (stream.sight index))
    (precedes : Precedes place rank (index + other.ahead argument) other.rank)
    (further : entry < index) :
    Proceeds stream place rank (Rule.call other argument) index
      fun _ => Returns stream rule entry :=
  ⟨expected, precedes, fun _ _ returns =>
    .of_lt (Nat.lt_of_lt_of_le further returns.1) returns.2.1⟩

-- The last call of a rule takes a token if the rule does.
theorem lastHere (expected : other.expects (stream.sight index))
    (precedes : Precedes place rank (index + other.ahead argument) other.rank)
    (reached : entry ≤ index) (consumes : rule.consumes = true → other.consumes = true) :
    Proceeds stream place rank (Rule.call other argument) index
      fun _ => Returns stream rule entry :=
  ⟨expected, precedes, fun _ _ returns => ⟨Nat.le_trans reached returns.1, returns.2.1,
    fun takes => Nat.lt_of_le_of_lt reached (returns.2.2 (consumes takes))⟩⟩

-- A rule ends with what the last call gives.
theorem lastThen {f : other.Result → α} (expected : other.expects (stream.sight index))
    (precedes : Precedes place rank (index + other.ahead argument) other.rank)
    (further : entry < index) :
    Proceeds stream place rank (Rule.call other argument >>= fun result => pure (f result)) index
      fun _ => Returns stream rule entry :=
  .call expected precedes fun _ _ returns =>
    .done (.of_lt (Nat.lt_of_lt_of_le further returns.1) returns.2.1)

-- A loop goes on behind the token that it takes.
theorem again {argument : rule.Argument} (before : index < stream.tokens.length)
    (expected : ∀ sight, rule.expects sight) :
    Proceeds stream index rank (do Program.move; Rule.call rule argument) index
      fun _ => Returns stream rule index :=
  .move before (.last (expected _) (.of_lt (Nat.lt_succ_self _) _) (Nat.lt_succ_self _))

end Proceeds

end Programs

section Rules
variable {stream : TokenStream} {index : Nat}

abbrev Keeps (stream : TokenStream) (rule : Rule) (argument : rule.Argument) (index : Nat) : Prop :=
  Proceeds stream (index + rule.ahead argument) rule.rank (bodies rule argument) index
    fun _ => Returns stream rule index

theorem file_keeps (inside : index ≤ stream.tokens.length) (seen : List Interface) (depth : Nat) :
    Keeps stream .file (seen, depth) index := by
  refine .current inside (fun located _ before => ?_) (.done (.here inside rfl))
  refine .ite (fun _ => .again before fun _ => trivial) fun _ => ?_
  refine .ite (fun _ => .again before fun _ => trivial) fun _ => ?_
  refine .look (.ite (fun _ => ?_) fun _ => .again before fun _ => trivial)
  refine .call trivial (.of_rank (Nat.le_refl _) (by decide) _) fun _ behind returns => ?_
  exact .last trivial (.of_lt (returns.2.2 rfl) _) (returns.2.2 rfl)

theorem heading_keeps (inside : index ≤ stream.tokens.length) (angles : Nat) :
    Keeps stream .heading angles index := by
  refine .current inside (fun located _ before => ?_) .unexpected
  refine .ite (fun _ => .done (.here inside rfl)) fun _ => ?_
  refine .ite (fun _ => .again before fun _ => trivial) fun _ => ?_
  exact .ite (fun _ => .again before fun _ => trivial) fun _ => .again before fun _ => trivial

theorem separators_keeps (inside : index ≤ stream.tokens.length) :
    Keeps stream .separators () index := by
  refine .take inside (fun before => ?_) (.take inside (fun before => ?_) ?_)
  · exact .last trivial (.of_lt (Nat.lt_succ_self _) _) (Nat.lt_succ_self _)
  · exact .last trivial (.of_lt (Nat.lt_succ_self _) _) (Nat.lt_succ_self _)
  · exact .done (.here inside rfl)

theorem modifiers_keeps (inside : index ≤ stream.tokens.length) :
    Keeps stream .modifiers () index := by
  have ended : Returns stream .modifiers index index := .here inside rfl
  refine .current inside (fun _ _ before => .look ?_) (.look (.done ended))
  exact .ite (fun _ => .again before fun _ => trivial) fun _ => .done ended

theorem operators_keeps (inside : index ≤ stream.tokens.length) (hidden : Bool) :
    Keeps stream .operators hidden index := by
  have ended : Returns stream .operators index index := .here inside rfl
  refine .current inside (fun _ _ before => ?_) (.done ended)
  refine .ite (fun _ => .again before fun _ => trivial) fun _ => ?_
  exact .ite (fun _ => .again before fun _ => trivial) fun _ => .done ended

theorem arrowAhead_keeps (inside : index ≤ stream.tokens.length) (ahead depth : Nat) :
    Keeps stream .arrowAhead (ahead, depth) index := by
  have ended : Returns stream .arrowAhead index index := .here inside rfl
  have passes : ∀ depth, Proceeds stream (index + ahead) (rank .arrowAhead)
      (Rule.call .arrowAhead (ahead + 1, depth)) index fun _ => Returns stream .arrowAhead index :=
    fun _ => .lastHere trivial (.inl (Nat.lt_succ_self _)) (Nat.le_refl _) fun consumes => consumes
  refine .look ?_
  cases stream.sight (index + ahead) with
  | token located =>
      refine .ite (fun _ => passes _) fun _ => .ite (fun _ => ?_) fun _ => passes _
      exact .ite (fun _ => .look (.done ended)) fun _ => passes _
  | stop | beyond => exact .done ended

theorem groupEnd_keeps (inside : index ≤ stream.tokens.length) (opening closing : Mark)
    (start depth : Nat) : Keeps stream .groupEnd ((opening, closing), start, depth) index := by
  refine .current inside (fun located _ before => ?_) trivial
  refine .ite (fun _ => .again before fun _ => trivial) fun _ => ?_
  refine .ite (fun _ => ?_) fun _ => .again before fun _ => trivial
  refine .ite (fun _ => ?_) fun _ => .again before fun _ => trivial
  exact .move before (.done (.of_lt (Nat.lt_succ_self _) before))

theorem group_keeps (inside : index ≤ stream.tokens.length) (opening closing : Mark) :
    Keeps stream .group (opening, closing) index := by
  refine .look (.isAt inside (fun _ => ?_) .unexpected)
  exact .lastHere trivial (.of_rank (Nat.le_refl _) (by decide) _) (Nat.le_refl _) fun _ => rfl

theorem dottedParts_keeps (inside : index ≤ stream.tokens.length) (name : String) :
    Keeps stream .dottedParts name index := by
  refine .isAt inside (fun before => ?_) (.done (.here inside rfl))
  refine .move before (.takeWord before fun part _ => ?_)
  have further : index < index + 1 + 1 := by omega
  exact .last trivial (.of_lt further _) further

theorem dottedName_keeps (inside : index ≤ stream.tokens.length) :
    Keeps stream .dottedName () index :=
  .takeWord inside fun _ _ => .last trivial (.of_lt (Nat.lt_succ_self _) _) (Nat.lt_succ_self _)

end Rules

section Parts
variable {stream : TokenStream} {place rank entry index : Nat} {ends : Unit → Nat → Prop}

theorem typeParameters_proceeds (reached : place ≤ index) (larger : 1 < rank)
    (inside : index ≤ stream.tokens.length)
    (continues : ∀ behind, index ≤ behind → behind ≤ stream.tokens.length → ends () behind) :
    Proceeds stream place rank typeParameters index ends := by
  refine .isAt inside (fun _ => ?_) (.done (continues index (Nat.le_refl _) inside))
  exact ⟨trivial, .of_rank reached larger _, fun _ behind returns =>
    continues behind returns.1 returns.2.1⟩

theorem annotation_proceeds (further : place < index) (inside : index ≤ stream.tokens.length)
    (continues : ∀ behind, index ≤ behind → behind ≤ stream.tokens.length → ends () behind) :
    Proceeds stream place rank annotation index ends := by
  refine .take inside (fun before => ?_) (.done (continues index (Nat.le_refl _) inside))
  refine .call trivial (.of_lt (Nat.lt_succ_of_lt further) _) fun _ behind returns => ?_
  exact .done (continues behind (Nat.le_trans (Nat.le_succ _) returns.1) returns.2.1)

theorem label_proceeds (inside : index ≤ stream.tokens.length)
    (continues : ∀ behind, index ≤ behind → behind ≤ stream.tokens.length → ends () behind) :
    Proceeds stream place rank label index ends := by
  refine .look (.look (.look (.ite (fun _ => ?_) fun _ => ?_)))
  · refine .moveAny inside fun middle reached inside => ?_
    refine .takeAny inside fun _ start later inside => ?_
    have after := Nat.le_trans (Nat.le_trans reached later) (stream.le_placeAfter start)
    exact continues _ after (TokenStream.placeAfter_le inside)
  · exact .done (continues index (Nat.le_refl _) inside)

end Parts

section Types
variable {stream : TokenStream} {index : Nat}

-- Behind the parameters of a function a token has been taken.
theorem parameters_proceeds {α : Type} {rank : Nat} {further : Program grammar α}
    {ends : α → Nat → Prop} (larger : 1 < rank) (inside : index ≤ stream.tokens.length)
    (continues : ∀ behind, index < behind → behind ≤ stream.tokens.length →
      Proceeds stream index rank further behind ends) :
    Proceeds stream index rank (do
      typeParameters
      Rule.call .group (.openParen, .closeParen)
      further) index ends := by
  refine .bind (typeParameters_proceeds (Nat.le_refl _) larger inside fun start reached _ => ?_)
  refine .call trivial (.of_rank reached larger _) fun _ behind returns => ?_
  exact continues behind (Nat.lt_of_le_of_lt reached (returns.2.2 rfl)) returns.2.1

theorem signature_keeps (inside : index ≤ stream.tokens.length) :
    Keeps stream .signature () index := by
  refine parameters_proceeds (by decide) inside fun place further inside => ?_
  refine annotation_proceeds further inside fun _ later inside => ?_
  exact .of_lt (Nat.lt_of_lt_of_le further later) inside

theorem function_keeps (inside : index ≤ stream.tokens.length) :
    Keeps stream .function () index := by
  refine parameters_proceeds (by decide) inside fun place further inside => ?_
  refine .takeMark inside fun before => ?_
  exact .lastThen trivial (.of_lt (Nat.lt_succ_of_lt further) _) (Nat.lt_succ_of_lt further)

theorem reference_keeps : Keeps stream .reference () index := by
  refine .call trivial (.of_rank (Nat.le_refl _) (by decide) _) fun name place returns => ?_
  obtain ⟨-, inside, takes⟩ := returns
  have further : index < place := takes rfl
  refine .take inside (fun before => ?_) (.done (.of_lt further inside))
  exact .lastThen trivial (.of_lt (Nat.lt_succ_of_lt further) _) (Nat.lt_succ_of_lt further)

theorem arguments_keeps (seen : List TypeExpr) : Keeps stream .arguments seen index := by
  refine .call trivial (.of_rank (Nat.le_refl _) (by decide) _) fun argument place returns => ?_
  obtain ⟨-, inside, takes⟩ := returns
  have further : index < place := takes rfl
  refine .take inside (fun before => ?_) (.takeMark inside fun before => ?_)
  · exact .last trivial (.of_lt (Nat.lt_succ_of_lt further) _) (Nat.lt_succ_of_lt further)
  · exact .done (.of_lt (Nat.lt_succ_of_lt further) before)

theorem items_keeps (inside : index ≤ stream.tokens.length) (seen : List TypeExpr) :
    Keeps stream .items seen index := by
  refine .take inside (fun before => .done (.of_lt (Nat.lt_succ_self _) before)) ?_
  refine .takeAny inside fun _ start reached inside => ?_
  refine .bind (label_proceeds inside fun start later inside => ?_)
  refine .call trivial (.of_rank (Nat.le_trans reached later) (by decide) _) fun item place returns => ?_
  have further : index < place :=
    Nat.lt_of_le_of_lt (Nat.le_trans reached later) (returns.2.2 rfl)
  refine .takeAny returns.2.1 fun _ behind later inside => ?_
  have further : index < behind + 1 := Nat.lt_succ_of_lt (Nat.lt_of_lt_of_le further later)
  refine .take inside (fun before => ?_) (.takeMark inside fun before => .done (.of_lt further before))
  exact .last trivial (.of_lt further _) further

theorem tuple_keeps (inside : index ≤ stream.tokens.length)
    (expected : (stream.sight index).isMark .openBracket = true) :
    Keeps stream .tuple () index := by
  have before := lt_of_isMark inside expected
  exact .move before (.lastThen trivial (.of_lt (Nat.lt_succ_self _) _) (Nat.lt_succ_self _))

theorem suffixes_keeps (inside : index ≤ stream.tokens.length) (type : TypeExpr) :
    Keeps stream .suffixes type index := by
  refine .isAt inside (fun before => ?_) (.done (.here inside rfl))
  refine .look (.ite (fun _ => ?_) fun _ => ?_)
  · refine .move before (.moveAny before fun behind later inside => ?_)
    have further : index < behind := Nat.lt_of_lt_of_le (Nat.lt_succ_self _) later
    exact .last trivial (.of_lt further _) further
  · refine .call trivial (.of_rank (Nat.le_refl _) (by decide) _) fun _ behind returns => ?_
    exact .last trivial (.of_lt (returns.2.2 rfl) _) (returns.2.2 rfl)

theorem numeral_proceeds {negative : Bool} {raw : String} {position place rank : Nat}
    {ends : TypeExpr → Nat → Prop} (ended : ∀ type, ends type index) :
    Proceeds stream place rank (numeral negative raw position) index ends := by
  unfold numeral
  cases numeralType? negative raw.toList with
  | some type => exact ended type
  | none => trivial

theorem worded_proceeds (before : index < stream.tokens.length) (word : String) :
    Proceeds stream index (rank .primary) (worded word) index
      fun _ => Returns stream .primary index := by
  have further : index < index + 1 := Nat.lt_succ_self index
  have taken : Returns stream .primary index (index + 1) := .of_lt further before
  refine .ite (fun _ => .move before (.done taken)) fun _ => ?_
  refine .ite (fun _ => .move before (.done taken)) fun _ => ?_
  refine .ite (fun _ => .move before (.lastThen trivial (.of_lt further _) further)) fun _ => ?_
  refine .look (.ite (fun _ => .move before (.moveAny before fun _ later inside => ?_)) fun _ => ?_)
  · exact .done (.of_lt (Nat.lt_of_lt_of_le further later) inside)
  refine .ite (fun _ => .move before (.last trivial (.of_lt further _) further)) fun _ => ?_
  unfold plainWord
  cases Keyword.ofWord? word with
  | some keyword => exact .move before (.done taken)
  | none => exact .lastHere trivial (.of_rank (Nat.le_refl _) (by decide) _) (Nat.le_refl _) fun _ => rfl

theorem marked_proceeds {located : Located} {mark : Mark} {position : Nat}
    (seen : stream.sight index = .token located) (begins : located.token = .mark mark)
    (before : index < stream.tokens.length) :
    Proceeds stream index (rank .primary) (marked mark position) index
      fun _ => Returns stream .primary index := by
  have further : index < index + 1 := Nat.lt_succ_self index
  cases mark with
  | minus =>
      refine .move before (.current before (fun located _ before => ?_) .unexpected)
      obtain ⟨token, position, doc⟩ := located
      cases token with
      | number raw =>
          exact .move before (numeral_proceeds fun _ => .of_lt (Nat.lt_succ_of_lt further) before)
      | word | quoted | template | mark | symbol => exact .unexpected
  | openBrace =>
      refine .call trivial (.of_rank (Nat.le_refl _) (by decide) _) fun _ _ returns => ?_
      exact .done (.of_lt (returns.2.2 rfl) returns.2.1)
  | openBracket =>
      have expected : (stream.sight index).isMark .openBracket = true := by
        rw [seen]
        exact decide_eq_true begins
      exact .lastHere expected (.of_rank (Nat.le_refl _) (by decide) _) (Nat.le_refl _) fun _ => rfl
  | openParen =>
      refine .call trivial (.of_rank (Nat.le_refl _) (by decide) _) fun arrow place returns => ?_
      obtain ⟨reached, inside, -⟩ := returns
      refine .ite (fun _ => ?_) fun _ => .moveFrom reached inside before fun start further inside => ?_
      · exact .lastHere trivial (.of_rank reached (by decide) _) reached fun _ => rfl
      refine .call trivial (.of_lt further _) fun _ _ returns => ?_
      refine .takeMark returns.2.1 fun before => .done (.of_lt ?_ before)
      exact Nat.lt_succ_of_lt (Nat.lt_trans further (returns.2.2 rfl))
  | openAngle => exact .lastHere trivial (.of_rank (Nat.le_refl _) (by decide) _) (Nat.le_refl _) fun _ => rfl
  | _ => exact .unexpected

theorem primary_keeps (inside : index ≤ stream.tokens.length) :
    Keeps stream .primary () index := by
  refine .current inside (fun located seen before => ?_) .unexpected
  obtain ⟨token, position, doc⟩ := located
  have taken : Returns stream .primary index (index + 1) := .of_lt (Nat.lt_succ_self _) before
  cases token with
  | word word => exact worded_proceeds before word
  | quoted | template => exact .move before (.done taken)
  | number raw => exact .move before (numeral_proceeds fun _ => taken)
  | mark mark => exact marked_proceeds seen rfl before
  | symbol => exact .unexpected

theorem suffixed_keeps : Keeps stream .suffixed () index := by
  refine .call trivial (.of_rank (Nat.le_refl _) (by decide) _) fun hidden start returns => ?_
  obtain ⟨reached, inside, -⟩ := returns
  refine .call trivial (.of_rank reached (by decide) _) fun first place returns => ?_
  have further : index < place := Nat.lt_of_le_of_lt reached (returns.2.2 rfl)
  exact .lastThen trivial (.of_lt further _) further

theorem intersectionMembers_keeps (inside : index ≤ stream.tokens.length) :
    Keeps stream .intersectionMembers () index := by
  refine .take inside (fun before => ?_) (.done (.here inside rfl))
  refine .call trivial (.of_lt (Nat.lt_succ_self _) _) fun _ place returns => ?_
  have further : index < place := Nat.lt_of_lt_of_le (Nat.lt_succ_self _) returns.1
  exact .last trivial (.of_lt further _) further

theorem intersection_keeps (inside : index ≤ stream.tokens.length) :
    Keeps stream .intersection () index := by
  refine .takeAny inside fun _ start reached inside => ?_
  refine .call trivial (.of_rank reached (by decide) _) fun _ place returns => ?_
  have further : index < place := Nat.lt_of_le_of_lt reached (returns.2.2 rfl)
  refine .isAt returns.2.1 (fun _ => ?_) (.done (.of_lt further returns.2.1))
  exact .last trivial (.of_lt further _) further

theorem unionMembers_keeps (inside : index ≤ stream.tokens.length) (seen : List TypeExpr) :
    Keeps stream .unionMembers seen index := by
  refine .take inside (fun before => ?_) (.done (.here inside rfl))
  refine .call trivial (.of_lt (Nat.lt_succ_self _) _) fun _ place returns => ?_
  have further : index < place := Nat.lt_of_lt_of_le (Nat.lt_succ_self _) returns.1
  exact .last trivial (.of_lt further _) further

theorem union_keeps (inside : index ≤ stream.tokens.length) : Keeps stream .union () index := by
  refine .takeAny inside fun _ start reached inside => ?_
  refine .call trivial (.of_rank reached (by decide) _) fun _ place returns => ?_
  have further : index < place := Nat.lt_of_le_of_lt reached (returns.2.2 rfl)
  exact .lastThen trivial (.of_lt further _) further

theorem conditional_keeps : Keeps stream .conditional () index := by
  refine .call trivial (.of_rank (Nat.le_refl _) (by decide) _) fun _ place returns => ?_
  obtain ⟨-, inside, takes⟩ := returns
  have further : index < place := takes rfl
  refine .current inside (fun located _ before => ?_) (.done (.of_lt further inside))
  refine .ite (fun _ => .move before ?_) fun _ => .done (.of_lt further inside)
  refine .call trivial (.of_lt (Nat.lt_succ_of_lt further) _) fun _ start returns => ?_
  have further : index < start := Nat.lt_trans (Nat.lt_succ_of_lt further) (returns.2.2 rfl)
  refine .takeMark returns.2.1 fun before => ?_
  refine .call trivial (.of_lt (Nat.lt_succ_of_lt further) _) fun _ start returns => ?_
  have further : index < start := Nat.lt_trans (Nat.lt_succ_of_lt further) (returns.2.2 rfl)
  refine .takeMark returns.2.1 fun before => ?_
  exact .lastThen trivial (.of_lt (Nat.lt_succ_of_lt further) _) (Nat.lt_succ_of_lt further)

theorem type_keeps : Keeps stream .type () index := by
  refine .look (.nest trivial (.of_rank (Nat.le_refl _) (by decide) _) fun _ _ returns => ?_)
  exact .of_lt (returns.2.2 rfl) returns.2.1

end Types

section Members
variable {stream : TokenStream} {entry index : Nat}

theorem property_proceeds (reached : entry ≤ index) (before : index < stream.tokens.length)
    (doc : Option String) (name : String) :
    Proceeds stream entry (rank .member) (property doc name) index
      fun _ => Returns stream .member entry := by
  have further : entry < index + 1 := Nat.lt_succ_of_le reached
  refine .move before (.takeAny before fun optional start later inside => ?_)
  have further : entry < start := Nat.lt_of_lt_of_le further later
  refine .look (.ite (fun typed => ?_) fun _ => .ite (fun _ => ?_) fun _ => .ite (fun _ => ?_)
    fun _ => .unexpected)
  · refine .move (lt_of_isMark inside typed) ?_
    exact .lastThen trivial (.of_lt (Nat.lt_succ_of_lt further) _) (Nat.lt_succ_of_lt further)
  · exact .lastThen trivial (.of_lt further _) further
  · exact .done (.of_lt further inside)

theorem indexSignature_proceeds (reached : entry ≤ index) {ends : Unit → Nat → Prop}
    (continues : ∀ behind, entry < behind → behind ≤ stream.tokens.length → ends () behind) :
    Proceeds stream entry (rank .member) indexSignature index ends := by
  refine .call trivial (.of_rank reached (by decide) _) fun _ place returns => ?_
  refine .takeAny returns.2.1 fun _ start later inside => ?_
  have further : entry < start :=
    Nat.lt_of_lt_of_le (Nat.lt_of_le_of_lt reached (returns.2.2 rfl)) later
  refine annotation_proceeds further inside fun behind later inside => ?_
  exact continues behind (Nat.lt_of_lt_of_le further later) inside

theorem named_proceeds (reached : entry ≤ index) (inside : index ≤ stream.tokens.length)
    (doc : Option String) :
    Proceeds stream entry (rank .member) (named doc) index fun _ => Returns stream .member entry := by
  refine .current inside (fun located _ before => ?_) .unexpected
  obtain ⟨token, position, comment⟩ := located
  cases token with
  | word name =>
      have further : entry < index + 1 := Nat.lt_succ_of_le reached
      refine .look (.ite (fun _ => .move before ?_) fun _ => property_proceeds reached before doc name)
      exact .lastThen trivial (.of_lt further _) further
  | number name | quoted name => exact property_proceeds reached before doc name
  | mark mark =>
      cases mark with
      | openBracket =>
          refine .bind (indexSignature_proceeds reached fun behind further inside => ?_)
          exact .done (.of_lt further inside)
      | openParen | openAngle =>
          refine .call trivial (.of_rank reached (by decide) _) fun _ _ returns => ?_
          exact .done (.of_lt (Nat.lt_of_le_of_lt reached (returns.2.2 rfl)) returns.2.1)
      | _ => exact .unexpected
  | template | symbol => exact .unexpected

theorem member_keeps : Keeps stream .member () index := by
  refine .look (.call trivial (.of_rank (Nat.le_refl _) (by decide) _) fun _ start returns => ?_)
  exact named_proceeds returns.1 returns.2.1 _

theorem members_keeps (seen : List Member) : Keeps stream .members seen index := by
  refine .call trivial (.of_rank (Nat.le_refl _) (by decide) _) fun _ start returns => ?_
  obtain ⟨reached, inside, -⟩ := returns
  refine .current inside (fun located _ before => .ite (fun _ => .move before ?_) fun _ => ?_)
    .unexpected
  · exact .done (.of_lt (Nat.lt_succ_of_le reached) before)
  · refine .call trivial (.of_rank reached (by decide) _) fun member place returns => ?_
    have further : index < place := Nat.lt_of_le_of_lt reached (returns.2.2 rfl)
    exact .last trivial (.of_lt further _) further

theorem objectBody_keeps (inside : index ≤ stream.tokens.length) :
    Keeps stream .objectBody () index := by
  refine .look (.takeMark inside fun before => ?_)
  refine .nest trivial (.of_lt (Nat.lt_succ_self _) _) fun _ _ returns => ?_
  exact .of_lt (Nat.lt_of_lt_of_le (Nat.lt_succ_self _) returns.1) returns.2.1

theorem interface_keeps (inside : index ≤ stream.tokens.length) :
    Keeps stream .interface () index := by
  refine .moveAny inside fun start reached inside => ?_
  refine .takeWord inside fun name before => ?_
  have further : index < start + 1 := Nat.lt_succ_of_le reached
  refine .call trivial (.of_lt further _) fun _ place returns => ?_
  have further : index < place := Nat.lt_of_lt_of_le further returns.1
  exact .lastThen trivial (.of_lt further _) further

end Members

section Runs
variable {stream : TokenStream} {state : State grammar .file}

theorem bodies_disciplined (stream : TokenStream) :
    Routines.Bodies.Disciplined discipline stream bodies := by
  rintro ⟨rule, argument, entry⟩ inside expected
  cases rule with
  | file => exact file_keeps inside _ _
  | interface => exact interface_keeps inside
  | heading => exact heading_keeps inside _
  | objectBody => exact objectBody_keeps inside
  | members => exact members_keeps _
  | separators => exact separators_keeps inside
  | member => exact member_keeps
  | modifiers => exact modifiers_keeps inside
  | signature => exact signature_keeps inside
  | type => exact type_keeps
  | conditional => exact conditional_keeps
  | union => exact union_keeps inside
  | unionMembers => exact unionMembers_keeps inside _
  | intersection => exact intersection_keeps inside
  | intersectionMembers => exact intersectionMembers_keeps inside
  | suffixed => exact suffixed_keeps
  | operators => exact operators_keeps inside _
  | suffixes => exact suffixes_keeps inside _
  | primary => exact primary_keeps inside
  | reference => exact reference_keeps
  | arguments => exact arguments_keeps _
  | dottedName => exact dottedName_keeps inside
  | dottedParts => exact dottedParts_keeps inside _
  | tuple => exact tuple_keeps inside expected
  | items => exact items_keeps inside _
  | function => exact function_keeps inside
  | arrowAhead => exact arrowAhead_keeps inside _ _
  | group => exact group_keeps inside _ _
  | groupEnd => exact groupEnd_keeps inside _ _ _ _

theorem start_sound (stream : TokenStream) : start.Sound discipline stream :=
  ⟨Nat.zero_le _, rfl, Nat.zero_le _, file_keeps (Nat.zero_le _) [] 0, rfl⟩

/-- The cursor, the counter and the calls that are open in a state and in the one behind it. -/
structure Orderly (stream : TokenStream) (state next : State grammar .file) : Prop where
  inside : state.cursor.index ≤ stream.tokens.length
  /-- At the cursor is a token or the end of the source. -/
  seen : stream.sight state.cursor.index ≠ .beyond
  forward : state.cursor.index ≤ next.cursor.index
  /-- The counter is the number of nested calls that are open. -/
  counted : state.cursor.nesting = state.nested
  bounded : state.nested ≤ maximumNesting
  /-- In a call the counter is always as it was at its entry, so also when the call returns. -/
  restored : ∀ call ∈ state.calls.head?, state.cursor.nesting = call.entry.nesting
  /-- A rule that is called inside itself, as for the next round of a loop, is further on. -/
  onward : state.calls.Pairwise fun inner outer =>
    inner.name = outer.name → place outer < place inner

theorem orderly_of_sound (sound : state.Sound discipline stream) :
    Orderly stream state (state.step stream bodies) :=
  ⟨sound.inside, sight_ne_beyond sound.inside, State.index_le_step stream bodies state,
    sound.counted, sound.bounded, sound.restored, sound.onward⟩

/-- Whatever the tokens are, the rules come to an end with what the readers give. Until then the
cursor goes forward and stays among the tokens and their end, no rule is called inside itself without
a token taken in between, and the counter is that of the nested calls that are open, of which there
are never more than the limit. -/
theorem run_orderly (stream : TokenStream) :
    (∃ count behind,
      start.after stream bodies count = .finished (SourceFile.ofTokens stream) ⟨behind, 0⟩) ∧
    ∀ count, Orderly stream (start.after stream bodies count)
      (start.after stream bodies (count + 1)) := by
  obtain ⟨behind, count, finished⟩ := reaches_ofTokens stream
  refine ⟨⟨count, behind, finished⟩, fun count => ?_⟩
  have sound := (start_sound stream).after (bodies_disciplined stream) count
  rw [State.after_succ]
  exact orderly_of_sound sound

-- A body that is not closed ends at the end of the source, where the cursor cannot go on.
example : start.after ⟨[⟨.word "interface", 0, none⟩, ⟨.word "A", 10, none⟩,
      ⟨.mark .openBrace, 12, none⟩], 13, none⟩ bodies 24 =
    .finished (.error (.unexpectedToken "`\x7d` closing the object type" endOfInput 13)) ⟨3, 0⟩ :=
  rfl

end Runs

end Rule

end Toggles.Declaration
