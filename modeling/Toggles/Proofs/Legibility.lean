import Toggles.Proofs.Lexing

/-! The canonical form can be cut into its pieces.

The pieces of a type end where any mark but a dot begins, so they can stand in front
of whatever closes them.
-/

set_option autoImplicit false

namespace Toggles.Declaration

open Definition (isWord)

/-- No word and no number goes on in a text. -/
def Closes (text : List Char) : Prop :=
  ∀ c ∈ text.head?, isWordPart c = false ∧ isNumberPart c = false

/-- Pieces that can stand in front of whatever closes them. -/
def Standing (pieces : List Piece) : Prop :=
  ∀ rest, Closes (textOf rest) → Legible rest → Legible (pieces ++ rest)

section Marks
variable {value : Mark} {rest : List Piece}

theorem closes_mark (single : value ≠ .dot ∧ value ≠ .ellipsis) :
    Closes (textOf (.mark value :: rest)) := by
  obtain ⟨dot, ellipsis⟩ := single
  intro c head
  cases value with
  | dot => contradiction
  | ellipsis => contradiction
  | _ =>
      cases head
      decide +kernel

def Mark.Plain (value : Mark) : Prop :=
  value ≠ .equals ∧ value ≠ .arrow ∧ value ≠ .ellipsis ∧ value ≠ .dot

instance (value : Mark) : Decidable value.Plain :=
  inferInstanceAs (Decidable (_ ∧ _))

theorem legible_mark (plain : value.Plain) (legible : Legible rest) :
    Legible (.mark value :: rest) :=
  ⟨nofun, ⟨plain.1, plain.2.1, plain.2.2.1, fun dot => absurd dot plain.2.2.2⟩, legible⟩

end Marks

section Lists

theorem standing_nil : Standing [] :=
  fun _ _ legible => legible

theorem Standing.append {first second : List Piece} (standing : Standing first)
    (closes : ∀ rest, Closes (textOf (second ++ rest))) (other : Standing second) :
    Standing (first ++ second) := by
  intro rest closed legible
  rw [List.append_assoc]
  exact standing _ (closes rest) (other rest closed legible)

theorem standing_mark {value : Mark} (plain : value.Plain) {pieces : List Piece}
    (standing : Standing pieces) : Standing (.mark value :: pieces) :=
  fun rest closed legible => legible_mark plain (standing rest closed legible)

-- Pieces with a mark behind them.
theorem Standing.closed {pieces : List Piece} (standing : Standing pieces) {value : Mark}
    (plain : value.Plain) {others : List Piece} (standingOthers : Standing others) :
    Standing (pieces ++ .mark value :: others) :=
  standing.append (fun _ => closes_mark ⟨plain.2.2.2, plain.2.2.1⟩)
    (standing_mark plain standingOthers)

theorem standing_separated {between : Mark} (plain : between.Plain) {lists : List (List Piece)}
    (each : ∀ pieces ∈ lists, Standing pieces) : Standing (separated between lists) := by
  cases lists with
  | nil => exact standing_nil
  | cons first rest =>
      rw [separated]
      induction rest generalizing first with
      | nil =>
          rw [List.flatMap_nil, List.append_nil]
          exact each first List.mem_cons_self
      | cons second rest ih =>
          obtain ⟨standing, each⟩ := List.forall_mem_cons.mp each
          exact standing.closed plain (ih second each)

end Lists

section Names

theorem standing_word {name : String} (word : isWord name.toList = true) :
    Standing [.word name] :=
  fun _ closed legible => ⟨nofun, ⟨word, fun c head => (closed c head).1⟩, legible⟩

-- The text of a word in front of others begins with no dot.
theorem head_word_ne_dot {name : String} (word : isWord name.toList = true) (rest : List Piece) :
    (textOf (.word name :: rest)).head? ≠ some '.' := by
  cases written : name.toList with
  | nil => simp [written, isWord] at word
  | cons c others =>
      rw [written, isWord, Bool.and_eq_true] at word
      have other : c ≠ '.' := by
        rintro rfl
        exact absurd word.1 (by decide)
      simpa [textOf, Piece.text, Piece.word, Piece.of, Token.text, commentText, written] using other

-- Words with dots between them: a dot is part of a number, but it ends a word.
theorem standing_words {name : String} {rest : List String}
    (words : ∀ segment ∈ name :: rest, isWord segment.toList = true) :
    Standing (separated .dot ((name :: rest).map fun segment => [.word segment])) := by
  rw [List.map_cons, separated]
  induction rest generalizing name with
  | nil => exact standing_word (words name List.mem_cons_self)
  | cons next rest ih =>
      obtain ⟨first, others⟩ := List.forall_mem_cons.mp words
      intro following closed legible
      have below := ih others following closed legible
      refine ⟨nofun, ⟨first, ?_⟩, nofun, ⟨by decide, by decide, by decide, fun _ => ?_⟩, below⟩
      · rintro c ⟨⟩
        decide +kernel
      · exact head_word_ne_dot (others next List.mem_cons_self) _

theorem ReferenceName.standing {name : String} (plain : ReferenceName name) :
    Standing (namePieces name) := by
  have words := plain.words
  unfold namePieces
  cases names : segments name with
  | nil => exact standing_nil
  | cons first rest => exact standing_words (names ▸ words)

end Names

section Types

theorem piecesOfEach_eq_map (enclosed : Bool) (types : List TypeExpr) :
    piecesOfEach enclosed types = types.map (TypeExpr.pieces enclosed) := by
  induction types with
  | nil => rfl
  | cons type rest ih => rw [piecesOfEach, ih, List.map_cons]

theorem standing_number (magnitude : Nat) :
    Standing [.of (.number (toString magnitude))] := by
  intro rest closed legible
  refine ⟨nofun, ⟨?_, ?_, fun c head => (closed c head).2⟩, legible⟩
  · intro empty
    have digits : Nat.toDigits 10 magnitude = [] := by
      rw [← Nat.toList_repr, ← Nat.toString_eq_repr, empty, String.toList_empty]
    exact Nat.toDigits_ne_nil digits
  · intro c member
    rw [Nat.toString_eq_repr, Nat.toList_repr] at member
    exact Nat.isDigit_of_mem_toDigits (by decide) (by decide) member

theorem standing_memberPieces {members : List Member}
    (docs : ∀ member ∈ members, ∀ doc ∈ member.doc, CommentBody doc)
    (types : ∀ member ∈ members, Standing (member.type.pieces false)) :
    Standing (memberPieces members) := by
  induction members with
  | nil =>
      rw [memberPieces]
      exact standing_nil
  | cons member rest ih =>
      obtain ⟨name, optional, doc, type⟩ := member
      obtain ⟨body, docs⟩ := List.forall_mem_cons.mp docs
      obtain ⟨first, types⟩ := List.forall_mem_cons.mp types
      have typed : Standing (.mark .colon :: type.pieces false ++
          .mark .semicolon :: memberPieces rest) :=
        standing_mark (by decide) (first.closed (by decide) (ih docs types))
      intro following closed legible
      rw [memberPieces]
      refine ⟨body, trivial, ?_⟩
      cases optional with
      | false => exact typed following closed legible
      | true => exact standing_mark (by decide) typed following closed legible

theorem TypeExpr.Writable.standing {type : TypeExpr} (writable : type.Writable)
    (enclosed : Bool) : Standing (type.pieces enclosed) := by
  induction writable generalizing enclosed with
  | keyword value =>
      rw [TypeExpr.pieces]
      exact standing_word (by cases value <;> decide +kernel)
  | string value => exact fun _ _ legible => ⟨nofun, trivial, legible⟩
  | boolean value => cases value <;> exact standing_word (by decide +kernel)
  | @integer value small =>
      rw [TypeExpr.pieces, Literal.pieces]
      split
      · exact standing_mark (by decide) (standing_number _)
      · exact standing_number _
  | array writable ih =>
      rw [TypeExpr.pieces]
      exact (ih true).closed (by decide) (standing_mark (by decide) standing_nil)
  | @union members several each ih =>
      have inner : Standing (separated .pipe (piecesOfEach true members)) := by
        rw [piecesOfEach_eq_map]
        apply standing_separated (by decide)
        exact List.forall_mem_map.mpr fun member present => ih member present true
      rw [TypeExpr.pieces]
      cases enclosed with
      | false => exact inner
      | true => exact standing_mark (by decide) (inner.closed (by decide) standing_nil)
  | object docs each ih =>
      rw [TypeExpr.pieces]
      have inner := standing_memberPieces docs fun member present => ih member present false
      exact standing_mark (by decide) (inner.closed (by decide) standing_nil)
  | @reference name arguments plain each ih =>
      cases arguments with
      | nil =>
          rw [TypeExpr.pieces]
          exact plain.standing
      | cons first rest =>
          rw [TypeExpr.pieces, piecesOfEach_eq_map]
          have inner : Standing (separated .comma ((first :: rest).map (TypeExpr.pieces false))) := by
            apply standing_separated (by decide)
            exact List.forall_mem_map.mpr fun argument present => ih argument present false
          rw [List.append_assoc]
          exact plain.standing.closed (by decide) (inner.closed (by decide) standing_nil)
  | @tuple items each ih =>
      rw [TypeExpr.pieces, piecesOfEach_eq_map]
      have inner : Standing (separated .comma (items.map (TypeExpr.pieces false))) := by
        apply standing_separated (by decide)
        exact List.forall_mem_map.mpr fun item present => ih item present false
      exact standing_mark (by decide) (inner.closed (by decide) standing_nil)
  | uninterpreted => exact fun _ _ legible => ⟨nofun, rfl, legible⟩

end Types

-- The canonical form of a declaration can be cut into its pieces.
theorem Interface.Writable.legible {declared : Interface} (writable : declared.Writable) :
    Legible declared.pieces := by
  have members : Standing (memberPieces declared.members) :=
    standing_memberPieces writable.docs fun member present =>
      (writable.types member present).standing false
  have body : Standing (.mark .openBrace :: memberPieces declared.members ++ [.mark .closeBrace]) :=
    standing_mark (by decide) (members.closed (by decide) standing_nil)
  have named := (standing_word writable.name).append (fun _ => closes_mark (by decide)) body
  have written := named [] nofun trivial
  rw [List.append_nil] at written
  refine ⟨nofun, ⟨by decide +kernel, ?_⟩, written⟩
  rintro c ⟨⟩
  decide +kernel

end Toggles.Declaration
