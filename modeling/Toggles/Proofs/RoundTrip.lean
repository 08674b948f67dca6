import Toggles.Declaration.Source
import Toggles.Proofs.Legibility
import Toggles.Proofs.Parsing
import Toggles.Proofs.Success

/-! Reading the canonical form of a declaration gives the declaration.

A type is read in two ways. Enclosed by an array or a union it is an element, to which
the array marks behind it apply; everywhere else it is read as a whole.
-/

set_option autoImplicit false

namespace Toggles.Declaration

open Level (ofNesting)

section Openings
variable {tokens rest : List Located}

theorem separated_map {α : Type} (between : Mark) (f : α → List Piece) (first : α)
    (others : List α) : separated between ((first :: others).map f) =
      f first ++ others.flatMap fun other => .mark between :: f other := by
  rw [List.map_cons, separated, List.flatMap_map]

-- Further items begin with the mark between them, if there are any.
theorem startsWith_further {α : Type} {between mark : Mark} {f : α → List Piece} {others : List α}
    (begins : Begins (others.flatMap fun other => .mark between :: f other) tokens rest)
    (different : between ≠ mark) (none : startsWith mark rest = false) :
    startsWith mark tokens = false := by
  cases others with
  | nil =>
      cases begins
      exact none
  | cons other others =>
      obtain ⟨position, following, rfl, -⟩ := begins
      simpa [Piece.mark, Piece.of] using different

theorem endsName_further {α : Type} {between : Mark} {f : α → List Piece} {others : List α}
    (begins : Begins (others.flatMap fun other => .mark between :: f other) tokens rest)
    (separates : between ∉ [Mark.dot, .openAngle, .colon, .question]) (ends : EndsName rest) :
    EndsName tokens := by
  simp only [List.mem_cons, List.not_mem_nil, or_false, not_or] at separates
  obtain ⟨dot, angle, colon, question⟩ := separates
  exact ⟨startsWith_further begins dot ends.dot, startsWith_further begins angle ends.angle,
    startsWith_further begins colon ends.colon, startsWith_further begins question ends.question⟩

theorem opensType_word {word : String} {position : Nat} {doc : Option String}
    (colon : startsWith .colon rest = false) (question : startsWith .question rest = false) :
    OpensType (⟨.word word, position, doc⟩ :: rest) := by
  constructor
  case label => rw [Level.skipLabel, colon, question]; rfl
  all_goals rfl

theorem opensType_other {token : Token} {position : Nat} {doc : Option String}
    (noWord : ∀ word, token ≠ .word word)
    (noMark : token ∉ [.mark .closeBracket, .mark .ellipsis, .mark .ampersand, .mark .pipe]) :
    OpensType (⟨token, position, doc⟩ :: rest) := by
  simp only [List.mem_cons, List.not_mem_nil, or_false, not_or] at noMark
  constructor
  case label =>
    unfold Level.skipLabel
    split
    · next same => cases same; exact absurd rfl (noWord _)
    · rfl
  all_goals simp [startsWith, noMark]

theorem opensType_name {name : String} (begins : Begins (namePieces name) tokens rest)
    (colon : startsWith .colon rest = false) (question : startsWith .question rest = false) :
    OpensType tokens := by
  unfold namePieces at begins
  cases names : segments name with
  | nil => exact absurd (List.map_eq_nil_iff.mp names) (Text.splitAt_ne_nil '.' name.toList)
  | cons first others =>
      rw [names, separated_map] at begins
      obtain ⟨position, middle, rfl, begins⟩ := begins
      exact opensType_word (startsWith_further begins (by decide) colon)
        (startsWith_further begins (by decide) question)

-- A type that is written begins like a type.
theorem TypeExpr.Writable.opens {type : TypeExpr} (writable : type.Writable) {enclosed : Bool}
    (begins : Begins (type.pieces enclosed) tokens rest) (ends : EndsName rest) :
    OpensType tokens := by
  induction writable generalizing enclosed tokens rest with
  | keyword value =>
      obtain ⟨position, others, rfl, rfl⟩ := begins
      exact opensType_word ends.colon ends.question
  | string value =>
      obtain ⟨position, others, rfl, rfl⟩ := begins
      exact opensType_other (by simp [Piece.of]) (by simp [Piece.of])
  | boolean value =>
      cases value <;>
        obtain ⟨position, others, rfl, rfl⟩ := begins <;>
        exact opensType_word ends.colon ends.question
  | @integer value small =>
      rw [TypeExpr.pieces, Literal.pieces] at begins
      split at begins
      · obtain ⟨position, others, rfl, -⟩ := begins
        exact opensType_other (by simp [Piece.of, Piece.mark]) (by simp [Piece.of, Piece.mark])
      · obtain ⟨position, others, rfl, -⟩ := begins
        exact opensType_other (by simp [Piece.of]) (by simp [Piece.of])
  | array writable ih =>
      rw [TypeExpr.pieces, begins_append] at begins
      obtain ⟨middle, begins, position, others, rfl, -⟩ := begins
      exact ih begins (endsName_mark (by decide))
  | @union members several each ih =>
      rw [TypeExpr.pieces, piecesOfEach_eq_map] at begins
      cases enclosed with
      | true =>
          obtain ⟨position, others, rfl, -⟩ := begins
          exact opensType_other (by simp [Piece.of, Piece.mark]) (by simp [Piece.of, Piece.mark])
      | false =>
          cases members with
          | nil => simp at several
          | cons first others =>
              rw [parenthesizedIf, if_neg Bool.false_ne_true, separated_map, begins_append] at begins
              obtain ⟨middle, begins, further⟩ := begins
              exact ih first List.mem_cons_self begins (endsName_further further (by decide) ends)
  | object docs each ih =>
      rw [TypeExpr.pieces] at begins
      obtain ⟨position, others, rfl, -⟩ := begins
      exact opensType_other (by simp [Piece.of, Piece.mark]) (by simp [Piece.of, Piece.mark])
  | @reference name arguments plain each ih =>
      cases arguments with
      | nil =>
          rw [TypeExpr.pieces] at begins
          exact opensType_name begins ends.colon ends.question
      | cons first others =>
          rw [TypeExpr.pieces, List.append_assoc, begins_append] at begins
          obtain ⟨middle, begins, position, others, rfl, -⟩ := begins
          exact opensType_name begins rfl rfl
  | tuple each ih =>
      rw [TypeExpr.pieces] at begins
      obtain ⟨position, others, rfl, -⟩ := begins
      exact opensType_other (by simp [Piece.of, Piece.mark]) (by simp [Piece.of, Piece.mark])
  | uninterpreted =>
      obtain ⟨position, others, rfl, -⟩ := begins
      exact opensType_other (by simp [Piece.of]) (by simp [Piece.of])

end Openings

section Readings
variable {type : TypeExpr} {units : Nat} {tokens rest after : List Located}

/-- A type that is enclosed is read together with what applies to it behind it. -/
def Element (type : TypeExpr) : Prop :=
  ∀ units, type.nesting true ≤ units → ∀ tokens rest, Begins (type.pieces true) tokens rest →
    Arrowless tokens → EndsName rest → ∀ value after,
      (∀ bound within, Reads (Level.suffixes type bound rest within) value after) →
        Reads ((ofNesting units).suffixed tokens) value after

/-- A type that stands for itself is read up to its end. -/
def Whole (type : TypeExpr) : Prop :=
  ∀ units, type.nesting false ≤ units → ∀ tokens rest, Begins (type.pieces false) tokens rest →
    Arrowless tokens → EndsType rest → Reads ((ofNesting units).conditional tokens) type rest

theorem Whole.enclosed (whole : Whole type) (nesting : type.nesting false + 1 ≤ units)
    (begins : Begins (type.pieces false) tokens rest) (arrowless : Arrowless tokens)
    (ends : EndsType rest) : Reads ((ofNesting units).type tokens) type rest := by
  cases units with
  | zero => omega
  | succ units => exact whole units (Nat.le_of_succ_le_succ nesting) tokens rest begins arrowless ends

section Unions

theorem Element.intersection (element : Element type) (nesting : type.nesting true ≤ units)
    (begins : Begins (type.pieces true) tokens rest) (opens : OpensType tokens)
    (arrowless : Arrowless tokens) (ends : EndsName rest)
    (bracket : startsWith .openBracket rest = false)
    (ampersand : startsWith .ampersand rest = false) :
    Reads ((ofNesting units).intersection tokens) type rest := by
  have first : Reads ((ofNesting units).suffixed (skip .ampersand tokens)) type rest := by
    rw [skip_of_other opens.ampersand]
    exact element units nesting tokens rest begins arrowless ends type rest
      fun bound within => Level.suffixes_of_other within bracket
  refine first.bind fun within => ?_
  simp only [ampersand, Bool.false_eq_true, if_false]
  exact reads_ok _

-- A member of a union is read up to the mark behind it or to the end of the union.
theorem Element.intersection_further {members : List TypeExpr} {middle : List Located}
    (element : Element type) (nesting : type.nesting true ≤ units) (writable : type.Writable)
    (begins : Begins (type.pieces true) tokens middle)
    (further : Begins (members.flatMap fun member => .mark .pipe :: member.pieces true) middle rest)
    (arrowless : Arrowless tokens) (ends : EndsType rest) :
    Reads ((ofNesting units).intersection tokens) type middle := by
  have endsMember := endsName_further further (by decide) ends.toEndsName
  exact element.intersection nesting begins (writable.opens begins endsMember) arrowless endsMember
    (startsWith_further further (by decide) ends.bracket)
    (startsWith_further further (by decide) ends.ampersand)

-- The members that are left are read one after the other.
theorem reads_unionAfter {members : List TypeExpr}
    (writable : ∀ member ∈ members, member.Writable) (elements : ∀ member ∈ members, Element member)
    (nesting : ∀ member ∈ members, member.nesting true ≤ units) {seen : List TypeExpr} {bound : Nat}
    (within : tokens.length < bound)
    (begins : Begins (members.flatMap fun member => .mark .pipe :: member.pieces true) tokens rest)
    (arrowless : Arrowless tokens) (ends : EndsType rest) :
    Reads ((ofNesting units).unionAfter seen bound tokens within) (seen.reverse ++ members) rest := by
  induction members generalizing seen tokens with
  | nil =>
      cases begins
      rw [Level.unionAfter, if_neg (by simp [ends.pipe]), List.append_nil]
      exact reads_ok within
  | cons member members ih =>
      obtain ⟨first, writable⟩ := List.forall_mem_cons.mp writable
      obtain ⟨element, elements⟩ := List.forall_mem_cons.mp elements
      obtain ⟨fits, nesting⟩ := List.forall_mem_cons.mp nesting
      rw [List.flatMap_cons, begins_append] at begins
      obtain ⟨middle, ⟨position, others, rfl, begins⟩, further⟩ := begins
      have read := element.intersection_further fits first begins further arrowless.tail ends
      rw [Level.unionAfter, if_pos (by simp [Piece.mark, Piece.of])]
      refine read.bind fun within => ?_
      rw [List.append_cons, ← List.reverse_cons]
      exact ih writable elements nesting _ further (arrowless.tail.rest begins)

theorem reads_union {first : TypeExpr} {others : List TypeExpr}
    (writable : ∀ member ∈ first :: others, member.Writable)
    (elements : ∀ member ∈ first :: others, Element member)
    (nesting : ∀ member ∈ first :: others, member.nesting true ≤ units)
    (begins : Begins (separated .pipe ((first :: others).map (TypeExpr.pieces true))) tokens rest)
    (arrowless : Arrowless tokens) (ends : EndsType rest) :
    Reads ((ofNesting units).union tokens) (Level.unionOf (first :: others)) rest := by
  obtain ⟨firstWritable, writable⟩ := List.forall_mem_cons.mp writable
  obtain ⟨element, elements⟩ := List.forall_mem_cons.mp elements
  obtain ⟨fits, nesting⟩ := List.forall_mem_cons.mp nesting
  rw [separated_map, begins_append] at begins
  obtain ⟨middle, begins, further⟩ := begins
  have opens := firstWritable.opens begins (endsName_further further (by decide) ends.toEndsName)
  have read : Reads ((ofNesting units).intersection (skip .pipe tokens)) first middle := by
    rw [skip_of_other opens.pipe]
    exact element.intersection_further fits firstWritable begins further arrowless ends
  refine read.bind fun within => ?_
  refine (reads_unionAfter writable elements nesting _ further (arrowless.rest begins) ends).bind
    fun within => ?_
  exact ⟨within, rfl⟩

theorem reads_conditional (union : Reads ((ofNesting units).union tokens) type rest)
    (ends : EndsType rest) : Reads ((ofNesting units).conditional tokens) type rest := by
  refine union.bind fun within => ?_
  rw [if_neg (by simp [ends.condition])]
  exact reads_ok within

-- An element is also read as a whole, unless it is a union.
theorem Element.whole (element : Element type) (writable : type.Writable)
    (single : ∀ members, type ≠ .union members) : Whole type := by
  intro units nesting tokens rest begins arrowless ends
  have same : type.pieces false = type.pieces true ∧ type.nesting false = type.nesting true := by
    cases type with
    | union members => exact absurd rfl (single members)
    | reference name arguments => cases arguments <;> simp [TypeExpr.pieces, TypeExpr.nesting]
    | _ => simp [TypeExpr.pieces, TypeExpr.nesting]
  rw [same.1] at begins
  rw [same.2] at nesting
  have alone : Begins (separated .pipe ([type].map (TypeExpr.pieces true))) tokens rest := by
    simpa [separated] using begins
  exact reads_conditional (reads_union (by simpa) (by simpa) (by simpa) alone arrowless ends) ends

end Unions

section Lists

-- Arguments are read up to the mark that closes them.
theorem reads_argumentsAfter {first : TypeExpr} {others seen : List TypeExpr} {bound : Nat}
    (wholes : ∀ argument ∈ first :: others, Whole argument)
    (nesting : ∀ argument ∈ first :: others, argument.nesting false + 1 ≤ units)
    (within : tokens.length ≤ bound)
    (begins : Begins (separated .comma ((first :: others).map (TypeExpr.pieces false)) ++
      [.mark .closeAngle]) tokens rest) (arrowless : Arrowless tokens) :
    Reads ((ofNesting units).argumentsAfter seen bound tokens within)
      (seen.reverse ++ first :: others) rest := by
  induction others generalizing first seen tokens with
  | nil =>
      rw [separated_map, List.flatMap_nil, List.append_nil, begins_append] at begins
      obtain ⟨middle, begins, position, others, rfl, rfl⟩ := begins
      have read := (wholes first (by simp)).enclosed (nesting first (by simp)) begins arrowless
        (endsType_mark (by decide))
      rw [Level.argumentsAfter]
      refine read.bind fun within => ?_
      rw [if_neg (by simp [Piece.mark, Piece.of])]
      refine (reads_expect _).bind fun within => ?_
      rw [← List.reverse_cons]
      exact reads_ok _
  | cons second others ih =>
      obtain ⟨whole, wholes⟩ := List.forall_mem_cons.mp wholes
      obtain ⟨fits, nesting⟩ := List.forall_mem_cons.mp nesting
      rw [separated_map, List.flatMap_cons, List.append_assoc, begins_append] at begins
      obtain ⟨middle, begins, position, following, rfl, further⟩ := begins
      have read := whole.enclosed fits begins arrowless (endsType_mark (by decide))
      rw [Level.argumentsAfter]
      refine read.bind fun within => ?_
      rw [if_pos (by simp [Piece.mark, Piece.of]), List.append_cons, ← List.reverse_cons]
      refine ih wholes nesting _ ?_ (arrowless.rest begins).tail
      rwa [separated_map]

-- Items are read up to the mark that closes them.
theorem reads_itemsAfter {items seen : List TypeExpr} {bound : Nat}
    (writable : ∀ item ∈ items, item.Writable) (wholes : ∀ item ∈ items, Whole item)
    (nesting : ∀ item ∈ items, item.nesting false + 1 ≤ units) (within : tokens.length ≤ bound)
    (begins : Begins (separated .comma (items.map (TypeExpr.pieces false)) ++
      [.mark .closeBracket]) tokens rest) (arrowless : Arrowless tokens) :
    Reads ((ofNesting units).itemsAfter seen bound tokens within) (seen.reverse ++ items) rest := by
  cases items with
  | nil =>
      obtain ⟨position, others, rfl, rfl⟩ := begins
      rw [Level.itemsAfter, dif_pos (by simp [Piece.mark, Piece.of]), List.append_nil]
      exact reads_ok _
  | cons first others =>
      induction others generalizing first seen tokens with
      | nil =>
          rw [separated_map, List.flatMap_nil, List.append_nil, begins_append] at begins
          obtain ⟨middle, begins, position, others, rfl, rfl⟩ := begins
          have opens := (writable first (by simp)).opens begins (endsName_mark (by decide))
          have read := (wholes first (by simp)).enclosed (nesting first (by simp)) begins arrowless
            (endsType_mark (by decide))
          rw [← List.reverse_cons]
          exact Level.itemsAfter_close within opens read
      | cons second others ih =>
          obtain ⟨firstWritable, writable⟩ := List.forall_mem_cons.mp writable
          obtain ⟨whole, wholes⟩ := List.forall_mem_cons.mp wholes
          obtain ⟨fits, nesting⟩ := List.forall_mem_cons.mp nesting
          rw [separated_map, List.flatMap_cons, List.append_assoc, begins_append] at begins
          obtain ⟨middle, begins, position, following, rfl, further⟩ := begins
          have opens := firstWritable.opens begins (endsName_mark (by decide))
          have read := whole.enclosed fits begins arrowless (endsType_mark (by decide))
          rw [List.append_cons, ← List.reverse_cons]
          refine Level.itemsAfter_comma within opens read fun within => ?_
          refine ih within (arrowless.rest begins).tail second writable wholes nesting ?_
          rwa [separated_map]

-- No separator stands in front of members or of the brace behind them.
theorem skipSeparators_of_begins {members : List Member}
    (begins : Begins (memberPieces members ++ [.mark .closeBrace]) tokens rest) :
    Level.skipSeparators tokens = tokens := by
  cases members with
  | nil =>
      rw [memberPieces] at begins
      obtain ⟨position, others, rfl, -⟩ := begins
      simp [Level.skipSeparators, Piece.mark, Piece.of]
  | cons member members =>
      rw [memberPieces] at begins
      obtain ⟨position, others, rfl, -⟩ := begins
      simp [Level.skipSeparators]

-- Members are read up to the brace that closes them.
theorem reads_membersAfter {members seen : List Member} {bound : Nat}
    (wholes : ∀ member ∈ members, Whole member.type)
    (nesting : ∀ member ∈ members, member.type.nesting false + 1 ≤ units)
    (within : tokens.length ≤ bound)
    (begins : Begins (memberPieces members ++ [.mark .closeBrace])
      (Level.skipSeparators tokens) rest) (arrowless : Arrowless (Level.skipSeparators tokens)) :
    Reads ((ofNesting units).membersAfter seen bound tokens within)
      (seen.reverse ++ members) rest := by
  induction members generalizing seen tokens with
  | nil =>
      rw [memberPieces] at begins
      obtain ⟨position, others, start, rfl⟩ := begins
      rw [List.append_nil]
      exact Level.membersAfter_close within start
  | cons member members ih =>
      obtain ⟨name, optional, doc, type⟩ := member
      obtain ⟨whole, wholes⟩ := List.forall_mem_cons.mp wholes
      obtain ⟨fits, nesting⟩ := List.forall_mem_cons.mp nesting
      have parts : memberPieces (⟨name, optional, doc, type⟩ :: members) ++ [.mark .closeBrace] =
          ⟨doc, .quoted name, false⟩ :: (((if optional then [.mark .question] else []) ++
            [.mark .colon]) ++ (type.pieces false ++
              .mark .semicolon :: (memberPieces members ++ [.mark .closeBrace]))) := by
        simp [memberPieces]
      rw [parts] at begins
      obtain ⟨position, colonward, start, begins⟩ := begins
      rw [start] at arrowless
      obtain ⟨typeward, named, begins⟩ := begins_append.mp begins
      obtain ⟨middle, typed, semicolon, following, rfl, further⟩ := begins_append.mp begins
      have arrowlessType := arrowless.tail.rest named
      have read := whole.enclosed fits typed arrowlessType (endsType_mark (by decide))
      refine Level.membersAfter_member within start (by simp) (Level.reads_member named read)
        fun within => ?_
      -- The semicolon is the only separator in front of what is left.
      have skipped : Level.skipSeparators (⟨(Piece.mark .semicolon).token, semicolon,
          (Piece.mark .semicolon).doc⟩ :: following) = following := by
        have stays := skipSeparators_of_begins further
        simpa [Level.skipSeparators, Piece.mark, Piece.of] using stays
      rw [List.append_cons, ← List.reverse_cons]
      refine ih wholes nesting within ?_ ?_
      · rw [skipped]
        exact further
      · rw [skipped]
        exact (arrowlessType.rest typed).tail

end Lists

section Elements

-- A primary type is an element, whatever applies to it.
theorem Element.of_primary
    (read : ∀ units, type.nesting true ≤ units → ∀ tokens rest, Begins (type.pieces true) tokens rest →
      Arrowless tokens → EndsName rest →
        Level.Plain tokens ∧ Reads ((ofNesting units).primary tokens) type rest) : Element type := by
  intro units nesting tokens rest begins arrowless ends value after others
  obtain ⟨plain, first⟩ := read units nesting tokens rest begins arrowless ends
  exact Level.reads_suffixed plain first others

theorem element_keyword (value : Keyword) : Element (.keyword value) := by
  apply Element.of_primary
  intro units nesting tokens rest begins arrowless ends
  obtain ⟨position, others, rfl, rfl⟩ := begins
  cases value <;> exact ⟨Level.plain_word (by decide), reads_ok _⟩

theorem element_string (value : String) : Element (.literal (.string value)) := by
  apply Element.of_primary
  intro units nesting tokens rest begins arrowless ends
  obtain ⟨position, others, rfl, rfl⟩ := begins
  exact ⟨Level.plain_other (by simp [Piece.of]), reads_ok _⟩

theorem element_boolean (value : Bool) : Element (.literal (.boolean value)) := by
  apply Element.of_primary
  intro units nesting tokens rest begins arrowless ends
  cases value
  all_goals
    obtain ⟨position, others, rfl, rfl⟩ := begins
    exact ⟨Level.plain_word (by decide), reads_ok _⟩

theorem element_integer {value : Int} (small : value.natAbs < Nat.pow 2 63) :
    Element (.literal (.integer value)) := by
  apply Element.of_primary
  intro units nesting tokens rest begins arrowless ends
  have numeral : ∀ negative position, Level.numeral negative (toString value.natAbs) position =
      .ok (.literal (.integer (signed negative value.natAbs))) :=
    fun negative _ => Level.numeral_of_numeralType? (numeralType?_toString small negative)
  rw [TypeExpr.pieces, Literal.pieces] at begins
  split at begins
  · next negative =>
      obtain ⟨minus, _, rfl, position, others, rfl, rfl⟩ := begins
      have same : signed true value.natAbs = value := by
        simp only [signed, if_true]
        omega
      refine ⟨Level.plain_other (by simp [Piece.of, Piece.mark]), ?_⟩
      simp only [Level.primary, Level.marked, Piece.mark, Piece.of, numeral, same]
      exact reads_ok _
  · next negative =>
      obtain ⟨position, others, rfl, rfl⟩ := begins
      have same : signed false value.natAbs = value := by
        simp only [signed, Bool.false_eq_true, if_false]
        omega
      refine ⟨Level.plain_other (by simp [Piece.of]), ?_⟩
      simp only [Level.primary, Piece.of, numeral, same]
      exact reads_ok _

theorem element_uninterpreted : Element .uninterpreted := by
  apply Element.of_primary
  intro units nesting tokens rest begins arrowless ends
  obtain ⟨position, others, rfl, rfl⟩ := begins
  exact ⟨Level.plain_other (by simp [Piece.of]), reads_ok _⟩

theorem Element.array (element : Element type) : Element (.array type) := by
  intro units nesting tokens rest begins arrowless ends value after read
  rw [TypeExpr.pieces, begins_append] at begins
  rw [TypeExpr.nesting] at nesting
  obtain ⟨middle, begins, openBracket, _, rfl, closeBracket, others, rfl, rfl⟩ := begins
  exact element units nesting tokens _ begins arrowless (endsName_mark (by decide)) value after
    fun bound within => Level.suffixes_array within fun within => read bound within

theorem le_deepest {depths : List Nat} {depth : Nat} (member : depth ∈ depths) :
    depth ≤ deepest depths := by
  induction depths with
  | nil => cases member
  | cons first rest ih =>
      have split : deepest (first :: rest) = max first (deepest rest) := rfl
      rw [split]
      rcases List.mem_cons.mp member with rfl | member
      · exact Nat.le_max_left _ _
      · exact Nat.le_trans (ih member) (Nat.le_max_right _ _)

theorem nestingOfEach_eq_map (enclosed : Bool) (types : List TypeExpr) :
    nestingOfEach enclosed types = types.map (TypeExpr.nesting enclosed) := by
  induction types with
  | nil => rfl
  | cons type rest ih => rw [nestingOfEach, ih, List.map_cons]

theorem memberNesting_eq_map (members : List Member) :
    memberNesting members = members.map fun member => member.type.nesting false + 1 := by
  induction members with
  | nil => rfl
  | cons member rest ih => rw [memberNesting, ih, List.map_cons]

-- What holds some types has a unit of nesting for each of them.
theorem nesting_le_of_deepest {types : List TypeExpr}
    (nesting : deepest ((nestingOfEach false types).map (· + 1)) ≤ units) :
    ∀ type ∈ types, type.nesting false + 1 ≤ units := by
  intro type member
  rw [nestingOfEach_eq_map, List.map_map] at nesting
  refine Nat.le_trans (le_deepest ?_) nesting
  exact List.mem_map.mpr ⟨type, member, rfl⟩

theorem nesting_le_of_memberNesting {members : List Member}
    (nesting : deepest (memberNesting members) ≤ units) :
    ∀ member ∈ members, member.type.nesting false + 1 ≤ units := by
  intro member present
  rw [memberNesting_eq_map] at nesting
  refine Nat.le_trans (le_deepest ?_) nesting
  exact List.mem_map.mpr ⟨member, present, rfl⟩

theorem whole_union {members : List TypeExpr} (several : 2 ≤ members.length)
    (writable : ∀ member ∈ members, member.Writable)
    (elements : ∀ member ∈ members, Element member) : Whole (.union members) := by
  intro units nesting tokens rest begins arrowless ends
  rw [TypeExpr.pieces, piecesOfEach_eq_map, parenthesizedIf, if_neg Bool.false_ne_true] at begins
  rw [TypeExpr.nesting, nestingOfEach_eq_map] at nesting
  have fits : ∀ member ∈ members, member.nesting true ≤ units :=
    fun member present => Nat.le_trans (le_deepest (List.mem_map_of_mem present)) nesting
  cases members with
  | nil => simp at several
  | cons first rest =>
      cases rest with
      | nil => simp at several
      | cons second others =>
          exact reads_conditional (reads_union writable elements fits begins arrowless ends) ends

-- Parentheses make an element of a union.
theorem element_union {members : List TypeExpr} (whole : Whole (.union members)) :
    Element (.union members) := by
  apply Element.of_primary
  intro units nesting tokens rest begins arrowless ends
  have unenclosed : (TypeExpr.union members).pieces false =
      separated .pipe (piecesOfEach true members) := by
    rw [TypeExpr.pieces]
    rfl
  have fits : (TypeExpr.union members).nesting false + 1 ≤ units := by
    simpa [TypeExpr.nesting] using nesting
  rw [TypeExpr.pieces] at begins
  obtain ⟨openParen, others, rfl, begins⟩ := begins
  obtain ⟨middle, inside, closeParen, _, rfl, rfl⟩ := begins_append.mp begins
  rw [← unenclosed] at inside
  have read := whole.enclosed fits inside arrowless.tail (endsType_mark (by decide))
  -- No arrow stands behind the parentheses, so they are not those of a function.
  have noArrow := Level.arrowAfterGroup_eq_false 1 arrowless.tail
  refine ⟨Level.plain_other (by simp [Piece.of, Piece.mark]), ?_⟩
  simp only [Level.primary, Level.marked, Piece.mark, Piece.of, noArrow]
  exact Level.reads_parenthesized read

theorem element_object {members : List Member} (wholes : ∀ member ∈ members, Whole member.type) :
    Element (.object members) := by
  apply Element.of_primary
  intro units nesting tokens rest begins arrowless ends
  rw [TypeExpr.nesting] at nesting
  rw [TypeExpr.pieces] at begins
  obtain ⟨openBrace, others, rfl, begins⟩ := begins
  have start := skipSeparators_of_begins begins
  refine ⟨Level.plain_other (by simp [Piece.of, Piece.mark]), ?_⟩
  cases units with
  | zero => omega
  | succ units =>
      have fits := nesting_le_of_memberNesting (Nat.le_of_succ_le_succ nesting)
      have body : Reads ((ofNesting units).objectBody (⟨.mark .openBrace, openBrace, none⟩ :: others))
          members rest :=
        Level.reads_objectBody fun bound within =>
          reads_membersAfter wholes fits within (start.symm ▸ begins) (start.symm ▸ arrowless.tail)
      exact body.bind fun within => ⟨within, rfl⟩

theorem element_tuple {items : List TypeExpr} (writable : ∀ item ∈ items, item.Writable)
    (wholes : ∀ item ∈ items, Whole item) : Element (.tuple items) := by
  apply Element.of_primary
  intro units nesting tokens rest begins arrowless ends
  rw [TypeExpr.nesting] at nesting
  rw [TypeExpr.pieces, piecesOfEach_eq_map] at begins
  obtain ⟨openBracket, others, rfl, begins⟩ := begins
  have fits := nesting_le_of_deepest nesting
  refine ⟨Level.plain_other (by simp [Piece.of, Piece.mark]), ?_⟩
  exact Level.reads_tuple fun bound within =>
    reads_itemsAfter writable wholes fits within begins arrowless.tail

-- A name of a type is read as a reference at its first word.
theorem reads_primary_name {name : String} (plain : ReferenceName name)
    (begins : Begins (namePieces name) tokens after)
    (read : Reads ((ofNesting units).reference tokens) type rest) :
    Level.Plain tokens ∧ Reads ((ofNesting units).primary tokens) type rest := by
  unfold namePieces at begins
  cases names : segments name with
  | nil => exact absurd (List.map_eq_nil_iff.mp names) (Text.splitAt_ne_nil '.' name.toList)
  | cons first parts =>
      rw [names, List.map_cons, separated] at begins
      obtain ⟨position, others, rfl, -⟩ := begins
      obtain ⟨noOperator, noKeyword⟩ := plain.plain first (by simp [names])
      refine ⟨Level.plain_word fun member => noOperator ?_, ?_⟩
      · exact List.mem_append_right _ member
      · exact Level.reads_worded noOperator noKeyword read

theorem element_reference {name : String} {arguments : List TypeExpr} (plain : ReferenceName name)
    (wholes : ∀ argument ∈ arguments, Whole argument) : Element (.reference name arguments) := by
  apply Element.of_primary
  intro units nesting tokens rest begins arrowless ends
  rw [TypeExpr.nesting] at nesting
  have fits := nesting_le_of_deepest nesting
  cases arguments with
  | nil =>
      rw [TypeExpr.pieces] at begins
      exact reads_primary_name plain begins (Level.reads_reference begins ends.dot ends.angle)
  | cons first others =>
      rw [TypeExpr.pieces, piecesOfEach_eq_map, List.append_assoc] at begins
      obtain ⟨middle, named, openAngle, following, rfl, begins⟩ := begins_append.mp begins
      refine reads_primary_name plain named (Level.reads_reference_arguments named ?_)
      intro bound within
      exact reads_argumentsAfter wholes fits within begins (arrowless.rest named).tail

-- Types that have a canonical form are read from it, enclosed or not.
theorem TypeExpr.Writable.reads (writable : type.Writable) : Element type ∧ Whole type := by
  have both : ∀ {type : TypeExpr}, type.Writable → (∀ members, type ≠ .union members) →
      Element type → Element type ∧ Whole type :=
    fun writable single element => ⟨element, element.whole writable single⟩
  induction writable with
  | keyword value => exact both (.keyword value) nofun (element_keyword value)
  | string value => exact both (.string value) nofun (element_string value)
  | boolean value => exact both (.boolean value) nofun (element_boolean value)
  | integer small => exact both (.integer small) nofun (element_integer small)
  | array writable ih => exact both (.array writable) nofun ih.1.array
  | union several each ih =>
      have whole := whole_union several each fun member present => (ih member present).1
      exact ⟨element_union whole, whole⟩
  | object docs each ih =>
      exact both (.object docs each) nofun
        (element_object fun member present => (ih member present).2)
  | reference plain each ih =>
      exact both (.reference plain each) nofun
        (element_reference plain fun argument present => (ih argument present).2)
  | tuple each ih =>
      exact both (.tuple each) nofun (element_tuple each fun item present => (ih item present).2)
  | uninterpreted => exact both .uninterpreted nofun element_uninterpreted

end Elements

end Readings

section Sources
variable {declared : Interface} {tokens rest : List Located}

-- Legible pieces have no arrow among them.
theorem Legible.arrowless {pieces : List Piece} (legible : Legible pieces)
    (begins : Begins pieces tokens []) : Arrowless tokens := by
  induction pieces generalizing tokens with
  | nil =>
      cases begins
      exact nofun
  | cons piece pieces ih =>
      obtain ⟨-, first, legible⟩ := legible
      obtain ⟨position, others, rfl, begins⟩ := begins
      refine List.forall_mem_cons.mpr ⟨?_, ih legible begins⟩
      intro arrow
      have same : piece.token = .mark .arrow := arrow
      rw [same] at first
      exact first.2.1 rfl

-- A declaration behind its keyword is read up to its closing brace.
theorem reads_interface (wholes : ∀ member ∈ declared.members, Whole member.type)
    (nesting : declared.nesting ≤ maximumNesting) (first second : Nat)
    (begins : Begins (memberPieces declared.members ++ [.mark .closeBrace]) tokens rest)
    (arrowless : Arrowless tokens) :
    Reads (readInterface
      (⟨.word declared.name, first, none⟩ :: ⟨.mark .openBrace, second, none⟩ :: tokens))
      declared rest := by
  have start := skipSeparators_of_begins begins
  have fits : ∀ member ∈ declared.members, member.type.nesting false + 1 ≤ 63 :=
    nesting_le_of_memberNesting (Nat.le_of_succ_le_succ nesting)
  have body : Reads (topLevel.body (⟨.mark .openBrace, second, none⟩ :: tokens))
      declared.members rest :=
    Level.reads_objectBody fun bound within =>
      reads_membersAfter wholes fits within (start.symm ▸ begins) (start.symm ▸ arrowless)
  exact body.bind fun within => ⟨_, rfl⟩

-- A declaration alone is all that is read.
theorem interfacesAfter_single (position : Nat) {following : List Located}
    (named : startsWithAnyWord following = true)
    (read : Reads (readInterface following) declared []) :
    interfacesAfter [] 0 (⟨.word "interface", position, none⟩ :: following) = .ok [declared] := by
  obtain ⟨within, same⟩ := read
  rw [interfacesAfter]
  simp only [opensGroup, closesGroup, Bool.false_eq_true, if_false, decide_true, Bool.true_and,
    beq_self_eq_true, named, if_true, same]
  show interfacesAfter [declared] 0 [] = .ok [declared]
  rw [interfacesAfter]
  rfl

theorem ofTokens_eq_ok {stream : TokenStream} {interfaces : List Interface}
    (read : interfacesAfter [] 0 stream.tokens = .ok interfaces) :
    SourceFile.ofTokens stream = .ok ⟨interfaces⟩ := by
  rw [SourceFile.ofTokens, read]

-- An accepted source is cut into tokens, which are read.
theorem interfaces_of_parse {source : String} {file : SourceFile}
    (parsed : SourceFile.parse source = .ok file) : ∃ stream, tokenize source = .ok stream ∧
      interfacesAfter [] 0 stream.tokens = .ok file.interfaces := by
  obtain ⟨stream, tokenized, read⟩ := bind_eq_ok.mp parsed
  refine ⟨stream, tokenized, ?_⟩
  unfold SourceFile.ofTokens at read
  split at read
  · next interfaces same =>
      cases read
      exact same
  · contradiction

/-- The canonical form of a declaration is read as the declaration: reading keeps its
name and, in their order, its members with their names, documentation and types. -/
theorem parse_render (writable : declared.Writable)
    (size : declared.render.utf8ByteSize ≤ maximumSourceSize)
    (nesting : declared.nesting ≤ maximumNesting) :
    SourceFile.parse declared.render = .ok ⟨[declared]⟩ := by
  obtain ⟨⟨tokens, stop, trailing⟩, cuts, content⟩ := tokensAfter_textOf writable.legible [] 0
  have tokenized : tokenize declared.render = .ok ⟨tokens, stop, trailing⟩ := by
    rw [tokenize, if_neg (Nat.not_lt.mpr size), Interface.render, String.toList_ofList]
    exact cuts
  have begins : Begins declared.pieces tokens [] := begins_of_content content
  have arrowless := writable.legible.arrowless begins
  obtain ⟨position, _, rfl, first, _, rfl, second, following, rfl, body⟩ := begins
  have read := reads_interface (fun member present => (writable.types member present).reads.2)
    nesting first second body arrowless.tail.tail.tail
  have interfaces := interfacesAfter_single position rfl read
  rw [SourceFile.parse, tokenized]
  exact ofTokens_eq_ok interfaces

def sampleInterface : Interface :=
  ⟨"Plan", [
    ⟨"tier \"x\"", true, some " Tier. ", .union [.literal (.string "free"),
      .array (.union [.literal (.integer (-5)), .literal (.boolean true)])]⟩,
    ⟨"limits", false, none, .reference "Map.Of" [.keyword .string,
      .tuple [.object [], .uninterpreted]]⟩]⟩

theorem sampleInterface_writable : sampleInterface.Writable where
  name := by decide +kernel
  docs := by
    simp only [sampleInterface, List.forall_mem_cons]
    refine ⟨?_, nofun, nofun⟩
    rintro doc ⟨⟩
    exact ⟨by decide +kernel, by decide +kernel⟩
  types := by
    simp only [sampleInterface, List.forall_mem_cons]
    refine ⟨.union (by decide +kernel) ?_, .reference ⟨by decide +kernel, by decide +kernel⟩ ?_, nofun⟩
    · simp only [List.forall_mem_cons]
      refine ⟨.string _, .array (.union (by decide +kernel) ?_), nofun⟩
      simp only [List.forall_mem_cons]
      exact ⟨.integer (by decide +kernel), .boolean true, nofun⟩
    · simp only [List.forall_mem_cons]
      refine ⟨.keyword .string, .tuple ?_, nofun⟩
      simp only [List.forall_mem_cons]
      exact ⟨.object nofun nofun, .uninterpreted, nofun⟩

theorem parse_render_sample :
    sampleInterface.Writable ∧ sampleInterface.render.utf8ByteSize ≤ maximumSourceSize ∧
      sampleInterface.nesting ≤ maximumNesting ∧
      SourceFile.parse sampleInterface.render = .ok ⟨[sampleInterface]⟩ := by
  have size : sampleInterface.render.utf8ByteSize ≤ maximumSourceSize := by decide +kernel
  have nesting : sampleInterface.nesting ≤ maximumNesting := by decide +kernel
  exact ⟨sampleInterface_writable, size, nesting, parse_render sampleInterface_writable size nesting⟩

end Sources

end Toggles.Declaration
