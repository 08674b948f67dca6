import Toggles.Declaration.Grammar
import Toggles.Proofs.Lexing
import Toggles.Proofs.Path

/-! What the readers do on written pieces.

A reader is followed from the tokens at which it starts to those at which it stops.
Positions do not matter to it, so the tokens are only known to begin with some pieces.
-/

set_option autoImplicit false

namespace Toggles.Declaration

section Following
variable {α β : Type} {small large : Nat}

def Reads (outcome : Outcome α small) (value : α) (rest : List Located) : Prop :=
  ∃ within, outcome = .ok ⟨value, rest, within⟩

theorem reads_ok {value : α} {rest : List Located} (within : rest.length < small) :
    Reads (.ok ⟨value, rest, within⟩ : Outcome α small) value rest :=
  ⟨within, rfl⟩

theorem Reads.bind {first : Outcome α small} {next : Reading Located α small → Outcome β large}
    {value : α} {result : β} {rest after : List Located} (read : Reads first value rest)
    (continues : ∀ within, Reads (next ⟨value, rest, within⟩) result after) :
    Reads (first >>= next) result after := by
  obtain ⟨within, rfl⟩ := read
  exact continues within

def Begins : List Piece → List Located → List Located → Prop
  | [], tokens, rest => tokens = rest
  | piece :: pieces, tokens, rest => ∃ position others,
      tokens = ⟨piece.token, position, piece.doc⟩ :: others ∧ Begins pieces others rest

theorem begins_append {first second : List Piece} {tokens rest : List Located} :
    Begins (first ++ second) tokens rest ↔
      ∃ middle, Begins first tokens middle ∧ Begins second middle rest := by
  induction first generalizing tokens with
  | nil => simp [Begins]
  | cons piece pieces ih =>
      simp only [List.cons_append, Begins, ih]
      constructor
      · rintro ⟨position, others, same, middle, begins, stops⟩
        exact ⟨middle, ⟨position, others, same, begins⟩, stops⟩
      · rintro ⟨middle, ⟨position, others, same, begins⟩, stops⟩
        exact ⟨position, others, same, middle, begins, stops⟩

theorem Begins.suffix {pieces : List Piece} {tokens rest : List Located}
    (begins : Begins pieces tokens rest) : rest <:+ tokens := by
  induction pieces generalizing tokens with
  | nil =>
      cases begins
      exact List.suffix_refl rest
  | cons piece pieces ih =>
      obtain ⟨position, others, rfl, begins⟩ := begins
      exact (ih begins).trans (List.suffix_cons _ _)

theorem begins_of_content {pieces : List Piece} {tokens : List Located}
    (same : tokens.map Located.content = pieces.map Piece.content) : Begins pieces tokens [] := by
  induction pieces generalizing tokens with
  | nil => exact List.map_eq_nil_iff.mp same
  | cons piece pieces ih =>
      cases tokens with
      | nil => cases same
      | cons first others =>
          obtain ⟨head, tail⟩ := List.cons.inj same
          obtain ⟨token, position, doc⟩ := first
          cases head
          exact ⟨position, others, rfl, ih tail⟩

def Arrowless (tokens : List Located) : Prop :=
  ∀ located ∈ tokens, located.token ≠ .mark .arrow

theorem Arrowless.tail {first : Located} {others : List Located}
    (arrowless : Arrowless (first :: others)) : Arrowless others :=
  (List.forall_mem_cons.mp arrowless).2

theorem Arrowless.rest {pieces : List Piece} {tokens rest : List Located}
    (arrowless : Arrowless tokens) (begins : Begins pieces tokens rest) : Arrowless rest :=
  fun located member => arrowless located (begins.suffix.subset member)

end Following

section Marks
variable {mark : Mark} {position : Nat} {doc : Option String} {rest : List Located}

@[simp] theorem startsWith_mark (other : Mark) :
    startsWith other (⟨.mark mark, position, doc⟩ :: rest) = decide (mark = other) := by
  simp [startsWith]

theorem reads_expect (expected : String) :
    Reads (expect mark expected (⟨.mark mark, position, doc⟩ :: rest)) () rest :=
  ⟨Reading.length_lt_cons _ rest, if_pos rfl⟩

theorem skip_of_other {tokens : List Located} (other : startsWith mark tokens = false) :
    skip mark tokens = tokens := by
  simp [skip, other]

end Marks

section Numbers

theorem digitValue?_of_digit {c : Char} (digit : c.isDigit = true) :
    digitValue? 10 c = some (c.toNat - '0'.toNat) := by
  have within : ∀ code ∈ digitCodes, code - '0'.toNat < 10 := by decide
  have small := within c.toNat (toNat_mem_digitCodes digit)
  simp only [digitValue?, digit, if_true, small]

theorem digitsValue?_of_digits {digits : List Char} (filled : digits ≠ [])
    (all : ∀ c ∈ digits, c.isDigit = true) :
    digitsValue? 10 digits = some (Nat.ofDigitChars 10 digits 0) := by
  have folded : ∀ (digits : List Char) (value : Nat), (∀ c ∈ digits, c.isDigit = true) →
      digits.foldlM (fun value c => (digitValue? 10 c).map (value * 10 + ·)) value =
        some (Nat.ofDigitChars 10 digits value) := by
    intro digits
    induction digits with
    | nil => intro value _; rfl
    | cons c rest ih =>
        intro value all
        obtain ⟨first, all⟩ := List.forall_mem_cons.mp all
        rw [List.foldlM_cons, digitValue?_of_digit first, Nat.ofDigitChars_cons]
        simp only [Option.map_some, Option.bind_eq_bind, Option.bind_some, ih _ all, Nat.mul_comm]
  rw [digitsValue?, List.isEmpty_eq_false_iff.mpr filled, if_neg Bool.false_ne_true, folded _ _ all]

theorem digitsValue?_toDigits (magnitude : Nat) :
    digitsValue? 10 (Nat.toDigits 10 magnitude) = some magnitude := by
  rw [digitsValue?_of_digits Nat.toDigits_ne_nil, Nat.ofDigitChars_ten_toDigits]
  exact fun c member => Nat.isDigit_of_mem_toDigits (by decide) (by decide) member

theorem splitBase?_of_digits {digits : List Char} (all : ∀ c ∈ digits, c.isDigit = true) :
    splitBase? digits = none := by
  have apart : ∀ c d : Char, c.isDigit = true → d.isDigit = false → c ≠ d := by
    rintro c d digit none rfl
    simp [none] at digit
  unfold splitBase?
  split
  · next mark digits =>
      have digit := all mark (by simp)
      simp [apart mark 'x' digit (by decide), apart mark 'X' digit (by decide),
        apart mark 'o' digit (by decide), apart mark 'O' digit (by decide),
        apart mark 'b' digit (by decide), apart mark 'B' digit (by decide)]
  · rfl

-- The digits of an integer are read as the integer.
theorem numeralType?_toString {magnitude : Nat} (small : magnitude < Nat.pow 2 63)
    (negative : Bool) :
    numeralType? negative (toString magnitude).toList =
      some (.literal (.integer (signed negative magnitude))) := by
  have digits : ∀ c ∈ Nat.toDigits 10 magnitude, c.isDigit = true :=
    fun c member => Nat.isDigit_of_mem_toDigits (by decide) (by decide) member
  have kept : (Nat.toDigits 10 magnitude).filter (· != '_') = Nat.toDigits 10 magnitude := by
    apply List.filter_eq_self.mpr
    intro c member
    have other : c ≠ '_' := by
      rintro rfl
      exact absurd (digits '_' member) (by decide)
    simpa using other
  have last : (Nat.toDigits 10 magnitude).getLast? ≠ some 'n' := by
    intro ends
    exact absurd (digits 'n' (List.mem_of_getLast? ends)) (by decide)
  rw [Nat.toString_eq_repr, Nat.toList_repr, numeralType?, if_neg last, numeral?]
  simp only [kept, splitBase?_of_digits digits, digitsValue?_toDigits, Option.bind_some,
    integerLiteral?, small, if_true, Option.map_some]

end Numbers

/-- A name ends in front of these tokens, and it is no label. -/
structure EndsName (tokens : List Located) : Prop where
  dot : startsWith .dot tokens = false
  angle : startsWith .openAngle tokens = false
  colon : startsWith .colon tokens = false
  question : startsWith .question tokens = false

structure EndsType (tokens : List Located) : Prop extends EndsName tokens where
  bracket : startsWith .openBracket tokens = false
  ampersand : startsWith .ampersand tokens = false
  pipe : startsWith .pipe tokens = false
  condition : startsWithWord "extends" tokens = false

theorem endsName_mark {mark : Mark}
    (other : mark ∉ [Mark.dot, .openAngle, .colon, .question]) {position : Nat}
    {doc : Option String} {rest : List Located} :
    EndsName (⟨.mark mark, position, doc⟩ :: rest) := by
  simp only [List.mem_cons, List.not_mem_nil, or_false, not_or] at other
  constructor <;> simp [other]

theorem endsType_mark {mark : Mark}
    (closes : mark ∈ [Mark.semicolon, .comma, .closeAngle, .closeBracket, .closeParen])
    {position : Nat} {doc : Option String} {rest : List Located} :
    EndsType (⟨.mark mark, position, doc⟩ :: rest) := by
  simp only [List.mem_cons, List.not_mem_nil, or_false] at closes
  rcases closes with rfl | rfl | rfl | rfl | rfl <;>
    constructor <;> first | exact endsName_mark (by decide) | rfl

/-- A type begins with these tokens, and they are not the label of one. -/
structure OpensType (tokens : List Located) : Prop where
  bracket : startsWith .closeBracket tokens = false
  ellipsis : startsWith .ellipsis tokens = false
  ampersand : startsWith .ampersand tokens = false
  pipe : startsWith .pipe tokens = false
  label : Level.skipLabel tokens = tokens

namespace Level

variable {inner : Level} {type value : TypeExpr} {tokens rest after : List Located}

section Postfix

theorem arrowAfterGroup_eq_false (depth : Nat) (arrowless : Arrowless tokens) :
    arrowAfterGroup depth tokens = false := by
  induction tokens generalizing depth with
  | nil => rfl
  | cons first others ih =>
      obtain ⟨here, arrowless⟩ := List.forall_mem_cons.mp arrowless
      unfold arrowAfterGroup
      split
      · exact ih _ arrowless
      · split
        · split
          · cases others with
            | nil => rfl
            | cons second others =>
                have next := arrowless second List.mem_cons_self
                simpa [startsWith] using next
          · exact ih _ arrowless
        · exact ih _ arrowless

theorem suffixes_of_other {bound : Nat} (within : tokens.length < bound)
    (other : startsWith .openBracket tokens = false) :
    Reads (suffixes type bound tokens within) type tokens := by
  rw [suffixes, if_neg (by simp [other])]
  exact reads_ok within

theorem suffixes_array {bound first second : Nat} {docFirst docSecond : Option String}
    (within : (⟨.mark .openBracket, first, docFirst⟩ ::
      ⟨.mark .closeBracket, second, docSecond⟩ :: rest).length < bound)
    (read : ∀ within, Reads (suffixes (.array type) bound rest within) value after) :
    Reads (suffixes type bound (⟨.mark .openBracket, first, docFirst⟩ ::
      ⟨.mark .closeBracket, second, docSecond⟩ :: rest) within) value after := by
  rw [suffixes, if_pos (by simp), if_pos (by simp)]
  exact read _

/-- Operators in front of a type hide or drop it. -/
def Plain (tokens : List Located) : Prop :=
  ∀ word ∈ prefixWords, startsWithWord word tokens = false

theorem skipOperators_of_plain (plain : Plain tokens) :
    skipOperators false tokens = (false, tokens) := by
  cases tokens with
  | nil => rfl
  | cons first others =>
      have keyof := plain "keyof" (by decide)
      have unique := plain "unique" (by decide)
      have readonly := plain "readonly" (by decide)
      simp only [startsWithWord, decide_eq_false_iff_not] at keyof unique readonly
      simp [skipOperators, keyof, unique, readonly]

theorem reads_suffixed (plain : Plain tokens) (first : Reads (inner.primary tokens) type rest)
    (others : ∀ bound within, Reads (suffixes type bound rest within) value after) :
    Reads (inner.suffixed tokens) value after := by
  have operators := skipOperators_of_plain plain
  have primary : Reads (inner.primary (skipOperators false tokens).2) type rest := by
    rw [operators]
    exact first
  refine primary.bind fun within => (others _ _).bind fun within => ⟨within, ?_⟩
  simp [operators, Reading.map]
  rfl

end Postfix

section Names

theorem dottedAfter_reads {parts : List String} {name : String} {bound : Nat}
    (within : tokens.length < bound)
    (begins : Begins (parts.flatMap fun part => [.mark .dot, .word part]) tokens rest)
    (other : startsWith .dot rest = false) :
    Reads (dottedAfter name bound tokens within)
      (parts.foldl (fun name part => name ++ "." ++ part) name) rest := by
  induction parts generalizing name tokens with
  | nil =>
      cases begins
      cases rest with
      | nil => exact reads_ok within
      | cons first others =>
          have here : first.token ≠ .mark .dot := by simpa [startsWith] using other
          unfold dottedAfter
          simp only [if_neg here]
          exact reads_ok within
  | cons part parts ih =>
      obtain ⟨position, _, rfl, following, others, rfl, begins⟩ := begins
      unfold dottedAfter
      exact ih _ begins

-- The words of a name with dots between them are the name.
theorem foldl_segments {name first : String} {others : List String}
    (names : segments name = first :: others) :
    others.foldl (fun name part => name ++ "." ++ part) first = name := by
  have folded : ∀ (others : List String) (first : String),
      (others.foldl (fun name part => name ++ "." ++ part) first).toList =
        first.toList ++ others.flatMap fun part => '.' :: part.toList := by
    intro others
    induction others with
    | nil => simp
    | cons part parts ih =>
        intro first
        rw [List.foldl_cons, ih]
        simp
  have joined : ∀ (first : List Char) (others : List (List Char)),
      ['.'].intercalate (first :: others) = first ++ others.flatMap ('.' :: ·) := by
    intro first others
    induction others generalizing first with
    | nil => simp
    | cons part parts ih => simp [List.intercalate_cons_cons, ih]
  obtain ⟨part, parts, same, rfl, rfl⟩ := List.map_eq_cons_iff.mp names
  apply String.toList_injective
  rw [folded, List.flatMap_map]
  simpa [← joined, ← same] using Text.intercalate_splitAt '.' name.toList

theorem reads_dottedName {name : String} (begins : Begins (namePieces name) tokens rest)
    (other : startsWith .dot rest = false) : Reads (dottedName tokens) name rest := by
  unfold namePieces at begins
  cases names : segments name with
  | nil =>
      exact absurd (List.map_eq_nil_iff.mp names) (Text.splitAt_ne_nil '.' name.toList)
  | cons first parts =>
      rw [names, List.map_cons, separated, List.flatMap_map] at begins
      obtain ⟨position, others, rfl, begins⟩ := begins
      rw [← foldl_segments names]
      exact dottedAfter_reads _ begins other

end Names

section Items
variable {seen result : List TypeExpr} {bound position : Nat} {doc : Option String}

-- An item without a label that begins behind no dots.
theorem reads_item (opens : OpensType tokens) (item : Reads (inner.type tokens) value rest) :
    Reads (inner.type (skipLabel (skip .ellipsis tokens))) value rest := by
  rw [skip_of_other opens.ellipsis, opens.label]
  exact item

theorem itemsAfter_comma (within : tokens.length ≤ bound) (opens : OpensType tokens)
    (item : Reads (inner.type tokens) value (⟨.mark .comma, position, doc⟩ :: rest))
    (further : ∀ within, Reads (inner.itemsAfter (value :: seen) bound rest within) result after) :
    Reads (inner.itemsAfter seen bound tokens within) result after := by
  rw [itemsAfter, dif_neg (by simp [opens.bracket])]
  refine (reads_item opens item).bind fun within => ?_
  have comma : startsWith .comma (skip .question (⟨.mark .comma, position, doc⟩ :: rest)) = true :=
    rfl
  simp only [comma, if_true]
  exact further _

theorem itemsAfter_close (within : tokens.length ≤ bound) (opens : OpensType tokens)
    (item : Reads (inner.type tokens) value (⟨.mark .closeBracket, position, doc⟩ :: rest)) :
    Reads (inner.itemsAfter seen bound tokens within) (value :: seen).reverse rest := by
  rw [itemsAfter, dif_neg (by simp [opens.bracket])]
  refine (reads_item opens item).bind fun within => ?_
  have comma : startsWith .comma (skip .question (⟨.mark .closeBracket, position, doc⟩ :: rest)) =
      false := rfl
  simp only [comma, Bool.false_eq_true, if_false]
  refine Reads.bind (reads_expect _) fun within => ?_
  exact reads_ok _

end Items

section Members
variable {name : String} {optional : Bool} {doc : Option String} {position bound : Nat}

theorem skipReadonly_quoted :
    skipReadonly (⟨.quoted name, position, doc⟩ :: rest) = ⟨.quoted name, position, doc⟩ :: rest := by
  simp [skipReadonly]

-- A member with a type behind its name and, if it is optional, a question mark.
theorem reads_member {typeward : List Located}
    (begins : Begins ((if optional then [Piece.mark .question] else []) ++ [.mark .colon])
      tokens typeward)
    (read : Reads (inner.type typeward) type rest) :
    Reads (inner.member (⟨.quoted name, position, doc⟩ :: tokens))
      (some ⟨name, optional, doc, type⟩) rest := by
  have named : Reads (inner.memberAfter doc name tokens) (some ⟨name, optional, doc, type⟩) rest := by
    cases optional with
    | false =>
        obtain ⟨colon, others, rfl, rfl⟩ := begins
        exact read.bind fun within => ⟨_, rfl⟩
    | true =>
        obtain ⟨question, _, rfl, colon, others, rfl, rfl⟩ := begins
        exact read.bind fun within => ⟨_, rfl⟩
  have whole : Reads (inner.namedMember doc (skipReadonly (⟨.quoted name, position, doc⟩ :: tokens)))
      (some ⟨name, optional, doc, type⟩) rest := by
    rw [skipReadonly_quoted]
    exact named
  exact whole.bind fun within => ⟨_, rfl⟩

variable {seen result : List Member}

theorem membersAfter_close (within : tokens.length ≤ bound)
    (start : skipSeparators tokens = ⟨.mark .closeBrace, position, doc⟩ :: rest) :
    Reads (inner.membersAfter seen bound tokens within) seen.reverse rest := by
  rw [membersAfter]
  split
  · next same => simp [same] at start
  · next first others same =>
      rw [same] at start
      cases start
      simp only [if_true]
      exact reads_ok _

theorem membersAfter_member (within : tokens.length ≤ bound) {first : Located}
    {others : List Located} {member : Member} (start : skipSeparators tokens = first :: others)
    (open_ : first.token ≠ .mark .closeBrace)
    (read : Reads (inner.member (first :: others)) (some member) rest)
    (further : ∀ within, Reads (inner.membersAfter (member :: seen) bound rest within) result after) :
    Reads (inner.membersAfter seen bound tokens within) result after := by
  rw [membersAfter]
  split
  · next same => simp [same] at start
  · next other after same =>
      rw [same] at start
      cases start
      rw [if_neg open_]
      exact read.bind fun within => further _

end Members

section Primaries

theorem numeral_of_numeralType? {negative : Bool} {raw : String} {position : Nat}
    (read : numeralType? negative raw.toList = some type) :
    numeral negative raw position = .ok type := by
  simp [numeral, read]

theorem plain_other {first : Located} (noWord : ∀ word, first.token ≠ .word word) :
    Plain (first :: rest) := by
  intro word _
  simp [startsWithWord, noWord]

theorem plain_word {word : String} {position : Nat} {doc : Option String}
    (other : word ∉ prefixWords) : Plain (⟨.word word, position, doc⟩ :: rest) := by
  intro operator member
  have different : word ≠ operator := fun same => other (same ▸ member)
  simp [startsWithWord, different]

-- A word without a meaning of its own begins a reference.
theorem reads_worded {word : String} (other : word ∉ operatorWords)
    (noKeyword : Keyword.ofWord? word = none) {first : Located}
    (read : Reads (inner.reference (first :: tokens)) type rest) :
    Reads (inner.worded word first tokens) type rest := by
  simp only [operatorWords, List.cons_append, List.mem_cons, not_or] at other
  unfold worded
  simp only [other, if_false, decide_false, Bool.false_and, Bool.false_eq_true, noKeyword]
  exact read

theorem reads_reference {name : String} (begins : Begins (namePieces name) tokens rest)
    (dot : startsWith .dot rest = false) (angle : startsWith .openAngle rest = false) :
    Reads (inner.reference tokens) (.reference name []) rest := by
  refine (reads_dottedName begins dot).bind fun within => ?_
  rw [if_neg (by simp [angle])]
  exact ⟨within, rfl⟩

theorem reads_reference_arguments {name : String} {arguments : List TypeExpr} {position : Nat}
    {doc : Option String} {following : List Located}
    (begins : Begins (namePieces name) tokens (⟨.mark .openAngle, position, doc⟩ :: following))
    (read : ∀ bound within, Reads (inner.argumentsAfter [] bound following within) arguments rest) :
    Reads (inner.reference tokens) (.reference name arguments) rest := by
  refine (reads_dottedName begins rfl).bind fun within => ?_
  rw [if_pos (by simp)]
  exact (read _ _).bind fun within => ⟨_, rfl⟩

theorem reads_tuple {items : List TypeExpr} {position : Nat} {doc : Option String}
    (read : ∀ bound within, Reads (inner.itemsAfter [] bound tokens within) items rest) :
    Reads (inner.tuple (⟨.mark .openBracket, position, doc⟩ :: tokens)) (.tuple items) rest :=
  (reads_expect _).bind fun _ => (read _ _).bind fun _ => ⟨_, rfl⟩

theorem reads_objectBody {members : List Member} {position : Nat} {doc : Option String}
    (read : ∀ bound within, Reads (inner.membersAfter [] bound tokens within) members rest) :
    Reads (inner.objectBody (⟨.mark .openBrace, position, doc⟩ :: tokens)) members rest :=
  (reads_expect _).bind fun _ => (read _ _).bind fun _ => ⟨_, rfl⟩

theorem reads_parenthesized {first second : Nat} {docFirst docSecond : Option String}
    (read : Reads (inner.type tokens) type (⟨.mark .closeParen, second, docSecond⟩ :: rest)) :
    Reads (inner.parenthesized (⟨.mark .openParen, first, docFirst⟩ :: tokens)) type rest :=
  (reads_expect _).bind fun _ => read.bind fun _ => (reads_expect _).bind fun _ => ⟨_, rfl⟩

end Primaries

end Level

end Toggles.Declaration
