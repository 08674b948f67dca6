import Mathlib.Data.Nat.Digits.Defs
import Toggles.Declaration.Source
import Toggles.Proofs.DecimalText
import Toggles.Proofs.Fragments
import Toggles.Proofs.Parsing

/-! Numerals as literal types.

A numeral denotes a natural number in the base that its prefix tells, and separators count for
nothing. As a literal it is that number or its negation wherever sixty-four bits hold it. Beyond
them a prefix is an error, and without one the nearest binary64 number stands for it.
-/

set_option autoImplicit false

namespace Toggles.Declaration

open Numeric (Binary64 Decimal NumberText)
open Text (hexValue?)

def IsDigits (base : Nat) (body : List Char) : Prop :=
  ∀ c ∈ body, c = '_' ∨ ∃ value < base, hexValue? c = some value

def denoted (base : Nat) (body : List Char) : Nat :=
  Nat.ofDigits base (body.filterMap hexValue?).reverse

def bases : List (Char × Nat) :=
  [('x', 16), ('X', 16), ('o', 8), ('O', 8), ('b', 2), ('B', 2)]

/-- Whether a numeral has a prefix, and the number it denotes. -/
inductive Numeral : Bool → Nat → List Char → Prop where
  | decimal {first : Char} {body : List Char} (digit : first.isDigit = true)
      (digits : IsDigits 10 body) : Numeral false (denoted 10 (first :: body)) (first :: body)
  | based {mark : Char} {base : Nat} {body : List Char} (announced : (mark, base) ∈ bases)
      (digits : IsDigits base body) (filled : ∃ c ∈ body, c ≠ '_') :
      Numeral true (denoted base body) ('0' :: mark :: body)

section Digits
variable {base : Nat} {c : Char} {body digits : List Char}

theorem isLower_iff : c.isLower = true ↔ 'a' ≤ c ∧ c ≤ 'z' := by
  show (decide ('a'.val ≤ c.val) && decide (c.val ≤ 'z'.val)) = true ↔ _
  rw [Bool.and_eq_true, decide_eq_true_eq, decide_eq_true_eq]
  rfl

theorem isUpper_iff : c.isUpper = true ↔ 'A' ≤ c ∧ c ≤ 'Z' :=
  decide_eq_true_iff

theorem digitValue?_of_hexValue? {value : Nat} (digit : hexValue? c = some value)
    (below : value < base) : digitValue? base c = some value := by
  unfold hexValue? at digit
  split at digit
  · next isDigit =>
      cases digit
      simp only [digitValue?, isDigit, if_true, below]
  split at digit
  · next notDigit range =>
      cases digit
      have lower : c.isLower = true :=
        isLower_iff.mpr ⟨range.1, Char.le_trans range.2 (by decide)⟩
      simp only [digitValue?, notDigit, Bool.false_eq_true, if_false, lower, if_true, below]
  split at digit
  · next notDigit notLower range =>
      cases digit
      have upper : c.isUpper = true :=
        isUpper_iff.mpr ⟨range.1, Char.le_trans range.2 (by decide)⟩
      have lower : c.isLower = false := by
        refine Bool.eq_false_iff.mpr fun isLower => ?_
        exact absurd (Char.le_trans (isLower_iff.mp isLower).1 range.2) (by decide)
      simp only [digitValue?, notDigit, Bool.false_eq_true, if_false, lower, upper, if_true, below]
  · contradiction

def valueAfter? (base start : Nat) (digits : List Char) : Option Nat :=
  digits.foldlM (fun value c => (digitValue? base c).map (value * base + ·)) start

theorem valueAfter?_nil (base start : Nat) : valueAfter? base start [] = some start := rfl

theorem valueAfter?_cons (base start : Nat) (c : Char) (digits : List Char) :
    valueAfter? base start (c :: digits) =
      (digitValue? base c).bind fun digit => valueAfter? base (start * base + digit) digits := by
  rw [valueAfter?, List.foldlM_cons, Option.bind_eq_bind, Option.bind_map]
  rfl

theorem digitsValue?_eq (filled : digits ≠ []) :
    digitsValue? base digits = valueAfter? base 0 digits := by
  rw [digitsValue?, List.isEmpty_eq_false_iff.mpr filled, if_neg Bool.false_ne_true]
  rfl

theorem valueAfter?_of_digits (start : Nat)
    (all : ∀ c ∈ digits, ∃ value < base, hexValue? c = some value) :
    valueAfter? base start digits = some (start * base ^ digits.length + denoted base digits) := by
  induction digits generalizing start with
  | nil => simp [valueAfter?, denoted]
  | cons c rest ih =>
      obtain ⟨⟨digit, below, isDigit⟩, all⟩ := List.forall_mem_cons.mp all
      have lengths : (rest.filterMap hexValue?).length = rest.length := by
        refine List.filterMap_length_eq_length.mpr fun c member => ?_
        obtain ⟨value, -, isDigit⟩ := all c member
        rw [isDigit, Option.isSome_some]
      rw [valueAfter?_cons, digitValue?_of_hexValue? isDigit below, Option.bind_some, ih _ all,
        denoted, denoted, List.filterMap_cons_some isDigit, Nat.ofDigits_reverse_cons, lengths,
        List.length_cons, Nat.pow_succ]
      congr 1
      ring

theorem IsDigits.kept (digits : IsDigits base body) :
    ∀ c ∈ body.filter (· != '_'), ∃ value < base, hexValue? c = some value := by
  intro c member
  obtain ⟨present, other⟩ := List.mem_filter.mp member
  exact (digits c present).resolve_left (by simpa using other)

theorem denoted_kept (base : Nat) (body : List Char) :
    denoted base (body.filter (· != '_')) = denoted base body := by
  have separator : hexValue? '_' = none := by decide
  rw [denoted, List.filterMap_filter, denoted]
  congr 2
  refine List.filterMap_congr fun c _ => ?_
  split
  · rfl
  · next same =>
      obtain rfl : c = '_' := by simpa using same
      exact separator.symm

theorem isDigit_of_hexValue? {value : Nat} (isHex : hexValue? c = some value) (below : value < 10) :
    c.isDigit = true := by
  unfold hexValue? at isHex
  split at isHex
  · assumption
  split at isHex
  · cases isHex
    omega
  split at isHex
  · cases isHex
    omega
  · contradiction

end Digits

section Literals
variable {based negative : Bool} {magnitude : Nat} {raw : List Char}

-- A prefix announces the base, and the digits behind it are read in that base.
theorem Numeral.based_eq (numeral : Numeral true magnitude raw) :
    numeral? negative raw = integerLiteral? negative magnitude := by
  cases numeral with
  | @based mark base body announced digits filled =>
      obtain ⟨c, member, other⟩ := filled
      have keptFilled : body.filter (· != '_') ≠ [] :=
        List.ne_nil_of_mem (List.mem_filter.mpr ⟨member, by simpa using other⟩)
      have value : digitsValue? base (body.filter (· != '_')) = some (denoted base body) := by
        rw [digitsValue?_eq keptFilled, valueAfter?_of_digits 0 digits.kept, denoted_kept,
          Nat.zero_mul, Nat.zero_add]
      have split : splitBase? ('0' :: mark :: body.filter (· != '_')) =
          some (base, body.filter (· != '_')) := by
        simp only [bases, List.mem_cons, Prod.mk.injEq, List.not_mem_nil, or_false] at announced
        rcases announced with ⟨rfl, rfl⟩ | ⟨rfl, rfl⟩ | ⟨rfl, rfl⟩ | ⟨rfl, rfl⟩ | ⟨rfl, rfl⟩ |
          ⟨rfl, rfl⟩ <;> rfl
      have marked : mark ≠ '_' := by
        rintro rfl
        simp [bases] at announced
      have kept : ('0' :: mark :: body).filter (· != '_') =
          '0' :: mark :: body.filter (· != '_') := by
        rw [List.filter_cons_of_pos (by decide), List.filter_cons_of_pos (by simpa using marked)]
      rw [numeral?, kept, split]
      simp only [value, Option.bind_eq_bind, Option.bind_some]

-- Without the separators a decimal numeral is a run of decimal digits.
theorem Numeral.decimal_digits (numeral : Numeral false magnitude raw) :
    raw.filter (· != '_') ≠ [] ∧ (∀ c ∈ raw.filter (· != '_'), c.isDigit = true) ∧
      Numeric.ofDigits (raw.filter (· != '_')) = magnitude := by
  cases numeral with
  | @decimal first body digit digits =>
      have notSeparator : first ≠ '_' := by
        rintro rfl
        exact absurd digit (by decide)
      have filled : (first :: body).filter (· != '_') ≠ [] :=
        List.ne_nil_of_mem (List.mem_filter.mpr ⟨List.mem_cons_self, by simpa using notSeparator⟩)
      have below : first.toNat - '0'.toNat < 10 := by
        have within : ∀ code ∈ digitCodes, code - '0'.toNat < 10 := by decide
        exact within first.toNat (toNat_mem_digitCodes digit)
      have whole : IsDigits 10 (first :: body) :=
        List.forall_mem_cons.mpr ⟨.inr ⟨_, below, by rw [hexValue?, if_pos digit]⟩, digits⟩
      have all : ∀ c ∈ (first :: body).filter (· != '_'), c.isDigit = true := by
        intro c member
        obtain ⟨value, below, isHex⟩ := whole.kept c member
        exact isDigit_of_hexValue? isHex below
      have value := valueAfter?_of_digits 0 whole.kept
      rw [denoted_kept, Nat.zero_mul, Nat.zero_add, ← digitsValue?_eq filled,
        digitsValue?_of_digits filled all, ← Numeric.ofDigits_eq, Option.some.injEq] at value
      exact ⟨filled, all, value⟩

theorem decimalLiteral?_of_digits {digits : List Char} (filled : digits ≠ [])
    (all : ∀ c ∈ digits, c.isDigit = true) :
    decimalLiteral? negative digits =
      (Decimal.toBinary64? ⟨negative, Numeric.ofDigits digits, 0⟩).map .decimal := by
  have split : NumberText.split? (digits ++ []) = some ⟨none, digits, none, none⟩ :=
    NumberText.split?_whole filled all nofun nofun
  rw [List.append_nil] at split
  have empty : digits.isEmpty = false := List.isEmpty_eq_false_iff.mpr filled
  rw [decimalLiteral?, split]
  simp only [Option.bind_eq_bind, Option.bind_some, NumberText.isLenient,
    NumberText.hasExponentDigits, empty, Bool.false_and, Bool.not_false,
    Bool.true_and, Bool.not_true, Bool.false_eq_true, if_false, NumberText.toDecimal,
    NumberText.exponentValue, Option.getD_none, List.append_nil, List.length_nil]
  rw [Option.map_eq_bind]
  rfl

theorem Numeral.decimal_eq (numeral : Numeral false magnitude raw) :
    numeral? negative raw = (integerLiteral? negative magnitude).or
      ((Decimal.toBinary64? ⟨negative, magnitude, 0⟩).map .decimal) := by
  obtain ⟨filled, all, value⟩ := numeral.decimal_digits
  rw [numeral?, splitBase?_of_digits all]
  simp only [digitsValue?_of_digits filled all, ← Numeric.ofDigits_eq, value, Option.bind_some,
    decimalLiteral?_of_digits filled all]
  cases integerLiteral? negative magnitude <;> rfl

end Literals

section Tokens
variable {seen : List Located} {pending : Option String} {position : Nat} {text : List Char}
  {stream : TokenStream} {located : Located} {raw : String}

-- A token has been seen before, or it is taken from the text.
theorem takes_of_token (read : tokensAfter seen pending position text = .ok stream)
    (member : located ∈ stream.tokens) :
    located ∈ seen ∨ ∃ c front rest, Takes c front (.token located.token) rest := by
  induction seen, pending, position, text using tokensAfter.induct with
  | case1 seen pending position =>
      cases tokensAfter_nil.symm.trans read
      exact .inl (List.mem_reverse.mp member)
  | case2 seen pending position c rest unclosed cuts =>
      cases (tokensAfter_unclosed cuts).symm.trans read
  | case3 seen pending position c rest result cuts _ kind ih
  | case4 seen pending position c rest result cuts _ body kind ih =>
      rw [tokensAfter_cons cuts, kind] at read
      exact ih read
  | case5 seen pending position c rest result cuts _ token kind ih =>
      rw [tokensAfter_cons cuts, kind] at read
      rcases ih read with before | taken
      · rcases List.mem_cons.mp before with rfl | before
        · obtain ⟨front, -, takes⟩ := takes_of_cut cuts
          rw [kind] at takes
          exact .inr ⟨c, front, result.rest, takes⟩
        · exact .inl before
      · exact .inr taken

-- A number token is a digit and a run of letters, digits, separators and points.
theorem isNumberPart_of_token (read : tokensAfter [] none 0 text = .ok stream)
    (member : located ∈ stream.tokens) (number : located.token = .number raw) :
    ∀ c ∈ raw.toList, isNumberPart c = true := by
  obtain ⟨c, front, rest, takes⟩ := (takes_of_token read member).resolve_left List.not_mem_nil
  rw [number] at takes
  generalize lexeme : Lexeme.token (.number raw) = taken at takes
  cases takes with
  | number digit parts ends =>
      cases lexeme
      rw [String.toList_ofList]
      refine List.forall_mem_cons.mpr ⟨?_, parts⟩
      simp [isNumberPart, Char.isAlphanum, digit]
  | lone lone slash dot equals =>
      unfold loneToken at lexeme
      cases mark : Mark.ofChar? c <;> simp [mark] at lexeme
  | _ => cases lexeme

end Tokens

section Machine
variable {base start : Nat} {digits raw : List Char} {negative : Bool}

/-- An integer that sixty-four bits hold; any other is an overflow. -/
def word? (value : Int) : Option Int :=
  if -2 ^ 63 ≤ value ∧ value < 2 ^ 63 then some value else none

/-- Digits read behind a value in signed words: every product and every sum is checked. -/
def wordsAfter? (base : Nat) (minus : Bool) (start : Int) (digits : List Char) : Option Int :=
  digits.foldlM (fun value c => do
    let digit ← digitValue? base c
    let scaled ← word? (value * base)
    word? (if minus then scaled - digit else scaled + digit)) start

/-- An integer text as a signed word: a sign may stand in front of at least one digit. -/
def readWord? (base : Nat) : List Char → Option Int
  | '+' :: digits => if digits.isEmpty then none else wordsAfter? base false 0 digits
  | '-' :: digits => if digits.isEmpty then none else wordsAfter? base true 0 digits
  | digits => if digits.isEmpty then none else wordsAfter? base false 0 digits

def wordLiteral? (negative : Bool) (value : Int) : Option Literal :=
  (if negative then word? (-value) else some value).map .integer

/-- The literal of a numeral in words of sixty-four bits. There is no result at all where a
negation overflows, which is a fault; a numeral that is refused has `none` as its result. -/
def wordNumeral? (negative : Bool) (raw : List Char) : Option (Option Literal) :=
  let digits := raw.filter (· != '_')
  match splitBase? digits with
  | some (base, digits) =>
      match readWord? base digits with
      | some value => (wordLiteral? negative value).map some
      | none => some none
  | none =>
      match readWord? 10 digits with
      | some value => (wordLiteral? negative value).map some
      | none => some (decimalLiteral? negative digits)

theorem le_of_valueAfter? {value : Nat} (baseFilled : 0 < base)
    (read : valueAfter? base start digits = some value) : start ≤ value := by
  induction digits generalizing start with
  | nil => exact (Option.some.inj read).le
  | cons c rest ih =>
      rw [valueAfter?_cons] at read
      obtain ⟨digit, -, read⟩ := Option.bind_eq_some_iff.mp read
      exact (Nat.le_mul_of_pos_right start baseFilled).trans
        ((Nat.le_add_right _ digit).trans (ih read))

def asWord? (value : Nat) : Option Int :=
  if value < 2 ^ 63 then some value else none

theorem word?_natCast (value : Nat) : word? value = asWord? value := by
  unfold word? asWord?
  split <;> split <;> first | rfl | omega

theorem wordsAfter?_nil (base : Nat) (minus : Bool) (start : Int) :
    wordsAfter? base minus start [] = some start := rfl

theorem wordsAfter?_cons (base : Nat) (minus : Bool) (start : Int) (c : Char) (digits : List Char) :
    wordsAfter? base minus start (c :: digits) =
      (digitValue? base c).bind fun digit => (word? (start * base)).bind fun scaled =>
        (word? (if minus then scaled - digit else scaled + digit)).bind fun value =>
          wordsAfter? base minus value digits := by
  simp only [wordsAfter?, List.foldlM_cons, Option.bind_eq_bind, Option.bind_assoc]

-- A value that is no word stays so, whatever digits follow.
theorem valueAfter?_past (baseFilled : 0 < base) (past : 2 ^ 63 ≤ start) :
    (valueAfter? base start digits).bind asWord? = none := by
  refine Option.bind_eq_none_iff.mpr fun value read => ?_
  have further := le_of_valueAfter? baseFilled read
  rw [asWord?, if_neg (by omega)]

-- Reading with checks succeeds where the value that is read without them is a word.
theorem wordsAfter?_eq (baseFilled : 0 < base) (small : start < 2 ^ 63) :
    wordsAfter? base false start digits = (valueAfter? base start digits).bind asWord? := by
  induction digits generalizing start with
  | nil =>
      have held : asWord? start = some (start : Int) := by rw [asWord?, if_pos small]
      rw [wordsAfter?_nil, valueAfter?_nil, Option.bind_some, held]
  | cons c rest ih =>
      rw [wordsAfter?_cons, valueAfter?_cons, Option.bind_assoc]
      refine Option.bind_congr fun digit _ => ?_
      rw [← Nat.cast_mul, word?_natCast, asWord?]
      split
      · rw [Option.bind_some, if_neg Bool.false_ne_true, ← Nat.cast_add, word?_natCast, asWord?]
        split
        · next within => rw [Option.bind_some, ih within]
        · next past => rw [Option.bind_none, valueAfter?_past baseFilled (Nat.not_lt.mp past)]
      · next past =>
          rw [Option.bind_none, valueAfter?_past baseFilled]
          exact (Nat.not_lt.mp past).trans (Nat.le_add_right _ digit)

theorem readWord?_eq (baseFilled : 0 < base) (unsigned : ∀ c ∈ digits, isNumberPart c = true) :
    readWord? base digits = (digitsValue? base digits).bind asWord? := by
  have plain : readWord? base digits =
      if digits.isEmpty then none else wordsAfter? base false (0 : Nat) digits := by
    unfold readWord?
    split
    · exact absurd (unsigned '+' List.mem_cons_self) (by decide)
    · exact absurd (unsigned '-' List.mem_cons_self) (by decide)
    · rfl
  rw [plain]
  by_cases empty : digits = []
  · subst empty
    rfl
  · rw [List.isEmpty_eq_false_iff.mpr empty, if_neg Bool.false_ne_true,
      wordsAfter?_eq baseFilled (by decide), digitsValue?_eq empty]

theorem wordLiteral?_eq {value : Nat} (small : value < 2 ^ 63) :
    wordLiteral? negative value = some (.integer (signed negative value)) := by
  cases negative with
  | false => rfl
  | true =>
      have held : word? (-(value : Int)) = some (-(value : Int)) := if_pos (by omega)
      rw [wordLiteral?, if_pos rfl, held]
      rfl

theorem split_of_splitBase? {kept : List Char} (split : splitBase? raw = some (base, kept)) :
    0 < base ∧ ∀ c ∈ kept, c ∈ raw := by
  unfold splitBase? at split
  split at split
  · next mark rest =>
      have within : ∀ c ∈ rest, c ∈ '0' :: mark :: rest := fun c member =>
        List.mem_cons_of_mem _ (List.mem_cons_of_mem _ member)
      repeat' split at split
      all_goals cases split
      all_goals exact ⟨by decide, within⟩
  · cases split

-- The literal of a word, or another result where the value is no word.
theorem literal_of_word (negative : Bool) (value : Option Nat) (other : Option Literal) :
    (match value.bind asWord? with
      | some word => (wordLiteral? negative word).map some
      | none => some other) = some ((value.bind (integerLiteral? negative)).or other) := by
  cases value with
  | none => rfl
  | some value =>
      rw [Option.bind_some, Option.bind_some, asWord?, integerLiteral?, Nat.pow_eq]
      by_cases small : value < 2 ^ 63
      · simp only [if_pos small, wordLiteral?_eq small, Option.map_some, Option.some_or]
      · simp only [if_neg small, Option.none_or]

-- Nothing overflows: a number token has no sign, so the value that is negated is not negative.
theorem wordNumeral?_eq (parts : ∀ c ∈ raw, isNumberPart c = true) :
    wordNumeral? negative raw = some (numeral? negative raw) := by
  have unsigned : ∀ c ∈ raw.filter (· != '_'), isNumberPart c = true :=
    fun c member => parts c (List.mem_of_mem_filter member)
  rw [wordNumeral?, numeral?]
  generalize raw.filter (· != '_') = kept at unsigned
  cases split : splitBase? kept with
  | some parts =>
      obtain ⟨base, digits⟩ := parts
      obtain ⟨baseFilled, within⟩ := split_of_splitBase? split
      have read := readWord?_eq baseFilled fun c member => unsigned c (within c member)
      have literal := literal_of_word negative (digitsValue? base digits) none
      rw [Option.or_none, ← read] at literal
      exact literal
  | none =>
      have read := readWord?_eq (by decide : 0 < 10) unsigned
      have literal := literal_of_word negative (digitsValue? 10 kept)
        (decimalLiteral? negative kept)
      rw [← read] at literal
      refine literal.trans ?_
      dsimp only
      cases (digitsValue? 10 kept).bind (integerLiteral? negative) <;> rfl

end Machine

/-- The tokens of a numeral in front of others, behind a minus sign if it is negative. The position
is that of the first of them. -/
inductive SignedNumber (raw : String) (rest : List Located) : Bool → Nat → List Located → Prop where
  | plain (position : Nat) (doc : Option String) :
      SignedNumber raw rest false position (⟨.number raw, position, doc⟩ :: rest)
  | minus (position next : Nat) (doc nextDoc : Option String) :
      SignedNumber raw rest true position
        (⟨.mark .minus, position, doc⟩ :: ⟨.number raw, next, nextDoc⟩ :: rest)

def refusedNumber (negative : Bool) (raw : String) (position : Nat) : Refusal :=
  .invalidNumber (if negative then "-" ++ raw else raw) position

structure ReadsNumeral {bound : Nat} (outcome : Outcome TypeExpr bound) (negative based : Bool)
    (magnitude : Nat) (refused : Refusal) (rest : List Located) : Prop where
  held : magnitude ≤ 2 ^ 63 - 1 →
    Reads outcome (.literal (.integer (signed negative magnitude))) rest
  announced : 2 ^ 63 - 1 < magnitude → based = true → outcome = .error refused
  nearest : 2 ^ 63 - 1 < magnitude → based = false → magnitude < Binary64.overflow →
    ∃ number : Binary64, Reads outcome (.literal (.decimal number)) rest ∧
      number.negative = negative ∧ number.Nearest (Binary64.signed negative magnitude)
  beyond : based = false → Binary64.overflow ≤ magnitude → outcome = .error refused

section Types
variable {inner : Level} {raw : String} {negative based : Bool} {magnitude position : Nat}
  {tokens rest : List Located}

theorem primary_signedNumber (inner : Level)
    (placed : SignedNumber raw rest negative position tokens) : ∃ within,
      inner.primary tokens = (Level.numeral negative raw position).map (⟨·, rest, within⟩) := by
  cases placed with
  | plain position doc =>
      refine ⟨Reading.length_lt_cons _ rest, ?_⟩
      show (Level.numeral false raw position).bind _ = _
      cases Level.numeral false raw position <;> rfl
  | minus position next doc nextDoc =>
      refine ⟨by simp only [List.length_cons]; omega, ?_⟩
      show (Level.numeral true raw position).bind _ = _
      cases Level.numeral true raw position <;> rfl

theorem reads_signedNumber {type : TypeExpr}
    (placed : SignedNumber raw rest negative position tokens) (read : numeralType? negative raw.toList = some type) :
    Reads (inner.primary tokens) type rest := by
  obtain ⟨within, same⟩ := primary_signedNumber inner placed
  rw [same, Level.numeral_of_numeralType? read]
  exact reads_ok within

theorem refuses_signedNumber (placed : SignedNumber raw rest negative position tokens)
    (refused : numeralType? negative raw.toList = none) :
    inner.primary tokens = .error (refusedNumber negative raw position) := by
  obtain ⟨within, same⟩ := primary_signedNumber inner placed
  rw [same, Level.numeral, refused]
  rfl

theorem Numeral.not_bigint {written : List Char} (numeral : Numeral based magnitude written) :
    written.getLast? ≠ some 'n' := by
  intro last
  have member := List.mem_of_getLast? last
  have inside : ∀ {base : Nat} {body : List Char}, IsDigits base body → 'n' ∉ body := by
    intro base body digits present
    obtain same | ⟨value, -, isHex⟩ := digits 'n' present
    · exact absurd same (by decide)
    · exact absurd isHex (by simp [hexValue?])
  cases numeral with
  | decimal digit digits =>
      rcases List.mem_cons.mp member with rfl | member
      · exact absurd digit (by decide)
      · exact inside digits member
  | based announced digits filled =>
      rcases List.mem_cons.mp member with same | member
      · exact absurd same (by decide)
      rcases List.mem_cons.mp member with rfl | member
      · exact absurd announced (by simp [bases])
      · exact inside digits member

theorem integerLiteral?_held (held : magnitude ≤ 2 ^ 63 - 1) :
    integerLiteral? negative magnitude = some (.integer (signed negative magnitude)) := by
  rw [integerLiteral?, Nat.pow_eq, if_pos (by omega)]

theorem integerLiteral?_large (large : 2 ^ 63 - 1 < magnitude) :
    integerLiteral? negative magnitude = none := by
  rw [integerLiteral?, Nat.pow_eq, if_neg (by omega)]

theorem magnitude_natural (negative : Bool) (magnitude : Nat) :
    Decimal.magnitude ⟨negative, magnitude, 0⟩ = magnitude := by
  rw [Decimal.magnitude, zpow_zero, mul_one]

-- An integer that no word holds is rounded, unless it is beyond the greatest finite number.
theorem rounded_cases (large : 2 ^ 63 - 1 < magnitude) :
    (magnitude < Binary64.overflow → ∃ number : Binary64,
      Decimal.toBinary64? ⟨negative, magnitude, 0⟩ = some number ∧ number.negative = negative ∧
        number.Nearest (Binary64.signed negative magnitude)) ∧
      (Binary64.overflow ≤ magnitude →
        Decimal.toBinary64? ⟨negative, magnitude, 0⟩ = none) := by
  have filled : (Decimal.mk negative magnitude 0).coefficient ≠ 0 := by
    show magnitude ≠ 0
    omega
  have isNone := Decimal.toBinary64?_eq_none filled
  rw [magnitude_natural, Nat.cast_le] at isNone
  refine ⟨fun below => ?_, isNone.mpr⟩
  have isSome := mt isNone.mp (Nat.not_le.mpr below)
  obtain ⟨number, read⟩ := Option.ne_none_iff_exists'.mp isSome
  have nearest := Decimal.nearest_of_toBinary64? read
  rw [magnitude_natural] at nearest
  exact ⟨number, read, nearest⟩

theorem Numeral.readsNumeral (numeral : Numeral based magnitude raw.toList)
    (placed : SignedNumber raw rest negative position tokens) :
    ReadsNumeral (inner.primary tokens) negative based magnitude
      (refusedNumber negative raw position) rest := by
  have type : numeralType? negative raw.toList =
      (numeral? negative raw.toList).map TypeExpr.literal := by
    rw [numeralType?, if_neg numeral.not_bigint]
  cases based with
  | true =>
      rw [numeral.based_eq] at type
      refine ⟨fun held => ?_, fun large _ => ?_, fun _ other => absurd other Bool.false_ne_true.symm,
        fun other => absurd other Bool.false_ne_true.symm⟩
      · exact reads_signedNumber placed (by rw [type, integerLiteral?_held held, Option.map_some])
      · exact refuses_signedNumber placed (by rw [type, integerLiteral?_large large, Option.map_none])
  | false =>
      rw [numeral.decimal_eq] at type
      refine ⟨fun held => ?_, fun _ other => absurd other Bool.false_ne_true,
        fun large _ below => ?_, fun _ beyond => ?_⟩
      · refine reads_signedNumber placed ?_
        rw [type, integerLiteral?_held held, Option.some_or, Option.map_some]
      · obtain ⟨number, read, sign, nearest⟩ := (rounded_cases large).1 below
        refine ⟨number, reads_signedNumber placed ?_, sign, nearest⟩
        rw [type, integerLiteral?_large large, Option.none_or, read, Option.map_some, Option.map_some]
      · have large : 2 ^ 63 - 1 < magnitude := by
          have word := Binary64.word_le_overflow.trans beyond
          omega
        refine refuses_signedNumber placed ?_
        rw [type, integerLiteral?_large large, Option.none_or, (rounded_cases large).2 beyond,
          Option.map_none, Option.map_none]

/-- A number token of any source is a literal exactly. Up to the greatest signed word it is the
integer or its negation. Beyond that it is refused behind a prefix, and without one the nearest
binary64 number stands for it as long as there is one. A token that ends in `n` has no literal. No
negation overflows, whatever the token is. -/
theorem primary_number {source : String} {stream : TokenStream} {located : Located}
    (tokenized : tokenize source = .ok stream) (member : located ∈ stream.tokens)
    (number : located.token = .number raw)
    (placed : SignedNumber raw rest negative position tokens) :
    (raw.toList.getLast? = some 'n' → Reads (inner.primary tokens) .uninterpreted rest) ∧
      (∀ based magnitude, Numeral based magnitude raw.toList →
        ReadsNumeral (inner.primary tokens) negative based magnitude
          (refusedNumber negative raw position) rest) ∧
      wordNumeral? negative raw.toList = some (numeral? negative raw.toList) := by
  refine ⟨fun bigint => ?_, fun based magnitude numeral => numeral.readsNumeral placed, ?_⟩
  · exact reads_signedNumber placed (by rw [numeralType?, if_pos bigint])
  · exact wordNumeral?_eq (isNumberPart_of_token (tokensAfter_of_tokenize tokenized) member number)

-- A negative numeral in base sixteen with a separator.
theorem primary_number_hexadecimal :
    tokenize "-0x7F_ff" =
        .ok ⟨[⟨.mark .minus, 0, none⟩, ⟨.number "0x7F_ff", 1, none⟩], 8, none⟩ ∧
      Numeral true 32767 "0x7F_ff".toList ∧
      Reads (topLevel.primary [⟨.mark .minus, 0, none⟩, ⟨.number "0x7F_ff", 1, none⟩])
        (.literal (.integer (-32767))) [] := by
  have tokenized : tokenize "-0x7F_ff" =
      .ok ⟨[⟨.mark .minus, 0, none⟩, ⟨.number "0x7F_ff", 1, none⟩], 8, none⟩ := by
    decide +kernel
  have digits : IsDigits 16 ['7', 'F', '_', 'f', 'f'] := by
    simp [IsDigits, hexValue?]
  have numeral : Numeral true (denoted 16 ['7', 'F', '_', 'f', 'f'])
      ['0', 'x', '7', 'F', '_', 'f', 'f'] :=
    .based (by decide) digits ⟨'7', by decide, by decide⟩
  have value : denoted 16 ['7', 'F', '_', 'f', 'f'] = 32767 := by decide
  rw [value] at numeral
  have placed : SignedNumber "0x7F_ff" [] true 0
      [⟨.mark .minus, 0, none⟩, ⟨.number "0x7F_ff", 1, none⟩] := .minus 0 1 none none
  have read : ReadsNumeral (topLevel.primary _) _ _ _ _ _ := (primary_number tokenized
    (List.mem_cons_of_mem _ List.mem_cons_self) rfl placed).2.1 true 32767 numeral
  exact ⟨tokenized, numeral, read.held (by decide)⟩

end Types

end Toggles.Declaration
