import Toggles.Json.Compact
import Toggles.Proofs.Numerals
import Toggles.Proofs.Offsets
import Toggles.Proofs.Replacement

/-! Printed numbers as types.

The text of an integer or of a number with a point in it is a type with that number as its only
value. A text with a power of ten is cut in front of the sign of the power, so its declaration is
refused, and the least signed word is read as a binary64 number because its digits are read
without their sign.
-/

set_option autoImplicit false

namespace Toggles.Declaration

open Numeric (Binary64 Decimal NumberText signText integerText)
open Text (utf8Size)

section Cutting
variable {seen : List Located} {pending : Option String} {position : Nat} {following : List Char}

theorem tokensAfter_text {token : Token} (legible : token.Legible following) :
    tokensAfter seen pending position (token.text ++ following) =
      tokensAfter (⟨token, position, pending⟩ :: seen) none (position + utf8Size token.text)
        following := by
  obtain ⟨c, rest, size, same, cuts⟩ := cuts_legible legible
  have counted : size + utf8Size following = utf8Size (c :: rest) := size_of_cut cuts
  rw [← same, Text.utf8Size_append, Nat.add_right_cancel_iff] at counted
  rw [same, tokensAfter_token cuts, counted]

theorem tokensAfter_run {first : Char} {others : List Char} (digit : first.isDigit = true)
    (parts : ∀ c ∈ others, isNumberPart c = true)
    (ends : ∀ c ∈ following.head?, isNumberPart c = false) :
    tokensAfter seen pending position (first :: others ++ following) =
      tokensAfter (⟨.number (String.ofList (first :: others)), position, pending⟩ :: seen) none
        (position + utf8Size (first :: others)) following := by
  have cuts := cut_number digit (others ++ following)
  rw [cutRun_append parts ends] at cuts
  rw [List.cons_append, tokensAfter_token cuts]

theorem legible_word (name : String) (word : Definition.isWord name.toList = true) (c : Char)
    (ends : isWordPart c = false) (text : List Char) : (Token.word name).Legible (c :: text) := by
  refine ⟨word, ?_⟩
  rintro d ⟨⟩
  exact ends

theorem Mark.Plain.legible {mark : Mark} (plain : mark.Plain) (text : List Char) :
    (Token.mark mark).Legible text :=
  ⟨plain.1, plain.2.1, plain.2.2.1, fun dot => absurd dot plain.2.2.2⟩

def signedTokens (negative : Bool) (raw : String) (position : Nat) : List Located :=
  if negative then [⟨.mark .minus, position, none⟩, ⟨.number raw, position + 1, none⟩]
  else [⟨.number raw, position, none⟩]

theorem signedNumber_signedTokens (negative : Bool) (raw : String) (position : Nat)
    (rest : List Located) :
    SignedNumber raw rest negative position (signedTokens negative raw position ++ rest) := by
  cases negative with
  | false => exact .plain position none
  | true => exact .minus position (position + 1) none none

theorem tokensAfter_signed (seen : List Located) (position : Nat) (negative : Bool)
    {run : List Char} (filled : run ≠ []) (parts : ∀ c ∈ run, isNumberPart c = true)
    (digit : ∀ c ∈ run.head?, c.isDigit = true)
    (ends : ∀ c ∈ following.head?, isNumberPart c = false) :
    ∃ stop, tokensAfter seen none position (signText negative ++ (run ++ following)) =
      tokensAfter ((signedTokens negative (String.ofList run) position).reverse ++ seen) none stop
        following := by
  cases run with
  | nil => contradiction
  | cons first others =>
      have behind := (List.forall_mem_cons.mp parts).2
      cases negative with
      | false => exact ⟨_, tokensAfter_run (digit first rfl) behind ends⟩
      | true =>
          exact ⟨_, (tokensAfter_text (Mark.Plain.legible (by decide : Mark.Plain .minus) _)).trans
            (tokensAfter_run (digit first rfl) behind ends)⟩

def openingTokens : List Located :=
  [⟨.word "interface", 0, none⟩, ⟨.word "R", 10, none⟩, ⟨.mark .openBrace, 12, none⟩,
    ⟨.word "x", 14, none⟩, ⟨.mark .colon, 15, none⟩]

def openingText : String :=
  "interface R \x7b x: "

def closingText : String :=
  " \x7d"

theorem tokensAfter_opening (following : List Char) :
    tokensAfter [] none 0 (openingText.toList ++ following) =
      tokensAfter openingTokens.reverse none 17 following := by
  have blank : isWordPart ' ' = false := by decide +kernel
  have colon : isWordPart ':' = false := by decide +kernel
  have text : openingText.toList ++ following =
      (Token.word "interface").text ++ ' ' :: ((Token.word "R").text ++ ' ' ::
        ((Token.mark .openBrace).text ++ ' ' :: ((Token.word "x").text ++ ':' ::
          ' ' :: following))) := rfl
  have mark : ∀ text, ':' :: text = (Token.mark .colon).text ++ text := fun _ => rfl
  have openBrace : Mark.Plain .openBrace := by decide
  have colonMark : Mark.Plain .colon := by decide
  rw [text, tokensAfter_text (legible_word "interface" (by decide +kernel) ' ' blank _),
    tokensAfter_space, tokensAfter_text (legible_word "R" (by decide +kernel) ' ' blank _),
    tokensAfter_space, tokensAfter_text (openBrace.legible _), tokensAfter_space,
    tokensAfter_text (legible_word "x" (by decide +kernel) ':' colon _), mark,
    tokensAfter_text (colonMark.legible _), tokensAfter_space]
  rfl

theorem tokensAfter_closing (seen : List Located) (position : Nat) : ∃ stop,
    tokensAfter seen none position closingText.toList =
      .ok ⟨seen.reverse ++ [⟨.mark .closeBrace, position + 1, none⟩], stop, none⟩ := by
  have text : closingText.toList = ' ' :: ((Token.mark .closeBrace).text ++ []) := rfl
  have closeBrace : Mark.Plain .closeBrace := by decide
  refine ⟨position + 1 + utf8Size (Token.mark .closeBrace).text, ?_⟩
  rw [text, tokensAfter_space, tokensAfter_text (closeBrace.legible _), tokensAfter_nil,
    List.reverse_cons]

end Cutting

section Reading
variable {inner : Level} {raw : String} {negative : Bool} {position first second third fourth : Nat}
  {tokens rest : List Located} {type : TypeExpr} {refusal : Refusal} {doc : Option String}

theorem endsType_closeBrace : EndsType (⟨.mark .closeBrace, position, doc⟩ :: rest) where
  toEndsName := endsName_mark (by decide)
  bracket := rfl
  ampersand := rfl
  pipe := rfl
  condition := rfl

-- No operator and no mark that a type may begin with stands in front of a number.
theorem SignedNumber.opens (placed : SignedNumber raw rest negative position tokens) :
    Level.Plain tokens ∧ startsWith .pipe tokens = false ∧ startsWith .ampersand tokens = false := by
  cases placed with
  | plain => exact ⟨Level.plain_other nofun, rfl, rfl⟩
  | minus => exact ⟨Level.plain_other nofun, rfl, rfl⟩

theorem reads_numberType (placed : SignedNumber raw rest negative position tokens)
    (read : Reads (inner.primary tokens) type rest) (ends : EndsType rest) :
    Reads (inner.conditional tokens) type rest := by
  obtain ⟨plain, pipe, ampersand⟩ := placed.opens
  have suffixed : Reads (inner.suffixed (skip .ampersand tokens)) type rest := by
    rw [skip_of_other ampersand]
    exact Level.reads_suffixed plain read fun bound within =>
      Level.suffixes_of_other within ends.bracket
  have intersection : Reads (inner.intersection (skip .pipe tokens)) type rest := by
    rw [skip_of_other pipe]
    refine suffixed.bind fun within => ?_
    simp only [ends.ampersand, Bool.false_eq_true, if_false]
    exact reads_ok _
  have union : Reads (inner.union tokens) type rest := by
    refine intersection.bind fun within => ?_
    have alone : ∀ bound within, Reads (inner.unionAfter [type] bound rest within) [type] rest := by
      intro bound within
      rw [Level.unionAfter, if_neg (by simp [ends.pipe])]
      exact reads_ok within
    exact (alone _ _).bind fun within => ⟨within, rfl⟩
  refine union.bind fun within => ?_
  rw [if_neg (by simp [ends.condition])]
  exact reads_ok within

theorem refuses_numberType (placed : SignedNumber raw rest negative position tokens)
    (refused : inner.primary tokens = .error refusal) :
    inner.conditional tokens = .error refusal := by
  obtain ⟨plain, pipe, ampersand⟩ := placed.opens
  have primary : inner.primary (Level.skipOperators false tokens).2 = .error refusal := by
    rw [Level.skipOperators_of_plain plain]
    exact refused
  have suffixed : inner.suffixed (skip .ampersand tokens) = .error refusal := by
    rw [skip_of_other ampersand]
    exact bind_eq_error.mpr (.inl primary)
  have intersection : inner.intersection (skip .pipe tokens) = .error refusal := by
    rw [skip_of_other pipe]
    exact bind_eq_error.mpr (.inl suffixed)
  have union : inner.union tokens = .error refusal := bind_eq_error.mpr (.inl intersection)
  exact bind_eq_error.mpr (.inl union)

def singleMember (type : TypeExpr) : Interface :=
  ⟨"R", [⟨"x", false, none, type⟩]⟩

theorem reads_singleMember
    (read : Reads ((Level.ofNesting 62).conditional tokens) type
      [⟨.mark .closeBrace, position, doc⟩]) :
    interfacesAfter [] 0 (openingTokens ++ tokens) = .ok [singleMember type] := by
  have member : Reads ((Level.ofNesting 63).member
      (⟨.word "x", 14, none⟩ :: ⟨.mark .colon, 15, none⟩ :: tokens))
      (some ⟨"x", false, none, type⟩) [⟨.mark .closeBrace, position, doc⟩] := by
    have named : Reads ((Level.ofNesting 63).memberAfter none "x"
        (⟨.mark .colon, 15, none⟩ :: tokens)) (some ⟨"x", false, none, type⟩)
        [⟨.mark .closeBrace, position, doc⟩] := read.bind fun within => ⟨_, rfl⟩
    have whole : Reads ((Level.ofNesting 63).namedMember none (Level.skipReadonly
        (⟨.word "x", 14, none⟩ :: ⟨.mark .colon, 15, none⟩ :: tokens)))
        (some ⟨"x", false, none, type⟩) [⟨.mark .closeBrace, position, doc⟩] := named
    exact whole.bind fun within => ⟨_, rfl⟩
  have body : Reads (topLevel.body (⟨.mark .openBrace, 12, none⟩ :: ⟨.word "x", 14, none⟩ ::
      ⟨.mark .colon, 15, none⟩ :: tokens)) [⟨"x", false, none, type⟩] [] :=
    Level.reads_objectBody fun bound within =>
      Level.membersAfter_member within rfl (by simp) member fun within =>
        Level.membersAfter_close within rfl
  exact interfacesAfter_single 0 rfl (body.bind fun within => ⟨_, rfl⟩)

theorem refuses_singleMember
    (refused : (Level.ofNesting 62).conditional tokens = .error refusal) :
    interfacesAfter [] 0 (openingTokens ++ tokens) = .error refusal := by
  have named : (Level.ofNesting 63).memberAfter none "x" (⟨.mark .colon, 15, none⟩ :: tokens) =
      .error refusal := bind_eq_error.mpr (.inl refused)
  have whole : (Level.ofNesting 63).namedMember none (Level.skipReadonly
      (⟨.word "x", 14, none⟩ :: ⟨.mark .colon, 15, none⟩ :: tokens)) = .error refusal := named
  have member : (Level.ofNesting 63).member
      (⟨.word "x", 14, none⟩ :: ⟨.mark .colon, 15, none⟩ :: tokens) = .error refusal :=
    bind_eq_error.mpr (.inl whole)
  have members : ∀ bound within, (Level.ofNesting 63).membersAfter [] bound
      (⟨.word "x", 14, none⟩ :: ⟨.mark .colon, 15, none⟩ :: tokens) within = .error refusal := by
    intro bound within
    rw [Level.membersAfter]
    split
    · next none => cases none
    · next first others same =>
        cases same
        rw [if_neg (by simp)]
        exact bind_eq_error.mpr (.inl member)
  have body : topLevel.body (⟨.mark .openBrace, 12, none⟩ :: ⟨.word "x", 14, none⟩ ::
      ⟨.mark .colon, 15, none⟩ :: tokens) = .error refusal := by
    refine bind_eq_error.mpr (.inr ⟨⟨(), _, Reading.length_lt_cons _ _⟩, rfl, ?_⟩)
    exact bind_eq_error.mpr (.inl (members _ _))
  have interface : readInterface (⟨.word "R", 10, none⟩ :: ⟨.mark .openBrace, 12, none⟩ ::
      ⟨.word "x", 14, none⟩ :: ⟨.mark .colon, 15, none⟩ :: tokens) = .error refusal := by
    refine bind_eq_error.mpr (.inr ⟨⟨"R", _, Reading.length_lt_cons _ _⟩, rfl, ?_⟩)
    exact bind_eq_error.mpr (.inl body)
  rw [openingTokens, List.cons_append, interfacesAfter]
  simp only [opensGroup, closesGroup, Bool.false_eq_true, if_false, decide_true, Bool.true_and,
    beq_self_eq_true]
  exact bind_eq_error.mpr (.inl interface)

end Reading

def numberSource (number : Json) : String :=
  openingText ++ number.compact ++ closingText

def numberSchema (number : Json) : Json :=
  .obj [("$schema", .str dialect), ("type", .str "object"),
    ("properties", .obj [("x", .obj [("type", .str "number"), ("enum", .arr [number])])]),
    ("required", .arr [.str "x"]), ("title", .str "R")]

section Sources
variable {number : Json} {negative : Bool} {run behind : List Char} {literal : Literal}

theorem utf8Size_le (text : List Char) : utf8Size text ≤ 4 * text.length := by
  induction text with
  | nil => exact Nat.le_refl _
  | cons c text ih =>
      have one := c.utf8Size_le_four
      rw [Text.utf8Size_cons, List.length_cons]
      omega

theorem toList_numberSource (number : Json) :
    (numberSource number).toList =
      openingText.toList ++ (number.compactChars ++ closingText.toList) := by
  have inner : number.compact.toList = number.compactChars := by
    rw [Json.compact, String.toList_ofList]
  rw [numberSource, String.toList_append, String.toList_append, inner, List.append_assoc]

theorem size_numberSource (short : number.compactChars.length ≤ 3000) :
    (numberSource number).utf8ByteSize ≤ maximumSourceSize := by
  have counted := utf8Size_le number.compactChars
  have opening : utf8Size openingText.toList = 17 := rfl
  have closing : utf8Size closingText.toList = 2 := rfl
  have limit : maximumSourceSize = 1048576 := rfl
  have size : (numberSource number).utf8ByteSize = 17 + (utf8Size number.compactChars + 2) := by
    rw [← Text.utf8Size_toList, toList_numberSource, Text.utf8Size_append, Text.utf8Size_append,
      opening, closing]
  omega

/-- A printed number begins with a run of digits and their marks behind its sign. -/
structure BeginsNumber (number : Json) (negative : Bool) (run behind : List Char) : Prop where
  written : number.compactChars = signText negative ++ (run ++ behind)
  short : number.compactChars.length ≤ 3000
  filled : run ≠ []
  digit : ∀ c ∈ run.head?, c.isDigit = true
  parts : ∀ c ∈ run, isNumberPart c = true
  ends : ∀ c ∈ (behind ++ closingText.toList).head?, isNumberPart c = false

theorem tokenize_numberSource (begins : BeginsNumber number negative run behind)
    (holds : List Located → Prop)
    (closes : ∀ seen position, ∃ others stop, holds others ∧
      tokensAfter seen none position (behind ++ closingText.toList) =
        .ok ⟨seen.reverse ++ others, stop, none⟩) :
    ∃ others stop, holds others ∧ tokenize (numberSource number) =
      .ok ⟨openingTokens ++ (signedTokens negative (String.ofList run) 17 ++ others), stop,
        none⟩ := by
  have chars := toList_numberSource number
  rw [begins.written, List.append_assoc, List.append_assoc] at chars
  obtain ⟨position, read⟩ := tokensAfter_signed openingTokens.reverse 17 negative begins.filled
    begins.parts begins.digit begins.ends
  obtain ⟨others, stop, held, rest⟩ := closes
    ((signedTokens negative (String.ofList run) 17).reverse ++ openingTokens.reverse) position
  refine ⟨others, stop, held, tokenize_of_tokensAfter (size_numberSource begins.short) ?_⟩
  rw [chars, tokensAfter_opening, read, rest, ← List.reverse_append, List.reverse_reverse,
    List.append_assoc]

theorem schema_singleMember (numeric : literal.primitive = "number") :
    (singleMember (.literal literal)).schema = numberSchema literal.toJson := by
  cases literal with
  | integer value => rfl
  | decimal value => rfl
  | string value => exact absurd numeric (by simp [Literal.primitive])
  | boolean value => exact absurd numeric (by simp [Literal.primitive])

-- A printed number that is one run is read up to the closing brace.
theorem compile_numberSource_ok (begins : BeginsNumber number negative run [])
    (read : numeralType? negative run = some (.literal literal))
    (numeric : literal.primitive = "number") :
    compile (numberSource number) "R" = .ok (numberSchema literal.toJson) := by
  obtain ⟨others, stop, ⟨position, rfl⟩, tokenized⟩ := tokenize_numberSource begins
    (fun others => ∃ position, others = [⟨.mark .closeBrace, position, none⟩])
    fun seen position => by
      obtain ⟨stop, closed⟩ := tokensAfter_closing seen position
      exact ⟨_, stop, ⟨_, rfl⟩, closed⟩
  have placed := signedNumber_signedTokens negative (String.ofList run) 17
    [⟨.mark .closeBrace, position, none⟩]
  have primary : Reads ((Level.ofNesting 62).primary _) (.literal literal) _ :=
    reads_signedNumber placed (by rw [String.toList_ofList, read])
  have interfaces := reads_singleMember (reads_numberType placed primary endsType_closeBrace)
  refine compile_eq_ok_iff.mpr
    ⟨⟨[singleMember (.literal literal)]⟩, _, ?_, rfl, schema_singleMember numeric⟩
  rw [SourceFile.parse, tokenized]
  exact ofTokens_eq_ok interfaces

theorem compile_numberSource_error (begins : BeginsNumber number negative run behind)
    (refused : numeralType? negative run = none)
    (closes : ∀ seen position, ∃ others stop,
      tokensAfter seen none position (behind ++ closingText.toList) =
        .ok ⟨seen.reverse ++ others, stop, none⟩) :
    compile (numberSource number) "R" =
      .error (.source (.invalidNumber (String.ofList (signText negative ++ run)) 17)) := by
  obtain ⟨others, stop, -, tokenized⟩ := tokenize_numberSource begins (fun _ => True)
    fun seen position => by
      obtain ⟨others, stop, closed⟩ := closes seen position
      exact ⟨others, stop, trivial, closed⟩
  have placed := signedNumber_signedTokens negative (String.ofList run) 17 others
  have primary : (Level.ofNesting 62).primary _ = _ :=
    refuses_signedNumber placed (by rw [String.toList_ofList, refused])
  have interfaces := refuses_singleMember (refuses_numberType placed primary)
  have shown : (if negative then "-" ++ String.ofList run else String.ofList run) =
      String.ofList (signText negative ++ run) := by
    cases negative with
    | false => rfl
    | true => exact String.ofList_append.symm
  have parsed : SourceFile.parse (numberSource number) =
      .error (.invalidNumber (String.ofList (signText negative ++ run)) 17) := by
    rw [SourceFile.parse, tokenized, ← shown]
    show SourceFile.ofTokens _ = _
    rw [SourceFile.ofTokens, interfaces]
    rfl
  rw [compile, parsed]

end Sources

section Runs
variable {run digits : List Char} {negative : Bool} {number : Binary64}
  {whole fraction power : List Char} {sign : Char}

def IsPrinted (c : Char) : Prop :=
  c.isDigit = true ∨ c = '.' ∨ c = 'e'

theorem IsPrinted.isNumberPart {c : Char} (printed : IsPrinted c) : isNumberPart c = true := by
  rcases printed with digit | rfl | rfl
  · simp [Declaration.isNumberPart, Char.isAlphanum, digit]
  · decide
  · decide

theorem IsPrinted.not_mem {c : Char} (printed : IsPrinted c) :
    c ∉ ['_', 'x', 'X', 'o', 'O', 'b', 'B', 'n'] := by
  intro member
  have each : ∀ other ∈ ['_', 'x', 'X', 'o', 'O', 'b', 'B', 'n'],
      other.isDigit = false ∧ other ≠ '.' ∧ other ≠ 'e' := by simp
  obtain ⟨noDigit, noPoint, noMark⟩ := each c member
  rcases printed with digit | same | same
  · exact Bool.eq_false_iff.mp noDigit digit
  · exact noPoint same
  · exact noMark same

theorem splitBase?_of_printed (printed : ∀ c ∈ digits, IsPrinted c) : splitBase? digits = none := by
  unfold splitBase?
  split
  · next mark rest =>
      have other := (printed mark (by simp)).not_mem
      simp only [List.mem_cons, List.not_mem_nil, or_false, not_or] at other
      simp [other]
  · rfl

theorem valueAfter?_eq_none {base start : Nat} {c : Char} (member : c ∈ digits)
    (noDigit : digitValue? base c = none) : valueAfter? base start digits = none := by
  induction digits generalizing start with
  | nil => exact absurd member List.not_mem_nil
  | cons d rest ih =>
      rw [valueAfter?_cons]
      rcases List.mem_cons.mp member with rfl | later
      · rw [noDigit, Option.bind_none]
      · exact Option.bind_eq_none_iff.mpr fun digit _ => ih later

-- A number with a mark in it is no integer, so it is read as a decimal text.
theorem numeralType?_printed (printed : ∀ c ∈ run, IsPrinted c) {mark : Char} (member : mark ∈ run)
    (noDigit : digitValue? 10 mark = none) :
    numeralType? negative run = (decimalLiteral? negative run).map .literal := by
  have kept : run.filter (· != '_') = run := by
    refine List.filter_eq_self.mpr fun c present => ?_
    have other := (printed c present).not_mem
    simp only [List.mem_cons, not_or] at other
    simpa using other.1
  have last : run.getLast? ≠ some 'n' := fun ends =>
    (printed 'n' (List.mem_of_getLast? ends)).not_mem (by decide)
  have value : digitsValue? 10 run = none := by
    rw [digitsValue?_eq (List.ne_nil_of_mem member), valueAfter?_eq_none member noDigit]
  rw [numeralType?, if_neg last, numeral?]
  simp only [kept, splitBase?_of_printed printed, value, Option.bind_none]

theorem printed_positional (positional : number.Positional whole fraction) :
    ∀ c ∈ whole ++ '.' :: fraction, IsPrinted c := by
  obtain ⟨front, back⟩ := List.forall_mem_append.mp positional.digits
  exact List.forall_mem_append.mpr ⟨fun c member => .inl (front c member),
    List.forall_mem_cons.mpr ⟨.inr (.inl rfl), fun c member => .inl (back c member)⟩⟩

theorem printed_scientific (scientific : number.Scientific whole fraction sign power) :
    ∀ c ∈ whole ++ fraction ++ ['e'], IsPrinted c := by
  have decimals : ∀ c ∈ fraction, IsPrinted c := by
    rcases scientific.point with rfl | ⟨places, rfl, decimals⟩
    · exact nofun
    · exact List.forall_mem_cons.mpr ⟨.inr (.inl rfl), fun c member => .inl (decimals c member)⟩
  refine List.forall_mem_append.mpr ⟨List.forall_mem_append.mpr ⟨?_, decimals⟩, ?_⟩
  · exact fun c member => .inl (scientific.digits c member)
  · exact List.forall_mem_cons.mpr ⟨.inr (.inr rfl), nofun⟩

theorem decimalLiteral?_positional (positional : number.Positional whole fraction) :
    decimalLiteral? number.negative (whole ++ '.' :: fraction) = some (.decimal number) := by
  obtain ⟨front, back⟩ := List.forall_mem_append.mp positional.digits
  have split : NumberText.split? (whole ++ '.' :: (fraction ++ [])) =
      some ⟨none, whole, some fraction, none⟩ :=
    NumberText.split?_pointed positional.filled front back nofun
  have lenient : whole.isEmpty = false := List.isEmpty_eq_false_iff.mpr positional.filled
  rw [List.append_nil] at split
  rw [decimalLiteral?, split]
  simp only [Option.bind_eq_bind, Option.bind_some, NumberText.isLenient,
    NumberText.hasExponentDigits, lenient, Bool.false_and, Bool.not_false,
    Bool.true_and, Bool.not_true, Bool.false_eq_true, if_false, NumberText.toDecimal,
    NumberText.exponentValue, Option.getD_some, Int.zero_sub, positional.reads]
  rfl

-- An exponent mark with nothing behind it is no number.
theorem decimalLiteral?_unfinished (filled : whole ≠ []) (digits : ∀ c ∈ whole, c.isDigit = true)
    (point : fraction = [] ∨
      ∃ places, fraction = '.' :: places ∧ ∀ c ∈ places, c.isDigit = true) :
    decimalLiteral? negative (whole ++ fraction ++ ['e']) = none := by
  have ends : ∀ c ∈ ['e'].head?, c.isDigit = false := by
    rintro c ⟨⟩
    rfl
  have unfinished : ∀ fraction, (NumberText.mk none whole fraction (some (none, []))).isLenient =
      false := by
    intro fraction
    simp [NumberText.isLenient, NumberText.hasExponentDigits]
  have exponent : NumberText.splitExponent ['e'] = some (some (none, [])) := rfl
  obtain ⟨places, split⟩ : ∃ places, NumberText.split? (whole ++ fraction ++ ['e']) =
      some ⟨none, whole, places, some (none, [])⟩ := by
    rcases point with rfl | ⟨places, rfl, decimals⟩
    · have split := NumberText.split?_whole filled digits ends (by decide)
      rw [exponent] at split
      exact ⟨none, by rw [List.append_nil, split]; rfl⟩
    · have split := NumberText.split?_pointed filled digits decimals ends
      rw [exponent] at split
      exact ⟨some places, by rw [List.append_assoc, List.cons_append, split]; rfl⟩
  rw [decimalLiteral?, split]
  simp only [Option.bind_eq_bind, Option.bind_some, unfinished, Bool.not_false, if_true]

theorem numeralType?_positional (positional : number.Positional whole fraction) :
    numeralType? number.negative (whole ++ '.' :: fraction) =
      some (.literal (.decimal number)) := by
  have point : '.' ∈ whole ++ '.' :: fraction := List.mem_append_right _ List.mem_cons_self
  rw [numeralType?_printed (printed_positional positional) point rfl,
    decimalLiteral?_positional positional, Option.map_some]

theorem numeralType?_scientific (scientific : number.Scientific whole fraction sign power) :
    numeralType? number.negative (whole ++ fraction ++ ['e']) = none := by
  have mark : 'e' ∈ whole ++ fraction ++ ['e'] := List.mem_append_right _ List.mem_cons_self
  rw [numeralType?_printed (printed_scientific scientific) mark rfl,
    decimalLiteral?_unfinished scientific.filled scientific.digits scientific.point,
    Option.map_none]

end Runs

section Printed
variable {number : Binary64} {whole fraction power : List Char} {sign : Char}

theorem beginsNumber_positional (positional : number.Positional whole fraction) :
    BeginsNumber (.float number) number.negative (whole ++ '.' :: fraction) [] where
  written := by
    rw [List.append_nil]
    exact positional.text
  short := Numeric.length_text_le number
  filled := by simp
  digit := by
    obtain ⟨first, others, rfl⟩ := List.exists_cons_of_ne_nil positional.filled
    rintro c ⟨⟩
    exact positional.digits first (by simp)
  parts c member := (printed_positional positional c member).isNumberPart
  ends := by
    rintro c ⟨⟩
    decide

theorem beginsNumber_scientific (scientific : number.Scientific whole fraction sign power) :
    BeginsNumber (.float number) number.negative (whole ++ fraction ++ ['e']) (sign :: power) where
  written := by
    rw [List.append_assoc, List.singleton_append]
    exact scientific.text
  short := Numeric.length_text_le number
  filled := by simp
  digit := by
    obtain ⟨first, others, rfl⟩ := List.exists_cons_of_ne_nil scientific.filled
    rintro c ⟨⟩
    exact scientific.digits first (by simp)
  parts c member := (printed_scientific scientific c member).isNumberPart
  ends := by
    rintro c ⟨⟩
    rcases scientific.sign with rfl | rfl
    · decide
    · decide

-- The sign of the power is a token of its own, and the power behind it is another number.
theorem closes_scientific (scientific : number.Scientific whole fraction sign power)
    (seen : List Located) (position : Nat) : ∃ others stop,
      tokensAfter seen none position (sign :: power ++ closingText.toList) =
        .ok ⟨seen.reverse ++ others, stop, none⟩ := by
  obtain ⟨first, digits, rfl⟩ := List.exists_cons_of_ne_nil scientific.powerFilled
  obtain ⟨digit, behind⟩ := List.forall_mem_cons.mp scientific.powerDigits
  have parts : ∀ c ∈ digits, isNumberPart c = true := fun c member =>
    IsPrinted.isNumberPart (.inl (behind c member))
  have blank : ∀ c ∈ closingText.toList.head?, isNumberPart c = false := by
    rintro c ⟨⟩
    decide
  obtain ⟨token, cuts⟩ : ∃ token, cut sign (first :: digits ++ closingText.toList) =
      .ok ⟨.token token, 1, first :: digits ++ closingText.toList⟩ := by
    rcases scientific.sign with rfl | rfl
    · exact ⟨.symbol '+', rfl⟩
    · exact ⟨.mark .minus, rfl⟩
  obtain ⟨stop, closed⟩ := tokensAfter_closing
    (⟨.number (String.ofList (first :: digits)), position + 1, none⟩ ::
      ⟨token, position, none⟩ :: seen) (position + 1 + utf8Size (first :: digits))
  rw [List.reverse_cons, List.reverse_cons, List.append_assoc, List.append_assoc] at closed
  refine ⟨_, stop, Eq.trans ?_ closed⟩
  rw [List.cons_append, tokensAfter_token cuts, tokensAfter_run digit parts blank]

theorem compile_positional (positional : number.Positional whole fraction) :
    compile (numberSource (.float number)) "R" = .ok (numberSchema (.float number)) :=
  compile_numberSource_ok (beginsNumber_positional positional) (numeralType?_positional positional)
    rfl

theorem compile_scientific (scientific : number.Scientific whole fraction sign power) :
    compile (numberSource (.float number)) "R" = .error (.source (.invalidNumber
      (String.ofList (signText number.negative ++ (whole ++ fraction ++ ['e']))) 17)) :=
  compile_numberSource_error (beginsNumber_scientific scientific)
    (numeralType?_scientific scientific) (closes_scientific scientific)

theorem not_mem_signText (negative : Bool) : 'e' ∉ signText negative := by
  cases negative <;> decide

theorem not_mem_digits {digits : List Char} (all : ∀ c ∈ digits, c.isDigit = true) :
    'e' ∉ digits := fun member => absurd (all 'e' member) (by decide)

theorem not_mem_positional (positional : number.Positional whole fraction) :
    'e' ∉ number.text .plain := by
  obtain ⟨front, back⟩ := List.forall_mem_append.mp positional.digits
  rw [positional.text, List.mem_append, List.mem_append, List.mem_cons]
  rintro (member | member | same | member)
  · exact not_mem_signText _ member
  · exact not_mem_digits front member
  · exact absurd same (by decide)
  · exact not_mem_digits back member

theorem takeWhile_scientific (scientific : number.Scientific whole fraction sign power) :
    'e' ∈ number.text .plain ∧ (number.text .plain).takeWhile (· != 'e') ++ ['e'] =
      signText number.negative ++ (whole ++ fraction ++ ['e']) := by
  have fractions : 'e' ∉ fraction := by
    rcases scientific.point with rfl | ⟨places, rfl, decimals⟩
    · exact List.not_mem_nil
    · rw [List.mem_cons]
      rintro (same | member)
      · exact absurd same (by decide)
      · exact not_mem_digits decimals member
  have before : ∀ c ∈ signText number.negative ++ (whole ++ fraction), (c != 'e') = true := by
    intro c member
    rw [List.mem_append, List.mem_append] at member
    rw [bne_iff_ne]
    rintro rfl
    rcases member with member | member | member
    · exact not_mem_signText _ member
    · exact not_mem_digits scientific.digits member
    · exact fractions member
  have text : number.text .plain =
      signText number.negative ++ (whole ++ fraction) ++ 'e' :: sign :: power := by
    simp only [scientific.text, List.append_assoc]
  constructor
  · rw [text]
    exact List.mem_append_right _ List.mem_cons_self
  · rw [text, List.takeWhile_append_of_pos before, List.takeWhile_cons_of_neg (by decide),
      List.append_nil, List.append_assoc]

end Printed

section Integers
variable {value : Int}

theorem integerText_eq (value : Int) :
    integerText value = signText (value < 0) ++ Nat.toDigits 10 value.natAbs := by
  unfold integerText signText
  split <;> simp_all

theorem not_mem_integer (value : Int) : 'e' ∉ (Json.int value).compactChars := by
  have text : (Json.int value).compactChars = integerText value := rfl
  rw [text, integerText_eq, List.mem_append, not_or]
  exact ⟨not_mem_signText _, not_mem_digits fun c member =>
    Nat.isDigit_of_mem_toDigits (by decide) (by decide) member⟩

theorem beginsNumber_integer (least : -2 ^ 63 ≤ value) (below : value < 2 ^ 63) :
    BeginsNumber (.int value) (value < 0) (Nat.toDigits 10 value.natAbs) [] where
  written := by
    rw [List.append_nil]
    exact integerText_eq value
  short := by
    have digits : (Nat.toDigits 10 value.natAbs).length ≤ 19 :=
      (Nat.length_toDigits_le_iff (by decide) (by decide)).mpr (by omega)
    have sign : (signText (value < 0)).length ≤ 1 := by
      unfold signText
      split <;> simp
    show (integerText value).length ≤ 3000
    rw [integerText_eq, List.length_append]
    omega
  filled := Nat.toDigits_ne_nil
  digit c first := Nat.isDigit_of_mem_toDigits (by decide) (by decide) (List.mem_of_head? first)
  parts c member := IsPrinted.isNumberPart
    (.inl (Nat.isDigit_of_mem_toDigits (by decide) (by decide) member))
  ends := by
    rintro c ⟨⟩
    decide

theorem compile_integer (least : -2 ^ 63 < value) (below : value < 2 ^ 63) :
    compile (numberSource (.int value)) "R" = .ok (numberSchema (.int value)) := by
  have small : value.natAbs < Nat.pow 2 63 := by
    rw [Nat.pow_eq]
    omega
  have read := numeralType?_toString small (value < 0)
  have same : signed (value < 0) value.natAbs = value := by
    by_cases negative : value < 0
    · simp only [signed, negative, decide_true, if_true]
      omega
    · simp only [signed, negative, decide_false, Bool.false_eq_true, if_false]
      omega
  rw [Nat.toString_eq_repr, Nat.toList_repr, same] at read
  exact compile_numberSource_ok (beginsNumber_integer least.le below) read rfl

def leastWord : Binary64 :=
  ⟨true, 2 ^ 52, 11, by decide⟩

theorem compile_leastWord :
    compile (numberSource (.int (-2 ^ 63))) "R" = .ok (numberSchema (.float leastWord)) := by
  have read : numeral? true (Nat.toDigits 10 (2 ^ 63)) = some (.decimal leastWord) := by
    decide +kernel
  have type : numeralType? true (Nat.toDigits 10 (2 ^ 63)) = some (.literal (.decimal leastWord)) := by
    rw [numeralType?, if_neg (by decide +kernel), read, Option.map_some]
  have begins : BeginsNumber (.int (-2 ^ 63)) true (Nat.toDigits 10 (2 ^ 63)) [] :=
    beginsNumber_integer (by decide) (by decide)
  exact compile_numberSource_ok begins type rfl

theorem numberSchema_leastWord_ne :
    numberSchema (.float leastWord) ≠ numberSchema (.int (-2 ^ 63)) := by
  intro same
  simp [numberSchema] at same

end Integers

section Numbers
variable {number : Json}

/-- A number of JSON text: a signed word of sixty-four bits or a binary64 number. -/
inductive IsNumber : Json → Prop where
  | word {value : Int} (least : -2 ^ 63 ≤ value) (below : value < 2 ^ 63) : IsNumber (.int value)
  | float (number : Binary64) : IsNumber (.float number)

/-- What a declaration with a printed number as the type of its member is compiled to: the
enumeration of the number unless there is a power of ten in its text. The least word is replaced by
the binary64 number that is equal to it. -/
structure CompilesNumber (number : Json) : Prop where
  positional : number ≠ .int (-2 ^ 63) → 'e' ∉ number.compactChars →
    compile (numberSource number) "R" = .ok (numberSchema number)
  least : number = .int (-2 ^ 63) →
    compile (numberSource number) "R" = .ok (numberSchema (.float leastWord))
  scientific : 'e' ∈ number.compactChars →
    compile (numberSource number) "R" = .error (.source (.invalidNumber
      (String.ofList (number.compactChars.takeWhile (· != 'e') ++ ['e'])) 17))

theorem IsNumber.compiles (isNumber : IsNumber number) : CompilesNumber number := by
  cases isNumber with
  | @word value least below =>
      refine ⟨fun other _ => compile_integer (lt_of_le_of_ne least fun same => ?_) below, ?_, ?_⟩
      · exact other (congrArg Json.int same.symm)
      · intro same
        rw [same]
        exact compile_leastWord
      · exact fun present => absurd present (not_mem_integer value)
  | float number =>
      rcases number.positional_or_scientific with ⟨_, _, positional⟩ | ⟨_, _, _, _, scientific⟩
      · exact ⟨fun _ _ => compile_positional positional, nofun,
          fun present => absurd present (not_mem_positional positional)⟩
      · obtain ⟨present, taken⟩ := takeWhile_scientific scientific
        refine ⟨fun _ absent => absurd present absent, nofun, fun _ => ?_⟩
        have text : (Json.float number).compactChars = number.text .plain := rfl
        rw [text, taken]
        exact compile_scientific scientific

/-- A declaration with a printed number as the type of its member is compiled to the enumeration of
exactly that number, for every number but the least word and those with a power of ten in their
text. The least word is compiled to the binary64 number that is equal to it. A number with a power of
ten is refused: its text is cut behind the exponent mark, where no sign can follow. -/
theorem compile_printed (isNumber : IsNumber number) :
    (compile (numberSource number) "R" = .ok (numberSchema number) ↔
      number ≠ .int (-2 ^ 63) ∧ 'e' ∉ number.compactChars) ∧ CompilesNumber number := by
  have compiles := isNumber.compiles
  refine ⟨⟨fun compiled => ⟨fun least => ?_, fun present => ?_⟩, fun ⟨other, absent⟩ => ?_⟩, compiles⟩
  · have replaced := (compiles.least least).symm.trans compiled
    rw [least] at replaced
    exact numberSchema_leastWord_ne (Except.ok.inj replaced)
  · cases (compiles.scientific present).symm.trans compiled
  · exact compiles.positional other absent

def threeHalves : Binary64 :=
  ⟨false, 3 * 2 ^ 51, -52, by decide⟩

/-- The number that is printed as `1e-7`. -/
def tenMillionth : Binary64 :=
  ⟨false, 7555786372591432, -76, by decide⟩

theorem compile_printed_samples :
    compile (numberSource (.int (-40))) "R" = .ok (numberSchema (.int (-40))) ∧
      compile (numberSource (.float threeHalves)) "R" = .ok (numberSchema (.float threeHalves)) ∧
      compile (numberSource (.float tenMillionth)) "R" ≠ .ok (numberSchema (.float tenMillionth)) := by
  have absent : 'e' ∉ (Json.float threeHalves).compactChars := by decide +kernel
  have present : 'e' ∈ (Json.float tenMillionth).compactChars := by decide +kernel
  refine ⟨(compile_printed (.word (by decide) (by decide))).1.mpr ⟨?_, not_mem_integer _⟩,
    (compile_printed (.float threeHalves)).1.mpr ⟨nofun, absent⟩, fun compiled => ?_⟩
  · exact fun same => absurd (Json.int.inj same) (by decide)
  · exact ((compile_printed (.float tenMillionth)).1.mp compiled).2 present

-- Neither a number with a power of ten nor the least word is compiled to itself.
theorem unfaithful_printed :
    numberSource (.float tenMillionth) = "interface R \x7b x: 1e-7 \x7d" ∧
      compile (numberSource (.float tenMillionth)) "R" =
        .error (.source (.invalidNumber "1e" 17)) ∧
      compile (numberSource (.int (-2 ^ 63))) "R" ≠ .ok (numberSchema (.int (-2 ^ 63))) := by
  have present : 'e' ∈ (Json.float tenMillionth).compactChars := by decide +kernel
  have cutShort : String.ofList ((Json.float tenMillionth).compactChars.takeWhile (· != 'e') ++
      ['e']) = "1e" := by decide +kernel
  refine ⟨by decide +kernel, ?_, ?_⟩
  · rw [(IsNumber.float tenMillionth).compiles.scientific present, cutShort]
  · rw [compile_leastWord]
    exact fun same => numberSchema_leastWord_ne (Except.ok.inj same)

end Numbers

end Toggles.Declaration
