import Mathlib.Data.List.TakeWhile
import Toggles.Json.Pretty
import Toggles.Proofs.Json
import Toggles.Proofs.Lexing

/-! JSON text in lines.

A line break in JSON text stands between two tokens, and no token begins with an at sign. So no
line of such a text can be mistaken for the beginning of a tag, however the text is laid out.
-/

set_option autoImplicit false

namespace Toggles.Json

open Text (trim trimStart trimEnd)

/-- No at sign is the first character of a line behind its white space. The text is read from the
beginning of a line on or from within one. -/
def unmarked (beginning : Bool) : List Char → Bool
  | [] => true
  | c :: rest =>
      if c = '\n' then unmarked true rest
      else if Text.isBlank c then unmarked beginning rest
      else !(beginning && c == '@') && unmarked false rest

section Lines
variable {beginning : Bool} {c : Char} {line rest : List Char}

theorem unmarked_within {front : List Char} (inLine : '\n' ∉ front)
    (safe : unmarked false rest = true) : unmarked false (front ++ rest) = true := by
  induction front with
  | nil => exact safe
  | cons c front ih =>
      rw [List.mem_cons, not_or] at inLine
      simp [unmarked, Ne.symm inLine.1, ih inLine.2]

theorem unmarked_token (filled : Text.isBlank c = false) (other : c ≠ '@')
    (safe : unmarked false rest = true) : unmarked beginning (c :: rest) = true := by
  have newline : c ≠ '\n' := by
    rintro rfl
    cases filled
  simp [unmarked, newline, filled, other, safe]

theorem unmarked_behind (safe : unmarked beginning (line ++ '\n' :: rest) = true) :
    unmarked true rest = true := by
  induction line generalizing beginning with
  | nil => simpa [unmarked] using safe
  | cons c line ih =>
      rw [List.cons_append, unmarked] at safe
      split at safe
      · exact ih safe
      · split at safe
        · exact ih safe
        · exact ih (Bool.and_eq_true _ _ ▸ safe).2

theorem head?_trimStart_of_unmarked (safe : unmarked true (line ++ rest) = true) :
    (trimStart line).head? ≠ some '@' := by
  induction line with
  | nil => simp [trimStart]
  | cons c line ih =>
      by_cases blank : Text.isBlank c = true
      · rw [trimStart, List.dropWhile_cons_of_pos blank]
        have skipped : unmarked true (c :: (line ++ rest)) = unmarked true (line ++ rest) := by
          simp [unmarked, blank]
        exact ih (skipped ▸ safe)
      · rw [trimStart, List.dropWhile_cons_of_neg blank]
        rintro ⟨⟩
        simp [unmarked, blank] at safe

end Lines

section Texts
variable {text after : List Char} {value : String}

theorem newline_notMem_of_hexDigits? {a b c d : Char} {code : Nat}
    (read : Text.hexDigits? [a, b, c, d] = some code) : '\n' ∉ ['\\', 'u', a, b, c, d] := by
  have none : Text.hexValue? '\n' = none := by decide
  intro member
  simp only [List.mem_cons, List.not_mem_nil, or_false] at member
  rcases member with same | same | rfl | rfl | rfl | rfl
  · cases same
  · cases same
  all_goals simp [Text.hexDigits?, List.foldlM, none] at read

theorem unmarked_of_readText {seen : List Char} (read : readText seen text = some (value, after))
    (safe : unmarked false after = true) : unmarked false text = true := by
  fun_induction readText seen text with
  | case1 | case3 | case4 | case5 | case7 | case8 | case10 | case12 => contradiction
  | case2 =>
      cases read
      exact unmarked_token (by decide) (by decide) safe
  | case6 seen a b c d high first _ _ e f g h rest low second _ ih =>
      exact unmarked_within (newline_notMem_of_hexDigits? first)
        (unmarked_within (newline_notMem_of_hexDigits? second) (ih read))
  | case9 seen a b c d rest code digits _ _ ih =>
      exact unmarked_within (newline_notMem_of_hexDigits? digits) (ih read)
  | case11 seen c rest _ plain escape ih =>
      have inLine : '\n' ∉ ['\\', c] := by
        simp only [List.mem_cons, List.not_mem_nil, or_false, not_or]
        refine ⟨by decide, ?_⟩
        rintro rfl
        cases escape
      exact unmarked_within inLine (ih read)
  | case13 seen c rest _ _ _ printed ih =>
      have inLine : '\n' ∉ [c] := by
        rw [List.mem_singleton]
        rintro rfl
        exact printed (by decide)
      exact unmarked_within inLine (ih read)

theorem not_isBlank_of_isNumberChar {c : Char} (part : isNumberChar c = true) :
    Text.isBlank c = false := by
  simp only [isNumberChar, Bool.or_eq_true, beq_iff_eq] at part
  rcases part with ((((digit | rfl) | rfl) | rfl) | rfl) | rfl
  · exact Declaration.not_isBlank_of_digit digit
  all_goals decide

theorem unmarked_of_tokensAfter {seen tokens : List Token}
    (read : tokensAfter seen text = some tokens) (beginning : Bool) :
    unmarked beginning text = true := by
  fun_induction tokensAfter seen text generalizing beginning with
  | case1 => rfl
  | case2 | case3 | case4 | case5 | case6 | case7 =>
      rename_i ih
      exact unmarked_token (by decide) (by decide) (ih read false)
  | case8 seen rest ih =>
      have inLine : '\n' ∉ ['r', 'u', 'e'] := by decide
      exact unmarked_token (by decide) (by decide) (unmarked_within inLine (ih read false))
  | case9 seen rest ih =>
      have inLine : '\n' ∉ ['a', 'l', 's', 'e'] := by decide
      exact unmarked_token (by decide) (by decide) (unmarked_within inLine (ih read false))
  | case10 seen rest ih =>
      have inLine : '\n' ∉ ['u', 'l', 'l'] := by decide
      exact unmarked_token (by decide) (by decide) (unmarked_within inLine (ih read false))
  | case11 | case14 | case16 => contradiction
  | case12 seen rest value after text _ ih =>
      exact unmarked_token (by decide) (by decide) (unmarked_of_readText text (ih read false))
  | case13 seen c rest _ _ _ _ _ _ _ _ _ _ blank ih =>
      simp only [isBlank, Bool.or_eq_true, beq_iff_eq] at blank
      rcases blank with ((rfl | rfl) | rfl) | rfl
      · simpa [unmarked, show Text.isBlank ' ' = true by decide] using ih read beginning
      · simpa [unmarked, show Text.isBlank '\t' = true by decide] using ih read beginning
      · simpa [unmarked] using ih read true
      · simpa [unmarked, show Text.isBlank '\r' = true by decide] using ih read beginning
  | case15 seen c rest _ _ _ _ _ _ _ _ _ _ _ part value number _ ih =>
      have inLine : '\n' ∉ rest.takeWhile isNumberChar := fun member =>
        absurd (List.mem_takeWhile_imp member) (by decide)
      have safe := unmarked_within inLine (ih read false)
      rw [List.takeWhile_append_dropWhile] at safe
      exact unmarked_token (not_isBlank_of_isNumberChar part) (by rintro rfl; cases part) safe

-- No line of a text that is read as a value can be taken for the beginning of a tag.
theorem unmarked_of_parse? {text : List Char} {value : Json}
    (read : parse? (String.ofList text) = some value) : unmarked true text = true := by
  obtain ⟨tokens, read, -⟩ := Option.bind_eq_some_iff.mp read
  rw [String.toList_ofList] at read
  exact unmarked_of_tokensAfter read true

end Texts

section Numbers

open Numeric (Binary64 Digits integerText trimZeros)

theorem isNumberChar_of_toDigits {magnitude : Nat} :
    ∀ c ∈ Nat.toDigits 10 magnitude, isNumberChar c = true := by
  intro c member
  simp [isNumberChar, Nat.isDigit_of_mem_toDigits (by decide) (by decide) member]

theorem isNumberChar_of_integerText {value : Int} :
    ∀ c ∈ integerText value, isNumberChar c = true := by
  intro c member
  unfold integerText at member
  split at member
  · rcases List.mem_cons.mp member with rfl | member
    · rfl
    · exact isNumberChar_of_toDigits c member
  · exact isNumberChar_of_toDigits c member

theorem integerText_ne_nil (value : Int) : integerText value ≠ [] := by
  unfold integerText
  split
  · exact List.cons_ne_nil _ _
  · exact Nat.toDigits_ne_nil

theorem isNumberChar_of_pointAfter {digits : List Char}
    (numeric : ∀ c ∈ digits, isNumberChar c = true) (count : Nat) :
    ∀ c ∈ Numeric.pointAfter count digits, isNumberChar c = true := by
  intro c member
  simp only [Numeric.pointAfter, List.mem_append, List.mem_cons] at member
  rcases member with member | rfl | member
  · exact numeric c (List.mem_of_mem_take member)
  · rfl
  · exact numeric c (List.mem_of_mem_drop member)

theorem isNumberChar_of_positional {number : Digits}
    (numeric : ∀ c ∈ number.digits, isNumberChar c = true) :
    ∀ c ∈ number.positional ['.', '0'], isNumberChar c = true := by
  intro c member
  unfold Digits.positional at member
  split at member
  · simp only [List.mem_cons, List.mem_append, List.mem_replicate] at member
    rcases member with (rfl | rfl | ⟨-, rfl⟩) | member
    · rfl
    · rfl
    · rfl
    · exact numeric c member
  · simp only at member
    split at member
    · simp only [List.mem_append, List.mem_replicate, List.mem_cons, List.not_mem_nil,
        or_false] at member
      rcases member with (member | ⟨-, rfl⟩) | rfl | rfl
      · exact numeric c member
      all_goals rfl
    · exact isNumberChar_of_pointAfter numeric _ c member

theorem isNumberChar_of_scientific {number : Digits}
    (numeric : ∀ c ∈ number.digits, isNumberChar c = true) :
    ∀ c ∈ number.scientific, isNumberChar c = true := by
  intro c member
  simp only [Digits.scientific, List.mem_append, List.mem_cons] at member
  rcases member with member | rfl | rfl | member
  · split at member
    · exact numeric c member
    · exact isNumberChar_of_pointAfter numeric 1 c member
  · rfl
  · split <;> rfl
  · exact isNumberChar_of_toDigits c member

theorem isNumberChar_of_text {number : Binary64} :
    ∀ c ∈ number.text .plain, isNumberChar c = true := by
  have digits : ∀ c ∈ number.shortest.toDigits.digits, isNumberChar c = true := by
    intro c member
    rw [Numeric.Decimal.toDigits, trimZeros, List.mem_reverse] at member
    exact isNumberChar_of_toDigits c
      (List.mem_reverse.mp ((List.dropWhile_sublist _).subset member))
  intro c member
  unfold Binary64.text at member
  split at member
  · have zero : c = '-' ∨ c = '0' ∨ c ∈ ['.', '0'] := by
      rcases List.mem_append.mp member with sign | rest
      · split at sign
        · exact .inl (List.mem_singleton.mp sign)
        · cases sign
      · exact .inr (List.mem_cons.mp rest)
    rcases zero with rfl | rfl | tail
    · rfl
    · rfl
    · exact List.all_eq_true.mp (by decide : ['.', '0'].all isNumberChar = true) c tail
  · simp only at member
    have unsigned {condition : Prop} [Decidable condition] (inside : c ∈ if condition then
        number.shortest.toDigits.positional ['.', '0'] else number.shortest.toDigits.scientific) :
        isNumberChar c = true := by
      split at inside
      · exact isNumberChar_of_positional digits c inside
      · exact isNumberChar_of_scientific digits c inside
    split at member
    · rcases List.mem_cons.mp member with rfl | inside
      · rfl
      · exact unsigned inside
    · exact unsigned member

theorem text_ne_nil (number : Binary64) : number.text .plain ≠ [] := by
  unfold Binary64.text
  simp only
  split
  · simp
  split
  · simp
  · split
    · unfold Digits.positional
      simp only
      split
      · simp
      · split <;> simp [Numeric.Layout.plain, Numeric.pointAfter]
    · simp [Digits.scientific]

end Numbers

section Printed

structure Trimmed (text : List Char) : Prop where
  filled : text ≠ []
  first : ∀ c ∈ text.head?, Text.isBlank c = false
  last : ∀ c ∈ text.getLast?, Text.isBlank c = false

theorem all_not_isBlank {found : Option Char} :
    (found.all fun c => !Text.isBlank c) = true ↔ ∀ c ∈ found, Text.isBlank c = false := by
  simp [Option.all_eq_true]

instance (text : List Char) : Decidable (Trimmed text) :=
  decidable_of_decidable_of_iff
    (p := text ≠ [] ∧ (text.head?.all fun c => !Text.isBlank c) = true ∧
      (text.getLast?.all fun c => !Text.isBlank c) = true)
    ⟨fun ⟨filled, first, last⟩ => ⟨filled, all_not_isBlank.mp first, all_not_isBlank.mp last⟩,
      fun ⟨filled, first, last⟩ => ⟨filled, all_not_isBlank.mpr first, all_not_isBlank.mpr last⟩⟩

theorem trimmed_of_isNumberChar {text : List Char} (filled : text ≠ [])
    (numeric : ∀ c ∈ text, isNumberChar c = true) : Trimmed text where
  filled := filled
  first c member := not_isBlank_of_isNumberChar (numeric c (List.mem_of_mem_head? member))
  last c member := not_isBlank_of_isNumberChar (numeric c (List.mem_of_mem_getLast? member))

theorem trimmed_between {first last : Char} (inside : List Char)
    (filled : Text.isBlank first = false) (filledLast : Text.isBlank last = false) :
    Trimmed (first :: inside ++ [last]) where
  filled := List.cons_ne_nil _ _
  first c member := by cases member; exact filled
  last c member := by
    rw [List.getLast?_concat] at member
    cases member
    exact filledLast

theorem trimmed_scalarText (value : Json) : Trimmed (scalarText .plain value) := by
  cases value with
  | null => exact trimmed_between ['u', 'l'] (by decide) (by decide)
  | bool flag =>
      cases flag
      · exact trimmed_between ['a', 'l', 's'] (by decide) (by decide)
      · exact trimmed_between ['r', 'u'] (by decide) (by decide)
  | int value =>
      exact trimmed_of_isNumberChar (integerText_ne_nil value) isNumberChar_of_integerText
  | float number => exact trimmed_of_isNumberChar (text_ne_nil number) isNumberChar_of_text
  | str text => exact trimmed_between _ (by decide) (by decide)
  | arr | obj => exact trimmed_between [] (by decide) (by decide)

inductive Printed (value : Json) : List Char → Prop where
  | compact : Printed value value.compactChars
  | pretty : Printed value (value.prettyChars 0)

theorem Printed.trimmed {value : Json} {text : List Char} (printed : Printed value text) :
    Trimmed text := by
  cases printed with
  | compact =>
      cases value with
      | arr items => exact trimmed_between _ (by decide) (by decide)
      | obj members => exact trimmed_between _ (by decide) (by decide)
      | null => exact trimmed_scalarText .null
      | bool flag => exact trimmed_scalarText (.bool flag)
      | int value => exact trimmed_scalarText (.int value)
      | float number => exact trimmed_scalarText (.float number)
      | str text => exact trimmed_scalarText (.str text)
  | pretty =>
      cases value with
      | arr items =>
          cases items with
          | nil => exact trimmed_between [] (by decide) (by decide)
          | cons item rest =>
              rw [prettyChars, List.cons_append]
              exact trimmed_between _ (by decide) (by decide)
      | obj members =>
          cases members with
          | nil => exact trimmed_between [] (by decide) (by decide)
          | cons member rest =>
              rw [prettyChars, List.cons_append]
              exact trimmed_between _ (by decide) (by decide)
      | null => exact trimmed_scalarText .null
      | bool flag => exact trimmed_scalarText (.bool flag)
      | int value => exact trimmed_scalarText (.int value)
      | float number => exact trimmed_scalarText (.float number)
      | str text => exact trimmed_scalarText (.str text)

end Printed

end Toggles.Json
