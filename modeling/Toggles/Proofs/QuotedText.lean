import Toggles.Definition.Outline
import Toggles.Proofs.Literals

/-! JSON text as a string literal.

JSON text is written with more escapes than a declaration knows: those for backspace and form feed
are read as the letters in them, and every other text is read as itself.
-/

set_option autoImplicit false

namespace Toggles.Declaration

open Definition (isWord propertyKey)
open Json (escapeChar hexDigit)

section Characters
variable {c : Char} {text rest : List Char}

/-- What a character of a JSON text is read as. -/
def misread (c : Char) : Char :=
  if c = '\x08' then 'b' else if c = '\x0c' then 'f' else c

theorem unicodeEscape?_control (control : c.toNat < 0x20) :
    unicodeEscape? '0' '0' (hexDigit (c.toNat / 16)) (hexDigit c.toNat) = some c := by
  have each : ∀ code < 0x20,
      unicodeEscape? '0' '0' (hexDigit (code / 16)) (hexDigit code) = some (Char.ofNat code) := by
    decide +kernel
  simpa using each c.toNat control

def shortEscapes : List (Char × Char) :=
  [('"', '"'), ('\\', '\\'), ('\x08', 'b'), ('\x0c', 'f'), ('\n', 'n'), ('\r', 'r'), ('\t', 't')]

/-- The forms in which JSON writes a character, and how a declaration reads them. -/
inductive WrittenForm (c : Char) : List Char → Prop where
  | short {e : Char} (other : e ≠ 'u') (reads : plainEscape e = misread c) : WrittenForm c ['\\', e]
  | number {d e : Char} (reads : unicodeEscape? '0' '0' d e = some (misread c)) :
      WrittenForm c ['\\', 'u', '0', '0', d, e]
  | plain (other : c ∉ ['"', '\n', '\\']) (reads : c = misread c) : WrittenForm c [c]

theorem writtenForm_escapeChar (c : Char) : WrittenForm c (escapeChar c) := by
  by_cases short : ∃ e, (c, e) ∈ shortEscapes
  · obtain ⟨e, member⟩ := short
    have each : ∀ pair ∈ shortEscapes, escapeChar pair.1 = ['\\', pair.2] ∧ pair.2 ≠ 'u' ∧
        plainEscape pair.2 = misread pair.1 := by decide
    obtain ⟨written, other, reads⟩ := each (c, e) member
    rw [written]
    exact .short other reads
  · simp only [shortEscapes, List.mem_cons, Prod.mk.injEq, List.not_mem_nil, or_false,
      exists_or, exists_and_left, exists_eq, and_true, not_or] at short
    obtain ⟨quote, backslash, backspace, formFeed, newline, return_, tab⟩ := short
    have kept : misread c = c := by simp [misread, backspace, formFeed]
    simp only [escapeChar, quote, backslash, backspace, formFeed, newline, return_, tab, if_false]
    split
    · next control => exact .number (kept.symm ▸ unicodeEscape?_control control)
    · exact .plain (by simp [quote, newline, backslash]) kept.symm

theorem literalBody_of_inner (inner : ∀ c ∈ text, IsInner c) : LiteralBody '"' text := by
  induction text with
  | nil => exact .nil
  | cons c text ih =>
      obtain ⟨⟨-, inside⟩, inner⟩ := List.forall_mem_cons.mp inner
      refine .plain (fun member => inside ?_) (ih inner)
      simp only [List.mem_cons, List.not_mem_nil, or_false] at member ⊢
      exact member.imp_right .inr

theorem WrittenForm.literalBody (form : WrittenForm c text) : LiteralBody '"' text := by
  cases form with
  | short => exact .escape .nil
  | number reads =>
      refine .escape (literalBody_of_inner fun e member => ?_)
      exact isInner_of_unicodeEscape? reads e member
  | plain other => exact .plain other .nil

theorem WrittenForm.decodeText_append (form : WrittenForm c text) (rest : List Char) :
    decodeText (text ++ rest) = misread c :: decodeText rest := by
  cases form with
  | short other reads =>
      rw [← reads]
      exact decodeText.eq_2 _ rest fun _ _ _ _ _ same _ => other same
  | number reads => simp [decodeText, reads]
  | plain other reads =>
      simp only [List.mem_cons, List.not_mem_nil, or_false, not_or] at other
      rw [← reads]
      exact decodeText.eq_3 c rest (fun _ _ _ _ _ same _ => other.2.2 same)
        fun _ _ same _ => other.2.2 same

end Characters

theorem literalBody_quoted (text : List Char) : LiteralBody '"' (text.flatMap escapeChar) := by
  induction text with
  | nil => exact .nil
  | cons c text ih => exact (writtenForm_escapeChar c).literalBody.append ih

theorem decodeText_quoted (text : List Char) :
    decodeText (text.flatMap escapeChar) = text.map misread := by
  induction text with
  | nil => rfl
  | cons c text ih =>
      rw [List.flatMap_cons, (writtenForm_escapeChar c).decodeText_append, ih, List.map_cons]

theorem misread_eq_self {c : Char} : misread c = c ↔ c ≠ '\x08' ∧ c ≠ '\x0c' := by
  unfold misread
  split
  · next same => subst same; decide
  split
  · next same => subst same; decide
  · next backspace formFeed => simp [backspace, formFeed]

/-- The JSON text of a text is read as a single token, up to its end. The token is the text but for
the letters that backspace and form feed are read as, so it is the text itself exactly when neither
of them is in it. The same text is what a property name is written as unless it is a word. -/
theorem tokenize_jsonText (text : String)
    (size : (Json.str text).compact.utf8ByteSize ≤ maximumSourceSize) :
    tokenize (Json.str text).compact =
      .ok ⟨[⟨.quoted (String.ofList (text.toList.map misread)), 0, none⟩],
        (Json.str text).compact.utf8ByteSize, none⟩ ∧
    (String.ofList (text.toList.map misread) = text ↔ '\x08' ∉ text.toList ∧ '\x0c' ∉ text.toList) ∧
    (isWord text.toList = false → propertyKey text = (Json.str text).compact) := by
  have chars : (Json.str text).compact.toList = '"' :: (text.toList.flatMap escapeChar ++ ['"']) := by
    rw [Json.compact, String.toList_ofList]
    rfl
  have read := (literalBody_quoted text.toList).tokensAfter_quoted (.inl rfl) [] none 0 []
  refine ⟨tokenize_of_tokensAfter size ?_, ?_, fun noWord => ?_⟩
  · rw [chars, read, tokensAfter_nil, decodeText_quoted, ← Text.utf8Size_toList, chars]
    have one : '"'.utf8Size = 1 := rfl
    simp [Text.utf8Size_cons, one]
    omega
  · rw [← String.toList_inj, String.toList_ofList]
    calc text.toList.map misread = text.toList
        ↔ text.toList.map misread = text.toList.map id := by rw [List.map_id]
      _ ↔ ∀ c ∈ text.toList, c ≠ '\x08' ∧ c ≠ '\x0c' := by
        rw [List.map_inj_left]
        exact forall₂_congr fun c _ => misread_eq_self
      _ ↔ _ := by simp only [forall_and, ne_eq, List.forall_mem_ne']
  · rw [propertyKey, noWord]
    rfl

def sampleText : String := "a\"\\\n\x01\x1f\x7f/é\u2028\t"

theorem tokenize_jsonText_sample :
    (Json.str sampleText).compact.utf8ByteSize ≤ maximumSourceSize ∧
      isWord sampleText.toList = false ∧ propertyKey sampleText = (Json.str sampleText).compact ∧
      tokenize (Json.str sampleText).compact = .ok ⟨[⟨.quoted sampleText, 0, none⟩], 30, none⟩ := by
  have size : (Json.str sampleText).compact.utf8ByteSize ≤ maximumSourceSize := by decide +kernel
  have noWord : isWord sampleText.toList = false := by decide +kernel
  have stop : (Json.str sampleText).compact.utf8ByteSize = 30 := by decide +kernel
  obtain ⟨tokenized, same, key⟩ := tokenize_jsonText sampleText size
  rw [stop, same.mpr (by decide +kernel)] at tokenized
  exact ⟨size, noWord, key noWord, tokenized⟩

/-- Backspace is written with an escape that is read as the letter in it. -/
theorem misread_backspace : (Json.str "\x08").compact = "\"\\b\"" ∧
    tokenize "\"\\b\"" = .ok ⟨[⟨.quoted "b", 0, none⟩], 4, none⟩ ∧
    propertyKey "\x08" = "\"\\b\"" := by
  decide +kernel

end Toggles.Declaration
