import Toggles.Declaration.Lexeme
import Toggles.Proofs.Rendering

/-! Cutting written pieces into tokens.

A list of pieces can be cut into its tokens again when each piece ends where the
next one begins: no word and no number goes on in the text behind it.
-/

set_option autoImplicit false

namespace Toggles.Declaration

open Definition (isWord)
open Text (isBlank isLetter)

section Characters

def blankCodes : List Nat :=
  [0x9, 0xa, 0xb, 0xc, 0xd, 0x20, 0x85, 0xa0, 0x1680, 0x2000, 0x2001, 0x2002, 0x2003, 0x2004,
    0x2005, 0x2006, 0x2007, 0x2008, 0x2009, 0x200a, 0x2028, 0x2029, 0x202f, 0x205f, 0x3000]

theorem toNat_mem_blankCodes {c : Char} (blank : isBlank c = true) : c.toNat ∈ blankCodes := by
  simp only [isBlank, Bool.or_eq_true, Bool.and_eq_true, decide_eq_true_eq, beq_iff_eq] at blank
  simp only [blankCodes, List.mem_cons, List.not_mem_nil, or_false]
  omega

def digitCodes : List Nat := [48, 49, 50, 51, 52, 53, 54, 55, 56, 57]

theorem toNat_mem_digitCodes {c : Char} (digit : c.isDigit = true) : c.toNat ∈ digitCodes := by
  have bounds : 48 ≤ c.toNat ∧ c.toNat ≤ 57 := by
    simpa [Char.isDigit, UInt32.le_iff_toNat_le] using digit
  simp only [digitCodes, List.mem_cons, List.not_mem_nil, or_false]
  omega

theorem not_isWordStart_of_blank {c : Char} (blank : isBlank c = true) : isWordStart c = false := by
  have none : ∀ code ∈ blankCodes, isWordStart (Char.ofNat code) = false := by decide +kernel
  simpa using none c.toNat (toNat_mem_blankCodes blank)

theorem not_isWordStart_of_digit {c : Char} (digit : c.isDigit = true) :
    isWordStart c = false := by
  have none : ∀ code ∈ digitCodes, isWordStart (Char.ofNat code) = false := by decide +kernel
  simpa using none c.toNat (toNat_mem_digitCodes digit)

theorem not_isBlank_of_digit {c : Char} (digit : c.isDigit = true) : isBlank c = false := by
  have none : ∀ code ∈ digitCodes, isBlank (Char.ofNat code) = false := by decide +kernel
  simpa using none c.toNat (toNat_mem_digitCodes digit)

end Characters

section Bodies

theorem cutRun_append {part : Char → Bool} {run following : List Char}
    (all : ∀ c ∈ run, part c = true) (ends : ∀ c ∈ following.head?, part c = false)
    (token : String → Token) (c : Char) :
    cutRun part token c (run ++ following) =
      ⟨.token (token (String.ofList (c :: run))), Text.utf8Size (c :: run), following⟩ := by
  rw [cutRun, List.takeWhile_append_of_pos all, List.dropWhile_append_of_pos all]
  cases following with
  | nil => simp
  | cons d rest => simp [ends d rfl]

theorem splitText_escaped (value seen following : List Char) :
    splitText '"' seen (value.flatMap escapedChar ++ '"' :: following) =
      some (seen.reverse ++ value.flatMap escapedChar, following) := by
  induction value generalizing seen with
  | nil =>
      unfold splitText
      simp
  | cons c rest ih =>
      rw [List.flatMap_cons, List.append_assoc]
      by_cases backslash : c = '\\'
      · subst backslash
        simp [escapedChar, splitText, ih]
      · by_cases quote : c = '"'
        · subst quote
          simp [escapedChar, splitText, ih]
        · by_cases newline : c = '\n'
          · subst newline
            simp [escapedChar, splitText, ih]
          · have plain : escapedChar c = [c] := by
              unfold escapedChar
              split <;> first | contradiction | rfl
            rw [plain, List.singleton_append, splitText.eq_def]
            simp [ih, backslash, quote, newline]

theorem decodeText_escaped (value : List Char) :
    decodeText (value.flatMap escapedChar) = value := by
  induction value with
  | nil => rfl
  | cons c rest ih =>
      rw [List.flatMap_cons]
      by_cases backslash : c = '\\'
      · subst backslash
        simp [escapedChar, decodeText, plainEscape, ih]
      · by_cases quote : c = '"'
        · subst quote
          simp [escapedChar, decodeText, plainEscape, ih]
        · by_cases newline : c = '\n'
          · subst newline
            simp [escapedChar, decodeText, plainEscape, ih]
          · have plain : escapedChar c = [c] := by
              unfold escapedChar
              split <;> first | contradiction | rfl
            simp [plain, decodeText, ih, backslash]

theorem splitComment_unclosed {text : List Char} (unclosed : ¬['*', '/'] <:+: text)
    (seen following : List Char) :
    splitComment seen (text ++ '*' :: '/' :: following) =
      some (seen.reverse ++ text, following) := by
  induction text generalizing seen with
  | nil => simp [splitComment]
  | cons c rest ih =>
      have later : ¬['*', '/'] <:+: rest := fun inside => unclosed (List.infix_cons inside)
      have goes : splitComment seen (c :: (rest ++ '*' :: '/' :: following)) =
          splitComment (c :: seen) (rest ++ '*' :: '/' :: following) := by
        refine splitComment.eq_3 _ _ _ fun after star same => ?_
        cases rest with
        | nil => simp at same
        | cons d rest =>
            obtain ⟨slash, -⟩ := List.cons.inj same
            exact unclosed ⟨[], rest, by simp [star, slash]⟩
      rw [List.cons_append, goes, ih later]
      simp

theorem CommentBody.unclosed_star {doc : String} (body : CommentBody doc) :
    ¬['*', '/'] <:+: '*' :: doc.toList := by
  rw [List.infix_cons_iff]
  rintro (first | inside)
  · obtain ⟨rest, same⟩ := first
    have starts : doc.toList = '/' :: rest := by simpa using same.symm
    exact body.first (by simp [starts])
  · exact body.unclosed inside

end Bodies

section Cuts

theorem cut_number {c : Char} (digit : c.isDigit = true) (text : List Char) :
    cut c text = .ok (cutRun isNumberPart .number c text) := by
  have apart : ∀ d, d.isDigit = false → c ≠ d := by
    rintro d none rfl
    simp [none] at digit
  simp [cut, not_isBlank_of_digit digit, digit, apart '/' (by decide), apart '"' (by decide),
    apart '\'' (by decide), apart '\x60' (by decide)]

theorem cut_word {c : Char} (start : isWordStart c = true) (text : List Char) :
    cut c text = .ok (cutRun isWordPart .word c text) := by
  have notBlank : isBlank c = false := by
    apply Bool.eq_false_iff.mpr
    intro blank
    simp [not_isWordStart_of_blank blank] at start
  have notDigit : c.isDigit = false := by
    apply Bool.eq_false_iff.mpr
    intro digit
    simp [not_isWordStart_of_digit digit] at start
  have apart : ∀ d, isWordStart d = false → c ≠ d := by
    rintro d none rfl
    simp [none] at start
  simp [cut, notBlank, notDigit, start, apart '/' (by decide), apart '"' (by decide),
    apart '\'' (by decide), apart '\x60' (by decide)]

def Token.Legible (following : List Char) : Token → Prop
  | .word name => isWord name.toList = true ∧ ∀ c ∈ following.head?, isWordPart c = false
  | .quoted _ => True
  | .template raw => raw = ""
  | .number raw => raw ≠ "" ∧ (∀ c ∈ raw.toList, c.isDigit = true) ∧
      ∀ c ∈ following.head?, isNumberPart c = false
  | .mark value => value ≠ .equals ∧ value ≠ .arrow ∧ value ≠ .ellipsis ∧
      (value = .dot → following.head? ≠ some '.')
  | .symbol _ => False

def Cuts (token : Token) (following : List Char) : Prop :=
  ∃ c rest size, token.text ++ following = c :: rest ∧
    cut c rest = .ok ⟨.token token, size, following⟩

variable {following : List Char}

theorem cuts_word {name : String} (word : isWord name.toList = true)
    (ends : ∀ c ∈ following.head?, isWordPart c = false) : Cuts (.word name) following := by
  cases written : name.toList with
  | nil => simp [written, isWord] at word
  | cons c rest =>
      obtain ⟨start, parts⟩ : isWordStart c = true ∧ ∀ d ∈ rest, isWordPart d = true := by
        simpa [written, isWord] using word
      have whole : String.ofList (c :: rest) = name := by rw [← written, String.ofList_toList]
      refine ⟨c, rest ++ following, Text.utf8Size (c :: rest), by simp [Token.text, written], ?_⟩
      rw [cut_word start, cutRun_append parts ends, whole]

theorem cuts_number {raw : String} (filled : raw ≠ "")
    (digits : ∀ c ∈ raw.toList, c.isDigit = true)
    (ends : ∀ c ∈ following.head?, isNumberPart c = false) : Cuts (.number raw) following := by
  cases written : raw.toList with
  | nil => exact absurd (String.toList_eq_nil_iff.mp written) filled
  | cons c rest =>
      rw [written] at digits
      obtain ⟨first, others⟩ := List.forall_mem_cons.mp digits
      have parts : ∀ d ∈ rest, isNumberPart d = true := by
        intro d member
        simp [isNumberPart, Char.isAlphanum, others d member]
      have whole : String.ofList (c :: rest) = raw := by rw [← written, String.ofList_toList]
      refine ⟨c, rest ++ following, Text.utf8Size (c :: rest), by simp [Token.text, written], ?_⟩
      rw [cut_number first, cutRun_append parts ends, whole]

theorem cuts_quoted (value : String) : Cuts (.quoted value) following := by
  refine ⟨'"', value.toList.flatMap escapedChar ++ '"' :: following,
    Text.utf8Size (value.toList.flatMap escapedChar) + 2, by simp [Token.text], ?_⟩
  have blank : isBlank '"' = false := by decide
  simp [cut, blank, cutText, splitText_escaped, decodeText_escaped]

theorem cuts_template : Cuts (.template "") following :=
  ⟨'\x60', '\x60' :: following, 2, rfl, rfl⟩

theorem cuts_dot (apart : following.head? ≠ some '.') : Cuts (.mark .dot) following := by
  refine ⟨'.', following, 1, rfl, ?_⟩
  have single : cutMark '.' following = ⟨.token (.mark .dot), 1, following⟩ := by
    unfold cutMark
    split
    · next rest same => simp at apart
    · next same => contradiction
    · rfl
  have blank : isBlank '.' = false := by decide
  have digit : '.'.isDigit = false := by decide
  have start : isWordStart '.' = false := by decide
  simp [cut, blank, digit, start, single]

theorem cuts_mark {value : Mark} (plain : value ≠ .equals ∧ value ≠ .arrow ∧ value ≠ .ellipsis)
    (dot : value = .dot → following.head? ≠ some '.') : Cuts (.mark value) following := by
  obtain ⟨equals, arrow, ellipsis⟩ := plain
  cases value with
  | equals => contradiction
  | arrow => contradiction
  | ellipsis => contradiction
  | dot => exact cuts_dot (dot rfl)
  | _ => exact ⟨_, following, 1, rfl, rfl⟩

theorem cuts_legible {token : Token} (legible : token.Legible following) :
    Cuts token following := by
  cases token with
  | word name => exact cuts_word legible.1 legible.2
  | quoted value => exact cuts_quoted value
  | template raw => exact legible ▸ cuts_template
  | number raw => exact cuts_number legible.1 legible.2.1 legible.2.2
  | mark value => exact cuts_mark ⟨legible.1, legible.2.1, legible.2.2.1⟩ legible.2.2.2
  | symbol value => exact legible.elim

theorem cut_comment {doc : String} (body : CommentBody doc) (following : List Char) :
    ∃ size, cut '/' ('*' :: '*' :: doc.toList ++ '*' :: '/' :: following) =
      .ok ⟨.comment ('*' :: doc.toList), size, following⟩ := by
  have blank : isBlank '/' = false := by decide
  have split := splitComment_unclosed body.unclosed_star [] following
  rw [List.cons_append] at split
  refine ⟨Text.utf8Size ('*' :: doc.toList) + 4, ?_⟩
  simp [cut, blank, cutComment, split]

end Cuts

section Streams
variable {seen : List Located} {pending : Option String} {position size : Nat} {c : Char}
  {rest following : List Char}

theorem tokensAfter_nil :
    tokensAfter seen pending position [] = .ok ⟨seen.reverse, position, pending⟩ := by
  rw [tokensAfter.eq_def]

theorem tokensAfter_cons {result : Cut} (cuts : cut c rest = .ok result) :
    tokensAfter seen pending position (c :: rest) =
      match result.lexeme with
      | .blank => tokensAfter seen pending (position + result.size) result.rest
      | .comment body =>
          tokensAfter seen (documentation pending body) (position + result.size) result.rest
      | .token token =>
          tokensAfter (⟨token, position, pending⟩ :: seen) none (position + result.size)
            result.rest := by
  rw [tokensAfter.eq_def]
  simp only
  split
  · next unclosed same =>
      rw [cuts] at same
      contradiction
  · next other same =>
      rw [cuts] at same
      cases same
      rfl

theorem tokensAfter_token {token : Token} (cuts : cut c rest = .ok ⟨.token token, size, following⟩) :
    tokensAfter seen pending position (c :: rest) =
      tokensAfter (⟨token, position, pending⟩ :: seen) none (position + size) following :=
  tokensAfter_cons cuts

theorem tokensAfter_comment {body : List Char}
    (cuts : cut c rest = .ok ⟨.comment body, size, following⟩) :
    tokensAfter seen pending position (c :: rest) =
      tokensAfter seen (documentation pending body) (position + size) following :=
  tokensAfter_cons cuts

theorem tokensAfter_blank (cuts : cut c rest = .ok ⟨.blank, size, following⟩) :
    tokensAfter seen pending position (c :: rest) =
      tokensAfter seen pending (position + size) following :=
  tokensAfter_cons cuts

def Piece.blank (piece : Piece) : List Char :=
  if piece.spaced then [' '] else []

/-- Pieces that can be told apart in their text. -/
def Legible : List Piece → Prop
  | [] => True
  | piece :: rest => (∀ doc ∈ piece.doc, CommentBody doc) ∧
      piece.token.Legible (piece.blank ++ textOf rest) ∧ Legible rest

theorem tokensAfter_piece {piece : Piece} (docs : ∀ doc ∈ piece.doc, CommentBody doc)
    (legible : piece.token.Legible (piece.blank ++ following)) :
    ∃ start stop, tokensAfter seen none position (piece.text ++ following) =
      tokensAfter (⟨piece.token, start, piece.doc⟩ :: seen) none stop following := by
  obtain ⟨doc, token, spaced⟩ := piece
  -- After the documentation, the token is read with it, and the blank is passed over.
  have documented : ∀ position, ∃ stop,
      tokensAfter seen doc position (token.text ++ ((Piece.mk doc token spaced).blank ++ following)) =
        tokensAfter (⟨token, position, doc⟩ :: seen) none stop following := by
    intro position
    obtain ⟨c, rest, size, text, cuts⟩ := cuts_legible legible
    rw [text, tokensAfter_token cuts]
    cases spaced with
    | false => exact ⟨_, rfl⟩
    | true => exact ⟨_, tokensAfter_blank rfl⟩
  cases doc with
  | none =>
      obtain ⟨stop, read⟩ := documented position
      refine ⟨position, stop, ?_⟩
      rw [← read]
      simp [Piece.text, Piece.blank, commentText]
  | some doc =>
      obtain ⟨size, cuts⟩ := cut_comment (docs doc rfl)
        (token.text ++ ((Piece.mk (some doc) token spaced).blank ++ following))
      obtain ⟨stop, read⟩ := documented (position + size)
      refine ⟨position + size, stop, ?_⟩
      have text : (Piece.mk (some doc) token spaced).text ++ following =
          '/' :: ('*' :: '*' :: doc.toList ++ '*' :: '/' ::
            (token.text ++ ((Piece.mk (some doc) token spaced).blank ++ following))) := by
        simp [Piece.text, Piece.blank, commentText]
      rw [text, tokensAfter_comment cuts, ← read, documentation, String.ofList_toList]

def Located.content (located : Located) : Token × Option String :=
  (located.token, located.doc)

def Piece.content (piece : Piece) : Token × Option String :=
  (piece.token, piece.doc)

-- Legible pieces are cut into their tokens, each with its documentation.
theorem tokensAfter_textOf {pieces : List Piece} (legible : Legible pieces)
    (seen : List Located) (position : Nat) :
    ∃ stream, tokensAfter seen none position (textOf pieces) = .ok stream ∧
      stream.tokens.map Located.content =
        seen.reverse.map Located.content ++ pieces.map Piece.content := by
  induction pieces generalizing seen position with
  | nil => exact ⟨⟨seen.reverse, position, none⟩, tokensAfter_nil, by simp⟩
  | cons piece rest ih =>
      obtain ⟨docs, first, legible⟩ := legible
      obtain ⟨start, stop, step⟩ := tokensAfter_piece docs first
      obtain ⟨stream, read, same⟩ := ih legible (⟨piece.token, start, piece.doc⟩ :: seen) stop
      refine ⟨stream, ?_, ?_⟩
      · rw [textOf, List.flatMap_cons]
        exact step.trans read
      · rw [same]
        simp [Located.content, Piece.content]

end Streams

end Toggles.Declaration
