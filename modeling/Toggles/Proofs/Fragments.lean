import Mathlib.Data.List.Forall2
import Mathlib.Data.List.TakeWhile
import Toggles.Proofs.Redocumented
import Toggles.Proofs.Seam

/-! The lexemes of a text.

A cut takes a character and what belongs to it off the front of a text. Each kind of lexeme is
described by what it takes and by where it ends, so a lexeme can be told apart from what follows
it: another text may stand behind it where the lexeme ends there as well.
-/

set_option autoImplicit false

namespace Toggles.Declaration

open Text (isBlank)

section Splits
variable {seen text body rest : List Char}

theorem splitComment_eq_some (split : splitComment seen text = some (body, rest)) :
    ∃ inside, body = seen.reverse ++ inside ∧ text = inside ++ '*' :: '/' :: rest ∧
      ¬['*', '/'] <:+: inside := by
  fun_induction splitComment seen text with
  | case1 => contradiction
  | case2 seen after =>
      cases split
      exact ⟨[], by simp, rfl, by simp⟩
  | case3 seen c after other ih =>
      obtain ⟨inside, rfl, rfl, unclosed⟩ := ih split
      refine ⟨c :: inside, by simp, rfl, fun within => ?_⟩
      rcases List.infix_cons_iff.mp within with ⟨more, starts⟩ | later
      · simp only [List.cons_append, List.nil_append, List.cons.injEq] at starts
        obtain ⟨star, behind⟩ := starts
        exact other (more ++ '*' :: '/' :: rest) star.symm (by rw [← behind]; rfl)
      · exact unclosed later

theorem splitText_eq_some {quote : Char} (split : splitText quote seen text = some (body, rest)) :
    ∃ inside, body = seen.reverse ++ inside ∧ text = inside ++ quote :: rest ∧
      splitText quote seen (inside ++ [quote]) = some (body, []) := by
  fun_induction splitText quote seen text with
  | case1 | case3 | case4 => contradiction
  | case2 seen after =>
      cases split
      exact ⟨[], by simp, rfl, by simp [splitText]⟩
  | case5 seen escaped after other plain ih =>
      obtain ⟨inside, rfl, rfl, again⟩ := ih split
      refine ⟨'\\' :: escaped :: inside, by simp, rfl, ?_⟩
      rw [List.cons_append, List.cons_append, splitText.eq_def]
      simp only [other, plain, ↓reduceIte]
      exact again
  | case6 seen c after other plain unescaped ih =>
      obtain ⟨inside, rfl, rfl, again⟩ := ih split
      refine ⟨c :: inside, by simp, rfl, ?_⟩
      rw [List.cons_append, splitText.eq_def]
      simp only [other, plain, unescaped, ↓reduceIte]
      exact again

theorem splitTemplate_eq_some (split : splitTemplate seen text = some (body, rest)) :
    ∃ inside, body = seen.reverse ++ inside ∧ text = inside ++ '\x60' :: rest ∧
      splitTemplate seen (inside ++ ['\x60']) = some (body, []) := by
  fun_induction splitTemplate seen text with
  | case1 => contradiction
  | case2 seen after =>
      cases split
      exact ⟨[], by simp, rfl, by simp [splitTemplate]⟩
  | case3 seen escaped after ih =>
      obtain ⟨inside, rfl, rfl, again⟩ := ih split
      exact ⟨'\\' :: escaped :: inside, by simp, rfl, by simpa [splitTemplate] using again⟩
  | case4 seen c after other unescaped ih =>
      obtain ⟨inside, rfl, rfl, again⟩ := ih split
      refine ⟨c :: inside, by simp, rfl, ?_⟩
      rw [List.cons_append, splitTemplate.eq_4 _ _ _ other, again]
      intro escaped tail backslash same
      cases inside with
      | nil => exact unescaped _ _ backslash rfl
      | cons d inside => exact unescaped _ _ backslash rfl

end Splits

/-- A character that begins no lexeme of more than marks. -/
structure Lone (c : Char) : Prop where
  blank : isBlank c = false
  double : c ≠ '"'
  single : c ≠ '\''
  template : c ≠ '\x60'
  digit : c.isDigit = false
  word : isWordStart c = false

def loneToken (c : Char) : Token :=
  (Mark.ofChar? c).elim (.symbol c) .mark

/-- A lexeme that begins with a character, with what it takes behind the character and the text
that it ends before. -/
inductive Takes (c : Char) : List Char → Lexeme → List Char → Prop where
  | blank {rest : List Char} (blank : isBlank c = true) : Takes c [] .blank rest
  | line {inside rest : List Char} (slash : c = '/') (inLine : '\n' ∉ inside)
      (ends : ∀ d ∈ rest.head?, d = '\n') : Takes c ('/' :: inside) .blank rest
  | comment {body rest : List Char} (slash : c = '/') (unclosed : ¬['*', '/'] <:+: body) :
      Takes c ('*' :: body ++ ['*', '/']) (.comment body) rest
  | quoted {body rest : List Char} (quote : c = '"' ∨ c = '\'')
      (split : splitText c [] (body ++ [c]) = some (body, [])) :
      Takes c (body ++ [c]) (.token (.quoted (String.ofList (decodeText body)))) rest
  | template {body rest : List Char} (quote : c = '\x60')
      (split : splitTemplate [] (body ++ [c]) = some (body, [])) :
      Takes c (body ++ [c]) (.token (.template (String.ofList body))) rest
  | number {run rest : List Char} (digit : c.isDigit = true)
      (parts : ∀ d ∈ run, isNumberPart d = true) (ends : ∀ d ∈ rest.head?, isNumberPart d = false) :
      Takes c run (.token (.number (String.ofList (c :: run)))) rest
  | word {run rest : List Char} (start : isWordStart c = true)
      (parts : ∀ d ∈ run, isWordPart d = true) (ends : ∀ d ∈ rest.head?, isWordPart d = false) :
      Takes c run (.token (.word (String.ofList (c :: run)))) rest
  | ellipsis {rest : List Char} (dot : c = '.') :
      Takes c ['.', '.'] (.token (.mark .ellipsis)) rest
  | arrow {rest : List Char} (equals : c = '=') : Takes c ['>'] (.token (.mark .arrow)) rest
  | lone {rest : List Char} (lone : Lone c)
      (slash : c = '/' → ∀ d ∈ rest.head?, d ≠ '/' ∧ d ≠ '*')
      (dot : c = '.' → rest.take 2 ≠ ['.', '.']) (equals : c = '=' → ∀ d ∈ rest.head?, d ≠ '>') :
      Takes c [] (.token (loneToken c)) rest

section Cuts
variable {c : Char} {text front rest : List Char} {lexeme : Lexeme} {result : Cut}

theorem ends_dropWhile (part : Char → Bool) (text : List Char) :
    ∀ d ∈ (text.dropWhile part).head?, part d = false := by
  intro d first
  have := List.head?_dropWhile_not part text
  rw [Option.mem_def.mp first] at this
  simpa using this

theorem takes_mark (lone : Lone c)
    (slash : c = '/' → ∀ d ∈ text.head?, d ≠ '/' ∧ d ≠ '*') :
    ∃ front, text = front ++ (cutMark c text).rest ∧
      Takes c front (cutMark c text).lexeme (cutMark c text).rest := by
  unfold cutMark
  split
  · exact ⟨['.', '.'], rfl, .ellipsis rfl⟩
  · exact ⟨['>'], rfl, .arrow rfl⟩
  · next dots arrow =>
      have taken := Takes.lone lone slash
        (fun dot twice => by
          obtain ⟨first, second, rest, rfl⟩ : ∃ first second rest, text = first :: second :: rest := by
            rcases text with _ | ⟨first, _ | ⟨second, rest⟩⟩
            · cases twice
            · cases twice
            · exact ⟨first, second, rest, rfl⟩
          cases twice
          exact dots rest dot rfl)
        (fun equals d first same => by
          cases text with
          | nil => cases first
          | cons e rest =>
              cases first
              exact arrow rest equals (by rw [same]))
      unfold loneToken at taken
      split <;> next mark => exact ⟨[], rfl, by simpa [mark] using taken⟩

theorem takes_line (slash : c = '/') (second : text.head? = some '/') :
    ∃ front, text = front ++ text.dropWhile (· != '\n') ∧
      Takes c front .blank (text.dropWhile (· != '\n')) := by
  obtain ⟨rest, rfl⟩ := List.head?_eq_some_iff.mp second
  refine ⟨'/' :: rest.takeWhile (· != '\n'), by simp, .line slash (fun within => ?_) ?_⟩
  · simpa using List.mem_takeWhile_imp within
  · simpa using ends_dropWhile (· != '\n') rest

theorem takes_cutComment (slash : c = '/') (second : text.head? = some '*')
    (cuts : cutComment text.tail = .ok result) :
    ∃ front, text = front ++ result.rest ∧ Takes c front result.lexeme result.rest := by
  obtain ⟨rest, rfl⟩ := List.head?_eq_some_iff.mp second
  unfold cutComment at cuts
  split at cuts
  · contradiction
  · next split =>
      cases cuts
      obtain ⟨_, rfl, same, unclosed⟩ := splitComment_eq_some split
      exact ⟨'*' :: _ ++ ['*', '/'], by simpa using same, .comment slash unclosed⟩

theorem takes_cutText (quote : c = '"' ∨ c = '\'') (cuts : cutText c text = .ok result) :
    ∃ front, text = front ++ result.rest ∧ Takes c front result.lexeme result.rest := by
  unfold cutText at cuts
  split at cuts
  · contradiction
  · next split =>
      cases cuts
      obtain ⟨_, rfl, same, again⟩ := splitText_eq_some split
      exact ⟨_ ++ [c], by simpa using same, .quoted quote again⟩

theorem takes_cutTemplate (quote : c = '\x60') (cuts : cutTemplate text = .ok result) :
    ∃ front, text = front ++ result.rest ∧ Takes c front result.lexeme result.rest := by
  unfold cutTemplate at cuts
  split at cuts
  · contradiction
  · next split =>
      cases cuts
      obtain ⟨_, rfl, same, again⟩ := splitTemplate_eq_some split
      exact ⟨_ ++ [c], by simpa [quote] using same, .template quote (by simpa [quote] using again)⟩

-- What a cut takes.
theorem takes_of_cut (cuts : cut c text = .ok result) :
    ∃ front, text = front ++ result.rest ∧ Takes c front result.lexeme result.rest := by
  unfold cut at cuts
  split at cuts
  · next blank => cases cuts; exact ⟨[], rfl, .blank blank⟩
  next notBlank =>
  split at cuts
  · next line =>
      simp only [Bool.and_eq_true, decide_eq_true_eq] at line
      cases cuts
      exact takes_line line.1 line.2
  next notLine =>
  split at cuts
  · next block =>
      simp only [Bool.and_eq_true, decide_eq_true_eq] at block
      exact takes_cutComment block.1 block.2 cuts
  next notBlock =>
  split at cuts
  · next quote => exact takes_cutText (by simpa using quote) cuts
  next notQuote =>
  split at cuts
  · next quote => exact takes_cutTemplate quote cuts
  next notTemplate =>
  split at cuts
  · next digit =>
      cases cuts
      exact ⟨_, List.takeWhile_append_dropWhile.symm,
        .number digit (fun _ => List.mem_takeWhile_imp) (ends_dropWhile isNumberPart text)⟩
  next notDigit =>
  split at cuts
  · next start =>
      cases cuts
      exact ⟨_, List.takeWhile_append_dropWhile.symm,
        .word start (fun _ => List.mem_takeWhile_imp) (ends_dropWhile isWordPart text)⟩
  next notStart =>
  cases cuts
  simp only [Bool.or_eq_true, decide_eq_true_eq, not_or] at notQuote
  refine takes_mark ⟨by simpa using notBlank, notQuote.1, notQuote.2, notTemplate,
    by simpa using notDigit, by simpa using notStart⟩ fun slash d first => ?_
  simp only [slash, Option.mem_def.mp first, decide_true, Bool.true_and, decide_eq_true_eq,
    Option.some.injEq] at notLine notBlock
  exact ⟨notLine, notBlock⟩

theorem cutMark_lone (dot : c = '.' → rest.take 2 ≠ ['.', '.'])
    (equals : c = '=' → ∀ d ∈ rest.head?, d ≠ '>') :
    cutMark c rest = ⟨.token (loneToken c), c.utf8Size, rest⟩ := by
  rw [cutMark.eq_3 c rest (fun tail isDot same => dot isDot (by rw [same]; rfl))
    (fun tail isEquals same => equals isEquals '>' (by rw [same]; rfl) rfl), loneToken]
  cases Mark.ofChar? c <;> rfl

theorem cutRun_ended {part : Char → Bool} {run : List Char} (parts : ∀ d ∈ run, part d = true)
    (ends : ∀ d ∈ rest.head?, part d = false) (token : String → Token) :
    ∃ size, cutRun part token c (run ++ rest) =
      ⟨.token (token (String.ofList (c :: run))), size, rest⟩ :=
  ⟨_, cutRun_append parts ends token c⟩

theorem cut_line {inside : List Char} (inLine : '\n' ∉ inside) (ends : ∀ d ∈ rest.head?, d = '\n') :
    ∃ size, cut '/' ('/' :: inside ++ rest) = .ok ⟨.blank, size, rest⟩ := by
  have parts : ∀ d ∈ '/' :: inside, (d != '\n') = true := by
    intro d member
    rcases List.mem_cons.mp member with rfl | member
    · rfl
    · simpa using fun same : d = '\n' => inLine (same ▸ member)
  have ends : ∀ d ∈ rest.head?, (d != '\n') = false := fun d first => by simp [ends d first]
  have read := cutRun_append parts ends .word '/'
  rw [cutRun, Cut.mk.injEq] at read
  obtain ⟨-, size, after⟩ := read
  have slashIsMark : isBlank '/' = false := by decide
  refine ⟨Text.utf8Size ('/' :: '/' :: inside), ?_⟩
  simp only [cut, slashIsMark, List.cons_append, List.head?_cons, decide_true, Bool.and_self,
    ↓reduceIte, Bool.false_eq_true] at size after ⊢
  rw [size, after]

theorem cut_quoted {body : List Char} (quote : c = '"' ∨ c = '\'')
    (split : splitText c [] (body ++ [c]) = some (body, [])) :
    cut c (body ++ [c] ++ rest) = .ok ⟨.token (.quoted (String.ofList (decodeText body))),
      Text.utf8Size body + 2, rest⟩ := by
  have whole : splitText c [] (body ++ c :: rest) = some (body, rest) := by
    simpa using splitText_append split
  rcases quote with rfl | rfl
  · have blank : isBlank '"' = false := by decide
    simp [cut, blank, cutText, whole]
  · have blank : isBlank '\'' = false := by decide
    simp [cut, blank, cutText, whole]

theorem cut_template {body : List Char}
    (split : splitTemplate [] (body ++ ['\x60']) = some (body, [])) :
    cut '\x60' (body ++ ['\x60'] ++ rest) =
      .ok ⟨.token (.template (String.ofList body)), Text.utf8Size body + 2, rest⟩ := by
  have whole : splitTemplate [] (body ++ '\x60' :: rest) = some (body, rest) := by
    simpa using splitTemplate_append split
  have blank : isBlank '\x60' = false := by decide
  simp [cut, blank, cutTemplate, whole]

theorem cut_lone (lone : Lone c) (slash : c = '/' → ∀ d ∈ rest.head?, d ≠ '/' ∧ d ≠ '*') :
    cut c rest = .ok (cutMark c rest) := by
  have noSecond (d : Char) (among : d = '/' ∨ d = '*') : ¬(c = '/' ∧ rest.head? = some d) := by
    rintro ⟨isSlash, first⟩
    have := slash isSlash d first
    rcases among with rfl | rfl <;> simp at this
  simp [cut, lone.blank, noSecond '/' (.inl rfl), noSecond '*' (.inr rfl), lone.double, lone.single,
    lone.template, lone.digit, lone.word]

-- A text that begins with what a lexeme takes is cut there.
theorem cut_of_takes (takes : Takes c front lexeme rest) :
    ∃ size, cut c (front ++ rest) = .ok ⟨lexeme, size, rest⟩ := by
  cases takes with
  | blank blank => exact ⟨_, by rw [cut, if_pos blank]; rfl⟩
  | line slash inLine ends => exact slash ▸ cut_line inLine ends
  | @comment body _ slash unclosed =>
      subst slash
      have slashIsMark : isBlank '/' = false := by decide
      have split := splitComment_unclosed unclosed [] rest
      exact ⟨Text.utf8Size body + 4, by simp [cut, slashIsMark, cutComment, split]⟩
  | quoted quote split => exact ⟨_, cut_quoted quote split⟩
  | template quote split => subst quote; exact ⟨_, cut_template split⟩
  | number digit parts ends =>
      obtain ⟨size, run⟩ := cutRun_ended parts ends .number
      exact ⟨size, by rw [cut_number digit, run]⟩
  | word start parts ends =>
      obtain ⟨size, run⟩ := cutRun_ended parts ends .word
      exact ⟨size, by rw [cut_word start, run]⟩
  | ellipsis dot => exact ⟨3, by rw [dot]; rfl⟩
  | arrow equals => exact ⟨2, by rw [equals]; rfl⟩
  | lone lone slash dot equals =>
      exact ⟨c.utf8Size, by rw [List.nil_append, cut_lone lone slash, cutMark_lone dot equals]⟩

end Cuts

structure Fragment where
  lexeme : Lexeme
  text : List Char
  deriving Repr

/-- A text divided into its lexemes. A part that is left open stays whole. -/
def fragments (text : List Char) : List Fragment :=
  match text with
  | [] => []
  | c :: rest =>
      match cuts : cut c rest with
      | .error _ => [⟨.blank, c :: rest⟩]
      | .ok result =>
          have := cut_le cuts
          ⟨result.lexeme, c :: rest.take (rest.length - result.rest.length)⟩ :: fragments result.rest
termination_by text.length
decreasing_by simp; omega

inductive Lexes : List Char → List Fragment → Prop where
  | nil : Lexes [] []
  | cons {c : Char} {front rest : List Char} {lexeme : Lexeme} {behind : List Fragment}
      (takes : Takes c front lexeme rest) (lexes : Lexes rest behind) :
      Lexes (c :: front ++ rest) (⟨lexeme, c :: front⟩ :: behind)

def documented (pending : Option String) : List Lexeme → List (Token × Option String)
  | [] => []
  | .blank :: rest => documented pending rest
  | .comment body :: rest => documented (documentation pending body) rest
  | .token token :: rest => (token, pending) :: documented none rest

section Streams
variable {seen : List Located} {pending : Option String} {position : Nat} {c : Char}
  {text rest : List Char} {stream : TokenStream}

theorem fragments_nil : fragments [] = [] := by
  rw [fragments.eq_def]

theorem fragments_cons {result : Cut} (cuts : cut c rest = .ok result) : fragments (c :: rest) =
    ⟨result.lexeme, c :: rest.take (rest.length - result.rest.length)⟩ :: fragments result.rest := by
  rw [fragments.eq_def]
  simp only
  split
  · next same => cases cuts.symm.trans same
  · next same => cases cuts.symm.trans same; rfl

theorem fragments_unclosed {unclosed : Unclosed} (cuts : cut c rest = .error unclosed) :
    fragments (c :: rest) = [⟨.blank, c :: rest⟩] := by
  rw [fragments.eq_def]
  simp only
  split
  · rfl
  · next same => cases cuts.symm.trans same

theorem take_front (front rest : List Char) :
    (front ++ rest).take ((front ++ rest).length - rest.length) = front := by
  rw [List.length_append, Nat.add_sub_cancel, List.take_left]

-- The fragments of a text make up the text.
theorem fragments_flatMap (text : List Char) : (fragments text).flatMap Fragment.text = text := by
  induction text using fragments.induct with
  | case1 => rw [fragments_nil]; rfl
  | case2 c rest unclosed cuts => rw [fragments_unclosed cuts]; simp
  | case3 c rest result cuts _ ih =>
      obtain ⟨front, same, -⟩ := takes_of_cut cuts
      rw [fragments_cons cuts, List.flatMap_cons, ih, same, take_front]
      rfl

theorem lexes_of_tokensAfter (read : tokensAfter seen pending position text = .ok stream) :
    Lexes text (fragments text) := by
  induction seen, pending, position, text using tokensAfter.induct with
  | case1 =>
      rw [fragments_nil]
      exact .nil
  | case2 seen pending position c rest unclosed cuts =>
      cases (tokensAfter_unclosed cuts).symm.trans read
  | case3 seen pending position c rest result cuts _ kind ih
  | case4 seen pending position c rest result cuts _ body kind ih
  | case5 seen pending position c rest result cuts _ token kind ih =>
      rw [tokensAfter_cons cuts, kind] at read
      obtain ⟨front, rfl, takes⟩ := takes_of_cut cuts
      rw [fragments_cons cuts, take_front]
      exact .cons takes (ih read)

-- The tokens of a text are those of its fragments.
theorem tokensAfter_of_lexes {parts : List Fragment} (lexes : Lexes text parts) (seen : List Located)
    (pending : Option String) (position : Nat) :
    ∃ stream, tokensAfter seen pending position text = .ok stream ∧
      stream.tokens.map Located.content =
        seen.reverse.map Located.content ++ documented pending (parts.map Fragment.lexeme) := by
  induction lexes generalizing seen pending position with
  | nil => exact ⟨_, tokensAfter_nil, by simp [documented]⟩
  | cons takes lexes ih =>
      obtain ⟨size, cuts⟩ := cut_of_takes takes
      rw [List.cons_append, tokensAfter_cons cuts]
      rename_i lexeme _
      cases lexeme with
      | blank => exact ih seen pending (position + size)
      | comment body => exact ih seen (documentation pending body) (position + size)
      | token token =>
          obtain ⟨stream, read, content⟩ :=
            ih (⟨token, position, pending⟩ :: seen) none (position + size)
          exact ⟨stream, read, by simp [content, documented, Located.content]⟩

end Streams

/-- Tokens that differ at most in the text of a template. -/
def SameKind : Token → Token → Prop
  | .template _, .template _ => True
  | token, other => other = token

theorem SameKind.refl (token : Token) : SameKind token token := by
  cases token <;> first | rfl | exact trivial

theorem SameKind.symm {token other : Token} (same : SameKind token other) : SameKind other token := by
  cases token <;> cases other <;> first | exact Eq.symm same | exact trivial

section Alike
variable {related : String → String → Prop}

variable (related) in
/-- Lexemes with other white space, other remarks and other templates, and with documentation
that is related. -/
inductive Alike : List Lexeme → List Lexeme → Prop where
  | nil : Alike [] []
  | blank {rest others : List Lexeme} (behind : Alike rest others) : Alike (.blank :: rest) others
  | blankOther {rest others : List Lexeme} (behind : Alike rest others) :
      Alike rest (.blank :: others)
  | doc {doc other : String} {rest others : List Lexeme} (docs : related doc other)
      (behind : Alike rest others) :
      Alike (.comment ('*' :: doc.toList) :: rest) (.comment ('*' :: other.toList) :: others)
  | remark {body other : List Char} {rest others : List Lexeme} (plain : body.head? ≠ some '*')
      (plainOther : other.head? ≠ some '*') (behind : Alike rest others) :
      Alike (.comment body :: rest) (.comment other :: others)
  | token {token other : Token} {rest others : List Lexeme} (same : SameKind token other)
      (behind : Alike rest others) : Alike (.token token :: rest) (.token other :: others)

variable (related) in
structure AlikeContent (content other : Token × Option String) : Prop where
  token : SameKind content.1 other.1
  doc : Option.Rel related content.2 other.2

theorem documentation_of_plain {body : List Char} (plain : body.head? ≠ some '*')
    (pending : Option String) : documentation pending body = pending := by
  unfold documentation
  split
  · simp at plain
  · rfl

theorem documented_alike {lexemes others : List Lexeme} (alike : Alike related lexemes others)
    {pending pendingOther : Option String} (docs : Option.Rel related pending pendingOther) :
    List.Forall₂ (AlikeContent related) (documented pending lexemes)
      (documented pendingOther others) := by
  induction alike generalizing pending pendingOther with
  | nil => exact .nil
  | blank _ ih | blankOther _ ih => exact ih docs
  | doc docsHere _ ih =>
      simp only [documented, documentation, String.ofList_toList]
      exact ih (.some docsHere)
  | remark plain plainOther _ ih =>
      simp only [documented, documentation_of_plain plain, documentation_of_plain plainOther]
      exact ih docs
  | token same _ ih => exact .cons ⟨same, docs⟩ (ih .none)

-- Two texts whose lexemes are alike have the same tokens with related documentation.
theorem tokenize_alike {source other : String} {stream : TokenStream} {parts : List Fragment}
    (tokenized : tokenize source = .ok stream) (lexes : Lexes other.toList parts)
    (alike : Alike related ((fragments source.toList).map Fragment.lexeme)
      (parts.map Fragment.lexeme))
    (size : other.utf8ByteSize ≤ maximumSourceSize) :
    ∃ streamOther, tokenize other = .ok streamOther ∧
      List.Forall₂ (fun located other => AlikeContent related located.content other.content)
        stream.tokens streamOther.tokens := by
  have read := tokensAfter_of_tokenize tokenized
  obtain ⟨again, readAgain, content⟩ := tokensAfter_of_lexes (lexes_of_tokensAfter read) [] none 0
  obtain ⟨streamOther, readOther, contentOther⟩ := tokensAfter_of_lexes lexes [] none 0
  cases read.symm.trans readAgain
  refine ⟨streamOther, tokenize_of_tokensAfter size readOther, ?_⟩
  have both := documented_alike alike (.none : Option.Rel related none none)
  rw [List.reverse_nil, List.map_nil, List.nil_append] at content contentOther
  rwa [← content, ← contentOther, List.forall₂_map_left_iff, List.forall₂_map_right_iff] at both

end Alike

-- Tokens of the same kind, the documentation of the one being changed into that of the other.
theorem redocumented_of_forall₂ {change : String → String} {tokens others : List Located}
    (pairs : List.Forall₂ (fun located other => SameKind located.token other.token ∧
      other.doc = located.doc.map change) tokens others) : Redocumented change tokens others := by
  induction pairs with
  | nil => exact .nil
  | @cons first second _ _ pair _ ih =>
      obtain ⟨token, position, doc⟩ := first
      obtain ⟨other, positionOther, docOther⟩ := second
      obtain ⟨same, rfl⟩ := pair
      cases token with
      | template raw =>
          cases other with
          | template rawOther => exact .template ih
          | word | quoted | number | mark | symbol => cases same
      | word | quoted | number | mark | symbol => cases same; exact .token ih

theorem redocumented_of_alike {change : String → String} {related : String → String → Prop}
    {tokens others : List Located} (changes : ∀ doc other, related doc other → other = change doc)
    (alike : List.Forall₂ (fun located other =>
      AlikeContent related located.content other.content) tokens others) :
    Redocumented change tokens others := by
  refine redocumented_of_forall₂ (alike.imp fun located other alike => ⟨alike.token, ?_⟩)
  have docs : Option.Rel related located.doc other.doc := alike.doc
  revert docs
  generalize located.doc = doc
  generalize other.doc = docOther
  rintro (docs | _)
  · exact congrArg some (changes _ _ docs)
  · rfl

end Toggles.Declaration
