import Toggles.Proofs.Lexing

/-! Cutting two sources that are joined by a line break.

No lexeme that is complete goes on behind a line break, so the tokens of joined sources are
those of the first one and then those of the second one. Only the documentation that the
first source ends with may pass on to the first token of the second one.
-/

set_option autoImplicit false

namespace Toggles.Declaration

open Text (isBlank)

section Bodies
variable {seen text body rest more : List Char}

theorem splitComment_append (split : splitComment seen text = some (body, rest)) :
    splitComment seen (text ++ more) = some (body, rest ++ more) := by
  fun_induction splitComment seen text with
  | case1 => contradiction
  | case2 seen after =>
      cases split
      simp [splitComment]
  | case3 seen c after other ih =>
      rw [List.cons_append, splitComment.eq_3, ih split]
      intro tail star same
      cases after with
      | nil => simp [splitComment] at split
      | cons d after => exact other after star (by rw [(List.cons.inj same).1])

theorem splitText_append {quote : Char} (split : splitText quote seen text = some (body, rest)) :
    splitText quote seen (text ++ more) = some (body, rest ++ more) := by
  fun_induction splitText quote seen text with
  | case1 | case3 | case4 => contradiction
  | case2 seen after =>
      cases split
      rw [List.cons_append, splitText.eq_def]
      simp
  | case5 seen escaped after other plain ih =>
      rw [List.cons_append, List.cons_append, splitText.eq_def]
      simp only [other, plain, ↓reduceIte]
      exact ih split
  | case6 seen c after other plain unescaped ih =>
      rw [List.cons_append, splitText.eq_def]
      simp only [other, plain, unescaped, ↓reduceIte]
      exact ih split

theorem splitTemplate_append (split : splitTemplate seen text = some (body, rest)) :
    splitTemplate seen (text ++ more) = some (body, rest ++ more) := by
  fun_induction splitTemplate seen text with
  | case1 => contradiction
  | case2 seen after =>
      cases split
      simp [splitTemplate]
  | case3 seen escaped after ih =>
      rw [List.cons_append, List.cons_append, splitTemplate]
      exact ih split
  | case4 seen c after other unescaped ih =>
      rw [List.cons_append, splitTemplate.eq_4 _ _ _ other, ih split]
      intro escaped tail backslash same
      cases after with
      | nil => simp [splitTemplate] at split
      | cons d after => exact unescaped d after backslash rfl

end Bodies

section Runs
variable {part : Char → Bool}

theorem takeWhile_append_newline (ends : part '\n' = false) (text more : List Char) :
    (text ++ '\n' :: more).takeWhile part = text.takeWhile part := by
  induction text with
  | nil => simp [ends]
  | cons c text ih => simp [List.takeWhile_cons, ih]

theorem dropWhile_append_newline (ends : part '\n' = false) (text more : List Char) :
    (text ++ '\n' :: more).dropWhile part = text.dropWhile part ++ '\n' :: more := by
  induction text with
  | nil => simp [ends]
  | cons c text ih => 
    simp [List.dropWhile_cons, ih]
    split <;> simp

end Runs

def Cut.extended (result : Cut) (more : List Char) : Cut :=
  { result with rest := result.rest ++ '\n' :: more }

section Cuts
variable {c : Char} {text more : List Char} {result : Cut}

theorem cutRun_newline {part : Char → Bool} (ends : part '\n' = false) (token : String → Token) :
    cutRun part token c (text ++ '\n' :: more) = (cutRun part token c text).extended more := by
  rw [cutRun, takeWhile_append_newline ends, dropWhile_append_newline ends]
  rfl

theorem cutComment_append (cuts : cutComment text = .ok result) :
    cutComment (text ++ '\n' :: more) = .ok (result.extended more) := by
  unfold cutComment at cuts ⊢
  split at cuts
  · contradiction
  · next split => cases cuts; rw [splitComment_append split]; rfl

theorem cutText_append {quote : Char} (cuts : cutText quote text = .ok result) :
    cutText quote (text ++ '\n' :: more) = .ok (result.extended more) := by
  unfold cutText at cuts ⊢
  split at cuts
  · contradiction
  · next split => cases cuts; rw [splitText_append split]; rfl

theorem cutTemplate_append (cuts : cutTemplate text = .ok result) :
    cutTemplate (text ++ '\n' :: more) = .ok (result.extended more) := by
  unfold cutTemplate at cuts ⊢
  split at cuts
  · contradiction
  · next split => cases cuts; rw [splitTemplate_append split]; rfl

-- Marks of more than one character contain no line break.
theorem cutMark_append :
    cutMark c (text ++ '\n' :: more) = (cutMark c text).extended more := by
  by_cases ellipsis : ∃ tail, c = '.' ∧ text = '.' :: '.' :: tail
  · obtain ⟨tail, rfl, rfl⟩ := ellipsis
    rfl
  · by_cases arrow : ∃ tail, c = '=' ∧ text = '>' :: tail
    · obtain ⟨tail, rfl, rfl⟩ := arrow
      rfl
    · have single (other : List Char)
          (noDots : ∀ tail, c = '.' → other = '.' :: '.' :: tail → False)
          (noArrow : ∀ tail, c = '=' → other = '>' :: tail → False) : cutMark c other =
            ⟨.token ((Mark.ofChar? c).elim (.symbol c) .mark), c.utf8Size, other⟩ := by
        rw [cutMark.eq_3 c other noDots noArrow]
        cases Mark.ofChar? c <;> rfl
      rw [single text (fun tail dot same => ellipsis ⟨tail, dot, same⟩)
        (fun tail equals same => arrow ⟨tail, equals, same⟩), single]
      · rfl
      · intro tail dot same
        rcases text with _ | ⟨d, _ | ⟨e, text⟩⟩ <;> simp_all
      · intro tail equals same
        rcases text with _ | ⟨d, text⟩ <;> simp_all

-- A lexeme that is cut off is cut off too where the text goes on behind a line break.
theorem cut_append (cuts : cut c text = .ok result) :
    cut c (text ++ '\n' :: more) = .ok (result.extended more) := by
  have headed (d : Char) (other : d ≠ '\n') :
      (text ++ '\n' :: more).head? = some d ↔ text.head? = some d := by
    cases text <;> simp [other.symm]
  unfold cut at cuts ⊢
  simp only [headed '/' (by decide), headed '*' (by decide)]
  split at cuts
  · next blank => rw [if_pos blank]; cases cuts; rfl
  next other =>
  rw [if_neg other]
  split at cuts
  · next line =>
      rw [if_pos line, takeWhile_append_newline rfl, dropWhile_append_newline rfl]
      cases cuts
      rfl
  next other =>
  rw [if_neg other]
  split at cuts
  · next block =>
      rw [if_pos block]
      cases text with
      | nil => simp at block
      | cons star text => exact cutComment_append cuts
  next other =>
  rw [if_neg other]
  split at cuts
  · next quote => rw [if_pos quote]; exact cutText_append cuts
  next other =>
  rw [if_neg other]
  split at cuts
  · next quote => rw [if_pos quote]; exact cutTemplate_append cuts
  next other =>
  rw [if_neg other]
  split at cuts
  · next digit => rw [if_pos digit, cutRun_newline (by decide)]; cases cuts; rfl
  next other =>
  rw [if_neg other]
  split at cuts
  · next start => rw [if_pos start, cutRun_newline (by decide +kernel)]; cases cuts; rfl
  · next other => rw [if_neg other, cutMark_append]; cases cuts; rfl

end Cuts

section Streams
variable {seen : List Located} {pending : Option String} {position : Nat} {text : List Char}
  {stream : TokenStream}

theorem tokensAfter_unclosed {c : Char} {unclosed : Unclosed} (cuts : cut c text = .error unclosed) :
    tokensAfter seen pending position (c :: text) = .error (unclosed.toError position) := by
  rw [tokensAfter.eq_def]
  simp only
  split
  · next same => cases cuts.symm.trans same; rfl
  · next same => cases cuts.symm.trans same

theorem tokensAfter_legible (seen : List Located) (pending : Option String) (position : Nat)
    {token : Token} (legible : token.Legible text) : ∃ located stop, located.token = token ∧
      tokensAfter seen pending position (token.text ++ text) =
        tokensAfter (located :: seen) none stop text := by
  obtain ⟨c, rest, size, same, cuts⟩ := cuts_legible legible
  refine ⟨⟨token, position, pending⟩, position + size, rfl, ?_⟩
  rw [same, tokensAfter_token cuts]

theorem tokensAfter_newline :
    tokensAfter seen pending position ('\n' :: text) = tokensAfter seen pending (position + 1) text :=
  tokensAfter_blank rfl

theorem tokensAfter_space :
    tokensAfter seen pending position (' ' :: text) = tokensAfter seen pending (position + 1) text :=
  tokensAfter_blank rfl

-- The tokens of a text stand before those of what follows it behind a line break.
theorem tokensAfter_append (read : tokensAfter seen pending position text = .ok stream)
    (more : List Char) :
    tokensAfter seen pending position (text ++ '\n' :: more) =
      tokensAfter stream.tokens.reverse stream.trailingDoc stream.stop ('\n' :: more) := by
  induction seen, pending, position, text using tokensAfter.induct with
  | case1 seen pending position =>
      cases tokensAfter_nil.symm.trans read
      rw [List.nil_append, List.reverse_reverse]
  | case2 seen pending position c rest unclosed cuts => cases (tokensAfter_unclosed cuts).symm.trans read
  | case3 seen pending position c rest result cuts _ blank ih =>
      rw [tokensAfter_cons cuts, blank] at read
      rw [List.cons_append, tokensAfter_cons (cut_append cuts)]
      simp only [Cut.extended, blank, ih read]
  | case4 seen pending position c rest result cuts _ body comment ih =>
      rw [tokensAfter_cons cuts, comment] at read
      rw [List.cons_append, tokensAfter_cons (cut_append cuts)]
      simp only [Cut.extended, comment, ih read]
  | case5 seen pending position c rest result cuts _ token isToken ih =>
      rw [tokensAfter_cons cuts, isToken] at read
      rw [List.cons_append, tokensAfter_cons (cut_append cuts)]
      simp only [Cut.extended, isToken, ih read]

/-- Other tokens that are the same but for their positions and for what documents the first
of them. -/
structure SameTokens (given others : List Located) : Prop where
  tokens : others.map Located.token = given.map Located.token
  behind : others.tail.map Located.content = given.tail.map Located.content

-- Where a text stands, and which documentation is pending before it, makes no difference
-- to its tokens, but for the documentation of the first one.
theorem tokensAfter_moved (read : tokensAfter seen pending position text = .ok stream)
    (otherSeen : List Located) (otherPending : Option String) (otherPosition : Nat) :
    ∃ other tokens others, tokensAfter otherSeen otherPending otherPosition text = .ok other ∧
      stream.tokens = seen.reverse ++ tokens ∧ other.tokens = otherSeen.reverse ++ others ∧
      SameTokens tokens others ∧
      (otherPending = pending → others.map Located.content = tokens.map Located.content) := by
  induction seen, pending, position, text using tokensAfter.induct generalizing otherSeen otherPending
    otherPosition with
  | case1 seen pending position =>
      cases tokensAfter_nil.symm.trans read
      refine ⟨_, [], [], tokensAfter_nil, ?_, ?_, ⟨rfl, rfl⟩, fun _ => rfl⟩ <;> simp
  | case2 seen pending position c rest unclosed cuts => cases (tokensAfter_unclosed cuts).symm.trans read
  | case3 seen pending position c rest result cuts _ blank ih =>
      rw [tokensAfter_cons cuts, blank] at read
      rw [tokensAfter_cons cuts, blank]
      exact ih read otherSeen otherPending _
  | case4 seen pending position c rest result cuts _ body comment ih =>
      rw [tokensAfter_cons cuts, comment] at read
      rw [tokensAfter_cons cuts, comment]
      obtain ⟨other, tokens, others, done, first, second, same, equal⟩ :=
        ih read otherSeen (documentation otherPending body) (otherPosition + result.size)
      exact ⟨other, tokens, others, done, first, second, same, fun pending => equal (by rw [pending])⟩
  | case5 seen pending position c rest result cuts _ token isToken ih =>
      rw [tokensAfter_cons cuts, isToken] at read
      rw [tokensAfter_cons cuts, isToken]
      obtain ⟨other, tokens, others, done, first, second, same, equal⟩ :=
        ih read (⟨token, otherPosition, otherPending⟩ :: otherSeen) none (otherPosition + result.size)
      rw [List.reverse_cons, List.append_assoc] at first second
      refine ⟨other, _, _, done, first, second, ⟨?_, equal rfl⟩, ?_⟩
      · simp [same.tokens]
      · intro pending
        simp [Located.content, pending, equal rfl]

end Streams

section Sources
variable {first second : String} {stream secondStream : TokenStream}

theorem tokensAfter_of_tokenize (tokenized : tokenize first = .ok stream) :
    tokensAfter [] none 0 first.toList = .ok stream := by
  unfold tokenize at tokenized
  split at tokenized
  · contradiction
  · exact tokenized

theorem tokenize_of_tokensAfter (size : first.utf8ByteSize ≤ maximumSourceSize)
    (read : tokensAfter [] none 0 first.toList = .ok stream) : tokenize first = .ok stream := by
  rw [tokenize, if_neg (Nat.not_lt.mpr size)]
  exact read

-- The tokens of two sources with a line break between them.
theorem tokenize_append (tokenized : tokenize first = .ok stream)
    (tokenizedSecond : tokenize second = .ok secondStream)
    (size : (first ++ "\n" ++ second).utf8ByteSize ≤ maximumSourceSize) :
    ∃ joined others, tokenize (first ++ "\n" ++ second) = .ok joined ∧
      joined.tokens = stream.tokens ++ others ∧ SameTokens secondStream.tokens others := by
  have read := tokensAfter_append (tokensAfter_of_tokenize tokenized) second.toList
  obtain ⟨other, tokens, others, done, here, there, same, -⟩ :=
    tokensAfter_moved (tokensAfter_of_tokenize tokenizedSecond) stream.tokens.reverse
      stream.trailingDoc (stream.stop + 1)
  rw [List.reverse_nil, List.nil_append] at here
  rw [List.reverse_reverse] at there
  refine ⟨other, others, tokenize_of_tokensAfter size ?_, there, here ▸ same⟩
  rw [tokensAfter_newline, done] at read
  simpa using read

def namespaceText : List Char :=
  (Token.word "namespace").text ++ ' ' :: ((Token.word "N").text ++
    ' ' :: (Token.mark .openBrace).text)

structure OpensNamespace (keyword name opening : Located) : Prop where
  keyword : keyword.token = .word "namespace"
  name : name.token = .word "N"
  opening : opening.token = .mark .openBrace

theorem tokensAfter_namespaceText (seen : List Located) (pending : Option String) (position : Nat)
    (text : List Char) : ∃ keyword name opening stop, OpensNamespace keyword name opening ∧
      tokensAfter seen pending position (namespaceText ++ text) =
        tokensAfter (opening :: name :: keyword :: seen) none stop text := by
  have ends : ∀ c ∈ [' '].head?, isWordPart c = false := by
    rintro c ⟨⟩
    decide +kernel
  have keyword : (Token.word "namespace").Legible (' ' :: ((Token.word "N").text ++
      ' ' :: ((Token.mark .openBrace).text ++ text))) := ⟨by decide +kernel, ends⟩
  have name : (Token.word "N").Legible (' ' :: ((Token.mark .openBrace).text ++ text)) :=
    ⟨by decide +kernel, ends⟩
  have opening : (Token.mark .openBrace).Legible text := by simp [Token.Legible]
  obtain ⟨keyword, first, isKeyword, atKeyword⟩ := tokensAfter_legible seen pending position keyword
  obtain ⟨name, second, isName, atName⟩ := tokensAfter_legible (keyword :: seen) none (first + 1) name
  obtain ⟨opening, stop, opens, atOpening⟩ :=
    tokensAfter_legible (name :: keyword :: seen) none (second + 1) opening
  refine ⟨keyword, name, opening, stop, ⟨isKeyword, isName, opens⟩, ?_⟩
  simp only [namespaceText, List.append_assoc, List.cons_append]
  rw [atKeyword, tokensAfter_space, atName, tokensAfter_space, atOpening]

def enclosing (first inner second : String) : String :=
  first ++ "\nnamespace N \x7b" ++ inner ++ "\n\x7d\n" ++ second

theorem toList_enclosing (inner : String) : (enclosing first inner second).toList =
    first.toList ++ '\n' :: (namespaceText ++ (inner.toList ++
      '\n' :: ((Token.mark .closeBrace).text ++ '\n' :: second.toList))) := by
  simp [enclosing, namespaceText, Token.text, Mark.text]

-- The tokens of a source with a namespace between it and another one.
theorem tokenize_enclosing {inner : String} {innerStream : TokenStream}
    (tokenized : tokenize first = .ok stream) (tokenizedInner : tokenize inner = .ok innerStream)
    (tokenizedSecond : tokenize second = .ok secondStream)
    (size : (enclosing first inner second).utf8ByteSize ≤ maximumSourceSize) :
    ∃ joined keyword name opening inside closing others,
      tokenize (enclosing first inner second) = .ok joined ∧
      joined.tokens = stream.tokens ++ keyword :: name :: opening :: (inside ++ closing :: others) ∧
      OpensNamespace keyword name opening ∧ closing.token = .mark .closeBrace ∧
      SameTokens innerStream.tokens inside ∧ SameTokens secondStream.tokens others := by
  have closes (text : List Char) : (Token.mark .closeBrace).Legible text := by simp [Token.Legible]
  have read := tokensAfter_append (tokensAfter_of_tokenize tokenized) (namespaceText ++
    (inner.toList ++ '\n' :: ((Token.mark .closeBrace).text ++ '\n' :: second.toList)))
  obtain ⟨keyword, name, opening, start, opens, header⟩ := tokensAfter_namespaceText
    stream.tokens.reverse stream.trailingDoc (stream.stop + 1)
    (inner.toList ++ '\n' :: ((Token.mark .closeBrace).text ++ '\n' :: second.toList))
  obtain ⟨innerOther, innerTokens, inside, innerDone, innerHere, innerThere, innerSame, -⟩ :=
    tokensAfter_moved (tokensAfter_of_tokenize tokenizedInner)
      (opening :: name :: keyword :: stream.tokens.reverse) none start
  obtain ⟨closing, stop, isClosing, atClosing⟩ := tokensAfter_legible innerOther.tokens.reverse
    innerOther.trailingDoc (innerOther.stop + 1) (closes ('\n' :: second.toList))
  obtain ⟨other, tokens, others, done, here, there, same, -⟩ :=
    tokensAfter_moved (tokensAfter_of_tokenize tokenizedSecond)
      (closing :: innerOther.tokens.reverse) none (stop + 1)
  rw [← toList_enclosing, tokensAfter_newline, header, tokensAfter_append innerDone,
    tokensAfter_newline, atClosing, tokensAfter_newline, done] at read
  rw [List.reverse_nil, List.nil_append] at innerHere here
  refine ⟨other, keyword, name, opening, inside, closing, others, tokenize_of_tokensAfter size read, ?_,
    opens, isClosing, innerHere ▸ innerSame, here ▸ same⟩
  rw [there, List.reverse_cons, List.reverse_reverse, innerThere]
  simp

end Sources

end Toggles.Declaration
