import Toggles.Proofs.Offsets

/-! The tokens of a source divide it.

Every byte of a source belongs to a token or to a gap of white space and comments before a token
or before the end. The parts meet at their offsets, so nothing is lost and nothing is read twice,
and the documentation of a token is that of the last block comment in its own gap that has any.
-/

set_option autoImplicit false

namespace Toggles.Declaration

open Text (isBlank slice? sliceFrom? utf8Size)

/-- The documentation in the body of a block comment, behind a second star. -/
def docOf? : List Char → Option String
  | '*' :: doc => some (String.ofList doc)
  | _ => none

def lastDoc (bodies : List (List Char)) : Option String :=
  (bodies.filterMap docOf?).getLast?

/-- A text of white space and comments, with the bodies of its block comments. A line comment goes
on to the end of its line, or to the end of the text when nothing follows. -/
inductive Gap (following : List Char) : List (List Char) → List Char → Prop where
  | nil : Gap following [] []
  | blank {c : Char} {bodies : List (List Char)} {text : List Char} (blank : isBlank c = true)
      (behind : Gap following bodies text) : Gap following bodies (c :: text)
  | line {inside text : List Char} {bodies : List (List Char)} (inLine : '\n' ∉ inside)
      (ends : ∀ d ∈ (text ++ following).head?, d = '\n') (behind : Gap following bodies text) :
      Gap following bodies ('/' :: '/' :: (inside ++ text))
  | block {body text : List Char} {bodies : List (List Char)} (unclosed : ¬['*', '/'] <:+: body)
      (behind : Gap following bodies text) :
      Gap following (body :: bodies) ('/' :: '*' :: (body ++ '*' :: '/' :: text))

def Token.WrittenAs : Token → List Char → Prop
  | .word raw, text | .number raw, text => text = raw.toList
  | .template raw, text => text = '\x60' :: (raw.toList ++ ['\x60'])
  | .mark value, text => text = value.text.toList
  | .symbol c, text => text = [c]
  | .quoted value, text => ∃ quote body, (quote = '"' ∨ quote = '\'') ∧
      text = quote :: (body ++ [quote]) ∧
      splitText quote [] (body ++ [quote]) = some (body, []) ∧
      value = String.ofList (decodeText body)

/-- Tokens divide a source from a byte offset on, each of them up to its own end: before each
token, and behind the last one, is a gap. -/
inductive Divides (source : List Char) : Nat → List Located → List Nat → Nat → Option String →
    Prop where
  | stop {start stop : Nat} {trailing : Option String} {gap : List Char}
      (before : slice? source start stop = some gap) (ends : stop = utf8Size source)
      (isGap : ∃ bodies, Gap [] bodies gap)
      (doc : ∀ bodies, Gap [] bodies gap → trailing = lastDoc bodies) :
      Divides source start [] [] stop trailing
  | token {start behind stop : Nat} {located : Located} {tokens : List Located} {ends : List Nat}
      {trailing : Option String} {gap span : List Char}
      (before : slice? source start located.position = some gap)
      (isGap : ∃ bodies, Gap span bodies gap)
      (doc : ∀ bodies, Gap span bodies gap → located.doc = lastDoc bodies)
      (within : slice? source located.position behind = some span) (nonempty : span ≠ [])
      (written : located.token.WrittenAs span)
      (rest : Divides source behind tokens ends stop trailing) :
      Divides source start (located :: tokens) (behind :: ends) stop trailing

section Gaps
variable {following other text more body : List Char} {bodies others : List (List Char)} {c : Char}

theorem lastDoc_concat (bodies : List (List Char)) (body : List Char) :
    lastDoc (bodies ++ [body]) = documentation (lastDoc bodies) body := by
  unfold documentation
  split
  · simp [lastDoc, docOf?]
  · next plain =>
      have none : docOf? body = none := by
        unfold docOf?
        split
        · next doc => exact absurd rfl (plain doc)
        · rfl
      simp [lastDoc, none]

-- What follows a gap counts only by its first character.
theorem Gap.followedBy (gap : Gap following bodies text) (same : other.head? = following.head?) :
    Gap other bodies text := by
  induction gap with
  | nil => exact .nil
  | blank blank _ ih => exact .blank blank ih
  | line inLine ends _ ih => exact .line inLine (by simpa [List.head?_append, same] using ends) ih
  | block unclosed _ ih => exact .block unclosed ih

theorem Gap.append (gap : Gap (more ++ following) bodies text) (behind : Gap following others more) :
    Gap following (bodies ++ others) (text ++ more) := by
  induction gap with
  | nil => exact behind
  | blank blank _ ih => exact .blank blank ih
  | @line inside text _ inLine ends _ ih =>
      rw [List.cons_append, List.cons_append, List.append_assoc]
      exact .line inLine (by rwa [List.append_assoc]) ih
  | block unclosed _ ih =>
      simp only [List.cons_append, List.append_assoc]
      exact .block unclosed ih

theorem takeWhile_line {inside : List Char} (inLine : '\n' ∉ inside)
    (ends : ∀ d ∈ text.head?, d = '\n') : (inside ++ text).takeWhile (· != '\n') = inside := by
  rw [List.takeWhile_append_of_pos fun d member => by
    simpa using fun same : d = '\n' => inLine (same ▸ member)]
  cases text with
  | nil => simp
  | cons d text => simp [ends d rfl]

-- A gap has its comments in one way only: the first characters of each part tell its kind, and
-- the part ends where it can.
theorem Gap.unique (gap : Gap following bodies text) (gapOther : Gap following others text) :
    bodies = others := by
  have slash : isBlank '/' = false := by decide
  induction gap generalizing others with
  | nil => cases gapOther; rfl
  | blank blank _ ih =>
      cases gapOther with
      | blank _ behind => exact ih behind
      | line | block => cases slash.symm.trans blank
  | @line inside text bodies inLine ends behind ih =>
      generalize written : '/' :: '/' :: (inside ++ text) = whole at gapOther
      cases gapOther with
      | nil => cases written
      | blank blank => cases written; cases slash.symm.trans blank
      | @line insideOther textOther _ inLineOther endsOther behindOther =>
          have same : inside ++ text = insideOther ++ textOther := by simpa using written
          have insideSame : inside = insideOther := by
            rw [← takeWhile_line inLine ends, ← takeWhile_line inLineOther endsOther,
              ← List.append_assoc, ← List.append_assoc, same]
          subst insideSame
          exact ih (List.append_cancel_left same ▸ behindOther)
      | block => cases written
  | @block body text bodies unclosed behind ih =>
      generalize written : '/' :: '*' :: (body ++ '*' :: '/' :: text) = whole at gapOther
      cases gapOther with
      | nil => cases written
      | blank blank => cases written; cases slash.symm.trans blank
      | line => cases written
      | @block bodyOther textOther _ unclosedOther behindOther =>
          have same : body ++ '*' :: '/' :: text = bodyOther ++ '*' :: '/' :: textOther := by
            simpa using written
          have split := splitComment_unclosed unclosed [] text
          rw [same, splitComment_unclosed unclosedOther [] textOther] at split
          simp only [List.reverse_nil, List.nil_append, Option.some.injEq, Prod.mk.injEq] at split
          obtain ⟨rfl, rfl⟩ := split
          rw [ih behindOther]

end Gaps

section Lexemes
variable {c : Char} {front rest : List Char}

theorem gap_of_blank (takes : Takes c front .blank rest) : Gap rest [] (c :: front) := by
  cases takes with
  | blank blank => exact .blank blank .nil
  | @line inside _ slash inLine ends =>
      subst slash
      have gap : Gap rest [] ('/' :: '/' :: (inside ++ [])) := .line inLine ends .nil
      rwa [List.append_nil] at gap

theorem gap_of_comment {body : List Char} (takes : Takes c front (.comment body) rest) :
    Gap rest [body] (c :: front) := by
  cases takes with
  | comment slash unclosed =>
      subst slash
      exact .block unclosed .nil

theorem text_of_ofChar? {mark : Mark} (found : Mark.ofChar? c = some mark) :
    mark.text.toList = [c] := by
  unfold Mark.ofChar? at found
  split at found
  case h_18 => contradiction
  all_goals
    cases found
    rfl

theorem loneToken_writtenAs (c : Char) : (loneToken c).WrittenAs [c] := by
  rw [loneToken]
  cases found : Mark.ofChar? c with
  | none => exact rfl
  | some mark => exact (text_of_ofChar? found).symm

theorem writtenAs_of_takes {token : Token} (takes : Takes c front (.token token) rest) :
    token.WrittenAs (c :: front) := by
  cases takes with
  | quoted quote split => exact ⟨c, _, quote, rfl, split, rfl⟩
  | template quote split => simp [Token.WrittenAs, quote]
  | number | word => exact String.toList_ofList.symm
  | ellipsis dot => rw [dot]; rfl
  | arrow equals => rw [equals]; rfl
  | lone => exact loneToken_writtenAs c

end Lexemes

section Division
variable {source text : List Char} {start position stop : Nat} {seen tokens : List Located}
  {pending trailing : Option String} {ends : List Nat} {stream : TokenStream}

-- By the steps of the lexer. What has been passed over since the last token is a gap, and the
-- documentation that is pending is that of its comments.
theorem divides_of_tokensAfter {gap : List Char} {bodies : List (List Char)}
    (read : tokensAfter seen pending position text = .ok stream)
    (here : sliceFrom? source position = some text)
    (before : slice? source start position = some gap) (isGap : Gap text bodies gap)
    (doc : pending = lastDoc bodies) :
    ∃ tokens ends, stream.tokens = seen.reverse ++ tokens ∧
      Divides source start tokens ends stream.stop stream.trailingDoc := by
  induction seen, pending, position, text using tokensAfter.induct generalizing start gap bodies with
  | case1 seen pending position =>
      cases tokensAfter_nil.symm.trans read
      refine ⟨[], [], (List.append_nil _).symm, .stop before ?_ ⟨bodies, isGap⟩ fun others other => ?_⟩
      · exact Text.size_of_sliceFrom? here
      · rw [doc, isGap.unique other]
  | case2 seen pending position c rest unclosed cuts =>
      cases (tokensAfter_unclosed cuts).symm.trans read
  | case3 seen pending position c rest result cuts _ kind ih =>
      rw [tokensAfter_cons cuts, kind] at read
      obtain ⟨front, rfl, takes, size⟩ := exists_takes cuts
      have passed := Text.slice?_of_sliceFrom? (c :: front) here
      rw [← size] at passed
      have further := isGap.append (gap_of_blank (kind ▸ takes))
      rw [List.append_nil] at further
      exact ih read (sliceFrom?_cut here cuts) (Text.slice?_append before passed) further doc
  | case4 seen pending position c rest result cuts _ body kind ih =>
      rw [tokensAfter_cons cuts, kind] at read
      obtain ⟨front, rfl, takes, size⟩ := exists_takes cuts
      have passed := Text.slice?_of_sliceFrom? (c :: front) here
      rw [← size] at passed
      have further := isGap.append (gap_of_comment (kind ▸ takes))
      refine ih read (sliceFrom?_cut here cuts) (Text.slice?_append before passed) further ?_
      rw [lastDoc_concat, doc]
  | case5 seen pending position c rest result cuts _ token kind ih =>
      rw [tokensAfter_cons cuts, kind] at read
      obtain ⟨front, rfl, takes, size⟩ := exists_takes cuts
      have span := Text.slice?_of_sliceFrom? (c :: front) here
      rw [← size] at span
      have onward := sliceFrom?_cut here cuts
      have none : slice? source (position + result.size) (position + result.size) = some [] :=
        Text.slice?_of_sliceFrom? [] onward
      obtain ⟨tokens, ends, same, divides⟩ := ih read onward none .nil rfl
      have isGap : Gap (c :: front) bodies gap := isGap.followedBy rfl
      refine ⟨⟨token, position, pending⟩ :: tokens, (position + result.size) :: ends, ?_, ?_⟩
      · rw [same, List.reverse_cons, List.append_assoc, List.singleton_append]
      · exact .token before ⟨bodies, isGap⟩ (fun others other => by rw [doc, isGap.unique other]) span
          (List.cons_ne_nil c front) (writtenAs_of_takes (kind ▸ takes)) divides

theorem Divides.stop_eq {source : List Char} (divides : Divides source start tokens ends stop trailing) :
    stop = utf8Size source := by
  induction divides with
  | stop _ ends _ _ => exact ends
  | token _ _ _ _ _ _ _ ih => exact ih

-- Everything that is divided stands between the first offset and the last one.
theorem Divides.within (divides : Divides source start tokens ends stop trailing) :
    start ≤ stop ∧ ∀ token ∈ tokens.zip ends, start ≤ token.1.position ∧
      token.1.position < token.2 ∧ token.2 ≤ stop ∧
      (sliceFrom? source token.1.position).isSome = true ∧
      (sliceFrom? source token.2).isSome = true := by
  induction divides with
  | stop before _ _ _ => exact ⟨(Text.bounds_of_slice? before).1, by simp⟩
  | token before _ _ span nonempty _ _ ih =>
      obtain ⟨first, -, -⟩ := Text.bounds_of_slice? before
      obtain ⟨second, here, behind⟩ := Text.bounds_of_slice? span
      have advances := Text.lt_of_slice? span nonempty
      refine ⟨by omega, List.forall_mem_cons.mpr ⟨⟨first, advances, ih.1, here, behind⟩, ?_⟩⟩
      intro token member
      obtain ⟨after, rest⟩ := ih.2 token member
      exact ⟨by omega, rest⟩

theorem Divides.disjoint (divides : Divides source start tokens ends stop trailing) :
    (tokens.zip ends).Pairwise fun first second => first.2 ≤ second.1.position := by
  induction divides with
  | stop => exact .nil
  | token _ _ _ _ _ _ rest ih =>
      exact List.pairwise_cons.mpr ⟨fun token member => (rest.within.2 token member).1, ih⟩

theorem Divides.length_eq (divides : Divides source start tokens ends stop trailing) :
    tokens.length = ends.length := by
  induction divides with
  | stop => rfl
  | token _ _ _ _ _ _ _ ih => exact congrArg Nat.succ ih

theorem Divides.increasing (divides : Divides source start tokens ends stop trailing) :
    (tokens.map Located.position ++ [stop]).Pairwise (· < ·) := by
  have same : tokens.map Located.position = (tokens.zip ends).map fun token => token.1.position :=
    calc tokens.map Located.position
        = ((tokens.zip ends).map Prod.fst).map Located.position := by
          rw [List.map_fst_zip (Nat.le_of_eq divides.length_eq)]
      _ = _ := List.map_map
  have bounds := divides.within.2
  rw [same, List.pairwise_append, List.pairwise_map]
  refine ⟨divides.disjoint.imp_of_mem ?_, List.pairwise_singleton _ _, ?_⟩
  · intro first second member _ before
    have := bounds first member
    omega
  · intro position member last atEnd
    obtain ⟨token, among, rfl⟩ := List.mem_map.mp member
    cases List.mem_singleton.mp atEnd
    have := bounds token among
    omega

end Division

theorem exists_divides {source : String} {stream : TokenStream}
    (tokenized : tokenize source = .ok stream) : ∃ ends,
      Divides source.toList 0 stream.tokens ends stream.stop stream.trailingDoc := by
  have start : sliceFrom? source.toList 0 = some source.toList :=
    Text.sliceFrom?_eq_some.mpr ⟨[], rfl, rfl⟩
  have none : slice? source.toList 0 0 = some [] := Text.slice?_of_sliceFrom? [] start
  obtain ⟨tokens, ends, same, divides⟩ :=
    divides_of_tokensAfter (tokensAfter_of_tokenize tokenized) start none .nil rfl
  rw [List.reverse_nil, List.nil_append] at same
  exact ⟨ends, same ▸ divides⟩

/-- The tokens of a source that is accepted divide it: their spans, which begin at their offsets
and end where the source has a place between characters, are what is written for them, they
come one behind the other up to the end of the source, and there is nothing but white space
and comments before each of them and behind the last, from which their documentation is. On
every source, accepted or not, each slice that is taken on the way is there. -/
theorem tokenize_divides (source : String) :
    (∀ stream, tokenize source = .ok stream → ∃ ends,
      Divides source.toList 0 stream.tokens ends stream.stop stream.trailingDoc ∧
      stream.stop = source.utf8ByteSize ∧
      (stream.tokens.map Located.position ++ [stream.stop]).Pairwise (· < ·) ∧
      (stream.tokens.zip ends).Pairwise (fun first second => first.2 ≤ second.1.position) ∧
      ∀ token ∈ stream.tokens.zip ends, token.1.position < token.2 ∧ token.2 ≤ stream.stop ∧
        String.Pos.Raw.IsValid source ⟨token.1.position⟩ ∧
        String.Pos.Raw.IsValid source ⟨token.2⟩) ∧
    slicedTokenize source = some (tokenize source) := by
  have start : sliceFrom? source.toList 0 = some source.toList :=
    Text.sliceFrom?_eq_some.mpr ⟨[], rfl, rfl⟩
  constructor
  · intro stream tokenized
    have none : slice? source.toList 0 0 = some [] := Text.slice?_of_sliceFrom? [] start
    obtain ⟨tokens, ends, same, divides⟩ :=
      divides_of_tokensAfter (tokensAfter_of_tokenize tokenized) start none .nil rfl
    rw [List.reverse_nil, List.nil_append] at same
    subst same
    refine ⟨ends, divides, divides.stop_eq.trans (Text.utf8Size_toList source), divides.increasing,
      divides.disjoint, fun token member => ?_⟩
    obtain ⟨-, advances, within, here, behind⟩ := divides.within.2 token member
    exact ⟨advances, within, (Text.isSome_sliceFrom? source _).mp here,
      (Text.isSome_sliceFrom? source _).mp behind⟩
  · rw [slicedTokenize, tokenize]
    split
    · rfl
    · exact slicedAfter_eq [] none start

def sampleDivided : String :=
  "/** é */à1/** a *//**/ // /** b */\n\"\\u0041'\\uq\"/*** c */=>\t`x\\`y`/** d */"

def sampleDividedTokens : List Located :=
  [⟨.word "à1", 9, some " é "⟩, ⟨.quoted "A'uq", 37, some " a "⟩, ⟨.mark .arrow, 58, some "* c "⟩,
    ⟨.template "x\\`y", 61, none⟩]

theorem tokenize_divides_sample :
    tokenize sampleDivided = .ok ⟨sampleDividedTokens, 75, some " d "⟩ ∧
    slicedTokenize sampleDivided = some (.ok ⟨sampleDividedTokens, 75, some " d "⟩) ∧
    (∃ ends, Divides sampleDivided.toList 0 sampleDividedTokens ends 75 (some " d ")) ∧
    sampleDivided.utf8ByteSize = 75 ∧
    slicedTokenize "a \"é" = some (.error (.unterminatedString 2)) := by
  have tokenized : tokenize sampleDivided = .ok ⟨sampleDividedTokens, 75, some " d "⟩ := by
    decide +kernel
  have refused : tokenize "a \"é" = .error (.unterminatedString 2) := by decide +kernel
  obtain ⟨accepted, sliced⟩ := tokenize_divides sampleDivided
  obtain ⟨ends, divides, stop, -⟩ := accepted _ tokenized
  exact ⟨tokenized, sliced.trans (congrArg some tokenized), ⟨ends, divides⟩, stop.symm,
    (tokenize_divides "a \"é").2.trans (congrArg some refused)⟩

end Toggles.Declaration
