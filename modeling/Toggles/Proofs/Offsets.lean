import Toggles.Proofs.Fragments
import Toggles.Proofs.Slices

/-! Cutting a source by byte offsets.

A lexer that only holds an offset into its source takes every character, every comparison and
every body as a slice of the source, and a slice that is out of bounds or begins or ends inside a
character is a fault. The lexer here is of that kind: wherever a slice is not there, it has no
result. It always has one, the tokens of the source or the refusal of it.
-/

set_option autoImplicit false

namespace Toggles.Declaration

open Text (hexDigits? hexValue? isBlank slice? sliceFrom? sliceTo? utf8Size)

/-- Whether a text begins with a mark of several characters, at an offset where a character
stands. The text is compared if the character begins the mark. -/
def begins? (source : List Char) (offset : Nat) (c : Char) (mark : List Char) : Option Bool :=
  if mark.head? = some c then (sliceFrom? source offset).map mark.isPrefixOf else some false

def bytesBefore? (pattern : List Char) : List Char → Option Nat
  | [] => if pattern.isEmpty then some 0 else none
  | c :: rest =>
      if pattern.isPrefixOf (c :: rest) then some 0
      else (bytesBefore? pattern rest).map (c.utf8Size + ·)

def runEnd? (source : List Char) (part : Char → Bool) (offset : Nat) : Option Nat :=
  match here : sliceFrom? source offset with
  | none => none
  | some [] => some offset
  | some (c :: _) =>
      have := Text.lt_of_sliceFrom? here
      if part c then runEnd? source part (offset + c.utf8Size) else some offset
termination_by utf8Size source - offset
decreasing_by
  have := c.utf8Size_pos
  omega

def hexNumber? : List Char → Option Nat
  | [] | ['+'] => none
  | '+' :: digits => hexDigits? digits
  | digits => hexDigits? digits

def numbered? (digits : List Char) : Option Char := do
  let code ← hexNumber? digits
  if code.isValidChar then return Char.ofNat code else none

/-- The character that the four bytes behind `\u` denote, if no character goes beyond them. -/
def escape? (text : List Char) : Option Char :=
  (sliceTo? text 4).bind numbered?

def quotedFrom? (source : List Char) (quote : Char) (seen : List Char) (offset : Nat) :
    Option (Except Unclosed (List Char × Nat)) :=
  match here : sliceFrom? source offset with
  | none => none
  | some [] => some (.error .literal)
  | some (c :: _) =>
      have := Text.lt_of_sliceFrom? here
      if c = quote then some (.ok (seen.reverse, offset + c.utf8Size))
      else if c = '\n' then some (.error .literal)
      else if c = '\\' then
        match sliceFrom? source (offset + c.utf8Size) with
        | none => none
        | some [] => some (.error .literal)
        | some (escaped :: _) =>
            if escaped = 'u' then
              match sliceFrom? source (offset + c.utf8Size + escaped.utf8Size) with
              | none => none
              | some text =>
                  match escape? text with
                  | some decoded => quotedFrom? source quote (decoded :: seen)
                      (offset + c.utf8Size + escaped.utf8Size + 4)
                  | none => quotedFrom? source quote ('u' :: seen)
                      (offset + c.utf8Size + escaped.utf8Size)
            else quotedFrom? source quote (plainEscape escaped :: seen)
              (offset + c.utf8Size + escaped.utf8Size)
      else quotedFrom? source quote (c :: seen) (offset + c.utf8Size)
termination_by utf8Size source - offset
decreasing_by
  all_goals
    have := c.utf8Size_pos
    omega

def templateEnd? (source : List Char) (offset : Nat) : Option (Except Unclosed Nat) :=
  match here : sliceFrom? source offset with
  | none => none
  | some [] => some (.error .literal)
  | some (c :: _) =>
      have := Text.lt_of_sliceFrom? here
      if c = '\x60' then some (.ok offset)
      else if c = '\\' then
        match sliceFrom? source (offset + 1) with
        | none => none
        | some [] => templateEnd? source (offset + 1)
        | some (escaped :: _) => templateEnd? source (offset + 1 + escaped.utf8Size)
      else templateEnd? source (offset + c.utf8Size)
termination_by utf8Size source - offset
decreasing_by
  all_goals
    have := c.utf8Size_pos
    omega

def commentAt? (source : List Char) (start : Nat) : Option (Except Unclosed (Lexeme × Nat)) :=
  (sliceFrom? source (start + 2)).bind fun text =>
    match bytesBefore? ['*', '/'] text with
    | none => some (.error .comment)
    | some length => (slice? source (start + 2) (start + 2 + length)).map fun body =>
        .ok (.comment body, start + 2 + length + 2)

def textAt? (source : List Char) (start : Nat) (quote : Char) :
    Option (Except Unclosed (Lexeme × Nat)) :=
  (quotedFrom? source quote [] (start + quote.utf8Size)).map fun read =>
    read.map fun (decoded, stop) => (.token (.quoted (String.ofList decoded)), stop)

def templateAt? (source : List Char) (start : Nat) : Option (Except Unclosed (Lexeme × Nat)) :=
  (templateEnd? source (start + 1)).bind fun
    | .error unclosed => some (.error unclosed)
    | .ok stop => (slice? source (start + 1) stop).map fun body =>
        .ok (.token (.template (String.ofList body)), stop + 1)

def runAt? (source : List Char) (part : Char → Bool) (token : String → Token) (start : Nat) :
    Option (Except Unclosed (Lexeme × Nat)) :=
  (runEnd? source part start).bind fun stop => (slice? source start stop).map fun run =>
    .ok (.token (token (String.ofList run)), stop)

def lexemeAt? (source : List Char) (start : Nat) (c : Char) :
    Option (Except Unclosed (Lexeme × Nat)) := do
  if isBlank c then return .ok (.blank, start + c.utf8Size)
  else if ← begins? source start c ['/', '/'] then
    return .ok (.blank, ← runEnd? source (· != '\n') start)
  else if ← begins? source start c ['/', '*'] then commentAt? source start
  else if c = '"' || c = '\'' then textAt? source start c
  else if c = '\x60' then templateAt? source start
  else if c.isDigit then runAt? source isNumberPart .number start
  else if isWordStart c then runAt? source isWordPart .word start
  else if ← begins? source start c ['.', '.', '.'] then
    return .ok (.token (.mark .ellipsis), start + 3)
  else if ← begins? source start c ['=', '>'] then return .ok (.token (.mark .arrow), start + 2)
  else return .ok (.token (loneToken c), start + c.utf8Size)

section Slices
variable {source text rest : List Char} {c : Char} {offset : Nat}

theorem sliceFrom?_next (here : sliceFrom? source offset = some (c :: rest)) :
    sliceFrom? source (offset + c.utf8Size) = some rest := by
  simpa [Text.utf8Size_cons] using
    Text.sliceFrom?_behind [c] (here.trans (congrArg some (List.singleton_append).symm))

theorem begins?_eq (here : sliceFrom? source offset = some (c :: rest)) (first : Char)
    (mark : List Char) :
    begins? source offset c (first :: mark) = some ((first :: mark).isPrefixOf (c :: rest)) := by
  rw [begins?, here]
  by_cases same : first = c <;> simp [same, List.isPrefixOf]

theorem isPrefixOf_pair (first second c : Char) (text : List Char) :
    List.isPrefixOf [first, second] (c :: text) = (c = first && text.head? = some second) := by
  cases text with
  | nil => simp [List.isPrefixOf]
  | cons d text =>
      simp [List.isPrefixOf, Bool.beq_eq_decide_eq, eq_comm]

theorem runEnd?_eq (part : Char → Bool) (here : sliceFrom? source offset = some text) :
    runEnd? source part offset = some (offset + utf8Size (text.takeWhile part)) := by
  fun_induction runEnd? source part offset generalizing text with
  | case1 offset missing => cases missing.symm.trans here
  | case2 offset found => cases found.symm.trans here; simp
  | case3 offset c rest found _ inRun ih =>
      cases found.symm.trans here
      rw [ih (sliceFrom?_next found), List.takeWhile_cons_of_pos inRun, Text.utf8Size_cons,
        Nat.add_assoc]
  | case4 offset c rest found _ beyond =>
      cases found.symm.trans here
      rw [List.takeWhile_cons_of_neg beyond, Text.utf8Size_nil, Nat.add_zero]

end Slices

section Escapes
variable {text : List Char} {decoded : Char}

structure IsInner (c : Char) : Prop where
  single : c.utf8Size = 1
  inside : c ∉ ['"', '\'', '\n', '\\']

theorem isInner_of_hexValue? {c : Char} {value : Nat} (digit : hexValue? c = some value) :
    IsInner c := by
  have below : c.val ≤ 127 := by
    unfold hexValue? at digit
    split at digit
    · next range =>
        simp [Char.isDigit, UInt32.le_iff_toNat_le] at range ⊢
        omega
    split at digit
    · next range =>
        simp [Char.le_def, UInt32.le_iff_toNat_le] at range ⊢
        omega
    split at digit
    · next range =>
        simp [Char.le_def, UInt32.le_iff_toNat_le] at range ⊢
        omega
    · contradiction
  refine ⟨Char.utf8Size_eq_one_iff.mpr below, fun among => ?_⟩
  simp only [List.mem_cons, List.not_mem_nil, or_false] at among
  rcases among with rfl | rfl | rfl | rfl <;> cases digit

theorem isInner_of_hexDigits? {digits : List Char} {code : Nat}
    (read : hexDigits? digits = some code) : ∀ c ∈ digits, IsInner c := by
  have onward (start : Nat) (read : digits.foldlM
      (fun value c => (hexValue? c).map (value * 16 + ·)) start = some code) :
      ∀ c ∈ digits, IsInner c := by
    clear * - read
    induction digits generalizing start with
    | nil => exact nofun
    | cons c digits ih =>
        obtain ⟨next, first, rest⟩ := Option.bind_eq_some_iff.mp read
        obtain ⟨value, digit, -⟩ := Option.map_eq_some_iff.mp first
        exact List.forall_mem_cons.mpr ⟨isInner_of_hexValue? digit, ih next rest⟩
  exact onward 0 read

theorem isInner_of_numbered? {digits : List Char} (read : numbered? digits = some decoded) :
    ∀ c ∈ digits, IsInner c := by
  obtain ⟨code, number, -⟩ := Option.bind_eq_some_iff.mp read
  unfold hexNumber? at number
  split at number
  · contradiction
  · contradiction
  · exact List.forall_mem_cons.mpr ⟨⟨by decide, by decide⟩, isInner_of_hexDigits? number⟩
  · exact isInner_of_hexDigits? number

theorem numbered?_four (a b c d : Char) : numbered? [a, b, c, d] = unicodeEscape? a b c d := by
  have number : hexNumber? [a, b, c, d] =
      hexDigits? (if a = '+' then [b, c, d] else [a, b, c, d]) := by
    split
    · next plus => rw [plus, hexNumber?]; exact nofun
    · next other =>
        rw [hexNumber?]
        · exact fun same => nomatch same
        · exact fun same => nomatch same
        · exact fun digits same => other (List.cons.inj same).1
  rw [numbered?, unicodeEscape?, number]

theorem isInner_of_unicodeEscape? {a b c d : Char} (read : unicodeEscape? a b c d = some decoded) :
    ∀ e ∈ [a, b, c, d], IsInner e :=
  isInner_of_numbered? ((numbered?_four a b c d).trans read)

-- Four bytes that denote a character are four characters.
theorem escape?_eq_some : escape? text = some decoded ↔
    ∃ a b c d rest, text = a :: b :: c :: d :: rest ∧ unicodeEscape? a b c d = some decoded := by
  rw [escape?, Option.bind_eq_some_iff]
  constructor
  · rintro ⟨digits, slice, read⟩
    obtain ⟨rest, rfl, size⟩ := Text.sliceTo?_eq_some.mp slice
    have inner := isInner_of_numbered? read
    rw [Text.utf8Size_eq_length fun c member => (inner c member).single] at size
    obtain ⟨a, b, c, d, rfl⟩ := List.length_eq_four.mp size
    exact ⟨a, b, c, d, rest, rfl, (numbered?_four a b c d).symm.trans read⟩
  · rintro ⟨a, b, c, d, rest, rfl, read⟩
    have inner := isInner_of_unicodeEscape? read
    refine ⟨[a, b, c, d], Text.sliceTo?_eq_some.mpr ⟨rest, rfl, ?_⟩, (numbered?_four a b c d).trans read⟩
    exact Text.utf8Size_eq_length fun e member => (inner e member).single

-- A `\u` that denotes no character is the letter, however little follows it.
theorem decodeText_unescaped {body rest : List Char} (none : escape? (body ++ rest) = none) :
    decodeText ('\\' :: 'u' :: body) = 'u' :: decodeText body := by
  rcases body with _ | ⟨a, _ | ⟨b, _ | ⟨c, _ | ⟨d, body⟩⟩⟩⟩
  · rfl
  · rfl
  · rfl
  · rfl
  · have unread : unicodeEscape? a b c d = Option.none := by
      rw [Option.eq_none_iff_forall_ne_some]
      intro decoded read
      cases none.symm.trans (escape?_eq_some.mpr ⟨a, b, c, d, body ++ rest, rfl, read⟩)
    rw [decodeText, unread]

end Escapes

section Literals
variable {source inside text rest seen : List Char} {quote c : Char} {offset : Nat}

/-- What is read of a string literal behind the characters inside of it that have been read so
far, in a text and from an offset. -/
inductive ReadsText (quote : Char) (inside text seen : List Char) (offset : Nat) :
    Except Unclosed (List Char × Nat) → Prop where
  | closed {body rest : List Char}
      (split : splitText quote inside text = some (inside.reverse ++ body, rest)) :
      ReadsText quote inside text seen offset
        (.ok (seen.reverse ++ decodeText body, offset + utf8Size body + quote.utf8Size))
  | opened (split : splitText quote inside text = none) :
      ReadsText quote inside text seen offset (.error .literal)

-- One more character is read when what is written for it stands in front.
theorem ReadsText.behind (written : List Char) (decoded : Char)
    {result : Except Unclosed (List Char × Nat)}
    (passes : splitText quote inside (written ++ text) =
      splitText quote (written.reverse ++ inside) text)
    (decodes : ∀ body rest, text = body ++ quote :: rest →
      decodeText (written ++ body) = decoded :: decodeText body)
    (reads : ReadsText quote (written.reverse ++ inside) text (decoded :: seen)
      (offset + utf8Size written) result) :
    ReadsText quote inside (written ++ text) seen offset result := by
  cases reads with
  | opened split => exact .opened (passes.trans split)
  | @closed body rest split =>
      obtain ⟨after, same, behind, -⟩ := splitText_eq_some split
      have whole : splitText quote inside (written ++ text) =
          some (inside.reverse ++ (written ++ body), rest) := by
        rw [passes, split, List.reverse_append, List.reverse_reverse, List.append_assoc]
      have reads : ReadsText quote inside (written ++ text) seen offset _ := .closed whole
      rw [decodes body rest (List.append_cancel_left same ▸ behind)] at reads
      rw [List.reverse_cons, List.append_assoc, List.singleton_append, Nat.add_assoc offset,
        ← Text.utf8Size_append]
      exact reads

theorem splitText_inner (ends : quote = '"' ∨ quote = '\'') {written : List Char}
    (inner : ∀ c ∈ written, IsInner c) : splitText quote inside (written ++ text) =
      splitText quote (written.reverse ++ inside) text := by
  induction written generalizing inside with
  | nil => rfl
  | cons c written ih =>
      obtain ⟨⟨-, among⟩, inner⟩ := List.forall_mem_cons.mp inner
      simp only [List.mem_cons, List.not_mem_nil, or_false, not_or] at among
      have other : c ≠ quote := by
        rintro rfl
        exact ends.elim among.1 among.2.1
      rw [List.cons_append, splitText.eq_def]
      simp only [other, among, ↓reduceIte, ih inner, List.reverse_cons, List.append_assoc,
        List.singleton_append]

theorem splitText_escape (other : '\\' ≠ quote) (escaped : Char) :
    splitText quote inside ('\\' :: escaped :: text) =
      splitText quote (escaped :: '\\' :: inside) text := by
  rw [splitText.eq_def]
  simp [other]

theorem splitText_plain (other : c ≠ quote) (plain : c ≠ '\n') (unescaped : c ≠ '\\') :
    splitText quote inside (c :: text) = splitText quote (c :: inside) text := by
  rw [splitText.eq_def]
  simp only [other, plain, unescaped, ↓reduceIte]

-- By the cases of the reader: it goes over the characters as the text is split.
theorem quotedFrom?_reads (ends : quote = '"' ∨ quote = '\'')
    (here : sliceFrom? source offset = some text) (inside : List Char) :
    ∃ result, quotedFrom? source quote seen offset = some result ∧
      ReadsText quote inside text seen offset result := by
  fun_induction quotedFrom? source quote seen offset generalizing inside text with
  | case1 seen offset missing => cases missing.symm.trans here
  | case2 seen offset found =>
      cases found.symm.trans here
      exact ⟨_, rfl, .opened rfl⟩
  | case3 seen offset rest found =>
      cases found.symm.trans here
      have split : splitText quote inside (quote :: rest) = some (inside.reverse ++ [], rest) := by
        rw [splitText.eq_def]
        simp
      have reads : ReadsText quote inside (quote :: rest) seen offset _ := .closed split
      exact ⟨_, rfl, by simpa [decodeText] using reads⟩
  | case4 seen offset rest found _ other =>
      cases found.symm.trans here
      exact ⟨_, rfl, .opened (by rw [splitText.eq_def]; simp [other])⟩
  | case5 seen offset rest found _ other _ missing =>
      cases missing.symm.trans (sliceFrom?_next found)
  | case6 seen offset rest found _ other _ last =>
      cases found.symm.trans here
      cases last.symm.trans (sliceFrom?_next found)
      exact ⟨_, rfl, .opened (by rw [splitText.eq_def]; simp [other])⟩
  | case7 seen offset rest after found _ other _ escaped missing =>
      cases missing.symm.trans (sliceFrom?_next escaped)
  | case8 seen offset rest after text decoded read found _ other _ escaped behind ih =>
      cases found.symm.trans here
      cases escaped.symm.trans (sliceFrom?_next found)
      cases behind.symm.trans (sliceFrom?_next escaped)
      obtain ⟨a, b, c, d, text, rfl, denotes⟩ := escape?_eq_some.mp read
      have inner := isInner_of_unicodeEscape? denotes
      have four : utf8Size [a, b, c, d] = 4 :=
        Text.utf8Size_eq_length fun e member => (inner e member).single
      have onward := Text.sliceFrom?_behind [a, b, c, d] behind
      rw [four] at onward
      obtain ⟨result, run, reads⟩ := ih onward ([a, b, c, d].reverse ++ 'u' :: '\\' :: inside)
      refine ⟨result, run, ReadsText.behind ('\\' :: 'u' :: [a, b, c, d]) decoded ?_ ?_ ?_⟩
      · exact (splitText_escape other 'u').trans (splitText_inner ends inner)
      · intro body rest same
        simp [decodeText, denotes]
      · rw [Text.utf8Size_cons, Text.utf8Size_cons, four]
        simpa [Nat.add_assoc] using reads
  | case9 seen offset rest after text unread found _ other _ escaped behind ih =>
      cases found.symm.trans here
      cases escaped.symm.trans (sliceFrom?_next found)
      cases behind.symm.trans (sliceFrom?_next escaped)
      obtain ⟨result, run, reads⟩ := ih behind ('u' :: '\\' :: inside)
      refine ⟨result, run, ReadsText.behind ['\\', 'u'] 'u' ?_ ?_ ?_⟩
      · exact splitText_escape other 'u'
      · rintro body rest rfl
        exact decodeText_unescaped unread
      · simpa [Text.utf8Size_cons, Nat.add_assoc] using reads
  | case10 seen offset rest escaped after letter found _ other _ onward ih =>
      cases found.symm.trans here
      cases onward.symm.trans (sliceFrom?_next found)
      obtain ⟨result, run, reads⟩ := ih (sliceFrom?_next onward) (escaped :: '\\' :: inside)
      refine ⟨result, run, ReadsText.behind ['\\', escaped] (plainEscape escaped) ?_ ?_ ?_⟩
      · exact splitText_escape other escaped
      · rintro body rest rfl
        exact decodeText.eq_2 escaped body fun _ _ _ _ _ isLetter _ => letter isLetter
      · simpa [Text.utf8Size_cons, Nat.add_assoc] using reads
  | case11 seen offset c rest found _ other plain unescaped ih =>
      cases found.symm.trans here
      obtain ⟨result, run, reads⟩ := ih (sliceFrom?_next found) (c :: inside)
      refine ⟨result, run, ReadsText.behind [c] c ?_ ?_ ?_⟩
      · exact splitText_plain other plain unescaped
      · rintro body rest rfl
        exact decodeText.eq_3 c body (fun _ _ _ _ _ same _ => unescaped same)
          fun _ _ same _ => unescaped same
      · simpa [Text.utf8Size_cons, Nat.add_assoc] using reads

inductive ReadsTemplate (inside text : List Char) (offset : Nat) : Except Unclosed Nat → Prop where
  | closed {body rest : List Char}
      (split : splitTemplate inside text = some (inside.reverse ++ body, rest)) :
      ReadsTemplate inside text offset (.ok (offset + utf8Size body))
  | opened (split : splitTemplate inside text = none) :
      ReadsTemplate inside text offset (.error .literal)

theorem ReadsTemplate.behind (written : List Char) {result : Except Unclosed Nat}
    (passes : splitTemplate inside (written ++ text) = splitTemplate (written.reverse ++ inside) text)
    (reads : ReadsTemplate (written.reverse ++ inside) text (offset + utf8Size written) result) :
    ReadsTemplate inside (written ++ text) offset result := by
  cases reads with
  | opened split => exact .opened (passes.trans split)
  | @closed body rest split =>
      have whole : splitTemplate inside (written ++ text) =
          some (inside.reverse ++ (written ++ body), rest) := by
        rw [passes, split, List.reverse_append, List.reverse_reverse, List.append_assoc]
      rw [Nat.add_assoc, ← Text.utf8Size_append]
      exact .closed whole

theorem templateEnd?_reads (here : sliceFrom? source offset = some text) (inside : List Char) :
    ∃ result, templateEnd? source offset = some result ∧
      ReadsTemplate inside text offset result := by
  fun_induction templateEnd? source offset generalizing inside text with
  | case1 offset missing => cases missing.symm.trans here
  | case2 offset found =>
      cases found.symm.trans here
      exact ⟨_, rfl, .opened rfl⟩
  | case3 offset rest found =>
      cases found.symm.trans here
      have split : splitTemplate inside ('\x60' :: rest) = some (inside.reverse ++ [], rest) := by
        rw [splitTemplate, List.append_nil]
      exact ⟨_, rfl, .closed split⟩
  | case4 offset rest missing found => cases missing.symm.trans (sliceFrom?_next found)
  | case5 offset rest last found _ _ ih =>
      cases found.symm.trans here
      cases last.symm.trans (sliceFrom?_next found)
      obtain ⟨result, run, reads⟩ := ih last ('\\' :: inside)
      exact ⟨result, run, .behind ['\\'] rfl reads⟩
  | case6 offset rest escaped after onward found _ _ ih =>
      cases found.symm.trans here
      cases onward.symm.trans (sliceFrom?_next found)
      obtain ⟨result, run, reads⟩ := ih (sliceFrom?_next onward) (escaped :: '\\' :: inside)
      refine ⟨result, run, .behind ['\\', escaped] (splitTemplate.eq_3 inside escaped after) ?_⟩
      rw [Text.utf8Size_cons, Text.utf8Size_cons, Text.utf8Size_nil, ← Nat.add_assoc]
      exact reads
  | case7 offset c rest found _ other unescaped ih =>
      cases found.symm.trans here
      obtain ⟨result, run, reads⟩ := ih (sliceFrom?_next found) (c :: inside)
      refine ⟨result, run, .behind [c] ?_ ?_⟩
      · exact splitTemplate.eq_4 inside c rest other fun _ _ same _ => unescaped same
      · rwa [Text.utf8Size_cons, Text.utf8Size_nil]

-- The end of a comment is found where the comment is split.
theorem bytesBefore?_eq (seen text : List Char) :
    (bytesBefore? ['*', '/'] text).map (utf8Size seen + ·) =
      (splitComment seen text).map fun (body, _) => utf8Size body := by
  fun_induction splitComment seen text with
  | case1 => rfl
  | case2 seen rest => simp [bytesBefore?, Text.utf8Size_reverse]
  | case3 seen c rest other ih =>
      have apart : ¬List.isPrefixOf ['*', '/'] (c :: rest) = true := by
        intro starts
        obtain ⟨tail, same⟩ := List.isPrefixOf_iff_prefix.mp starts
        obtain ⟨star, slash⟩ := List.cons.inj same
        exact other tail star.symm slash.symm
      rw [← ih, bytesBefore?, if_neg apart, Option.map_map]
      refine congrArg (Option.map · _) (funext fun size => ?_)
      simp [Text.utf8Size_cons]
      omega

end Literals

def Cut.lexemeFrom (start : Nat) (result : Cut) : Lexeme × Nat :=
  (result.lexeme, start + result.size)

section Steps
variable {source text rest : List Char} {c : Char} {start : Nat}

theorem commentAt?_eq (here : sliceFrom? source start = some ('/' :: '*' :: text)) :
    commentAt? source start = some ((cutComment text).map (Cut.lexemeFrom start)) := by
  have inside : sliceFrom? source (start + 2) = some text := sliceFrom?_next (sliceFrom?_next here)
  have found := bytesBefore?_eq [] text
  rw [commentAt?, inside, cutComment]
  cases split : splitComment [] text with
  | none =>
      have missing : bytesBefore? ['*', '/'] text = none := by simpa [split] using found
      simp [missing, Except.map]
  | some parts =>
      obtain ⟨body, behind⟩ := parts
      have length : bytesBefore? ['*', '/'] text = some (utf8Size body) := by simpa [split] using found
      obtain ⟨_, rfl, rfl, -⟩ := splitComment_eq_some split
      have slice := Text.slice?_of_sliceFrom? _ inside
      simp only [Option.bind_some, length]
      rw [slice]
      simp only [Option.map_some, Except.map, Cut.lexemeFrom]
      rw [Nat.add_assoc, Nat.add_right_comm, Nat.add_assoc start, Nat.add_comm _ 4]

theorem utf8Size_quote (quote : c = '"' ∨ c = '\'') : c.utf8Size = 1 := by
  rcases quote with rfl | rfl <;> rfl

theorem textAt?_eq (ends : c = '"' ∨ c = '\'') (here : sliceFrom? source start = some (c :: text)) :
    textAt? source start c = some ((cutText c text).map (Cut.lexemeFrom start)) := by
  obtain ⟨result, run, reads⟩ := quotedFrom?_reads ends (sliceFrom?_next here) []
  rw [textAt?, run, cutText]
  cases reads with
  | opened split => rw [split]; rfl
  | closed split =>
      rw [split]
      simp [Except.map, Cut.lexemeFrom, utf8Size_quote ends]
      omega

theorem templateAt?_eq (here : sliceFrom? source start = some ('\x60' :: text)) :
    templateAt? source start = some ((cutTemplate text).map (Cut.lexemeFrom start)) := by
  have inside : sliceFrom? source (start + 1) = some text := sliceFrom?_next here
  obtain ⟨result, run, reads⟩ := templateEnd?_reads inside []
  rw [templateAt?, run, cutTemplate]
  cases reads with
  | opened split => rw [split]; rfl
  | @closed body rest split =>
      obtain ⟨_, same, rfl, -⟩ := splitTemplate_eq_some split
      cases List.append_cancel_left same
      have slice := Text.slice?_of_sliceFrom? _ inside
      rw [split]
      simp only [Option.bind_some, slice, Option.map_some, Except.map, Cut.lexemeFrom, List.reverse_nil,
        List.nil_append]
      rw [Nat.add_right_comm start 1, Nat.add_assoc _ 1, Nat.add_assoc]

theorem runAt?_eq {part : Char → Bool} (first : part c = true) (token : String → Token)
    (here : sliceFrom? source start = some (c :: rest)) :
    runAt? source part token start = some (.ok ((cutRun part token c rest).lexemeFrom start)) := by
  have stop := runEnd?_eq part here
  rw [List.takeWhile_cons_of_pos first] at stop
  have divided : c :: rest = (c :: rest.takeWhile part) ++ rest.dropWhile part := by simp
  have slice := Text.slice?_of_sliceFrom? _ (here.trans (congrArg some divided))
  rw [runAt?, stop, Option.bind_some, slice]
  rfl

theorem isWordPart_of_isWordStart (first : isWordStart c = true) : isWordPart c = true := by
  simp only [isWordStart, isWordPart, Bool.or_eq_true] at first ⊢
  refine first.imp id fun letter => ?_
  unfold Text.isLetter at letter
  unfold Text.isLetterOrNumeral
  split at letter
  · next ascii => simp [ascii, Char.isAlphanum, letter]
  · next beyond => simp [beyond, letter]

-- A step by offsets cuts what a step cuts off the text.
theorem lexemeAt?_eq (here : sliceFrom? source start = some (c :: rest)) :
    lexemeAt? source start c = some ((cut c rest).map (Cut.lexemeFrom start)) := by
  simp only [lexemeAt?, begins?_eq here, Option.bind_eq_bind, Option.bind_some, isPrefixOf_pair, cut,
    apply_ite (Except.map (Cut.lexemeFrom start)), apply_ite some]
  -- Both sides ask the same questions in the same order up to the marks.
  refine ite_congr rfl (fun _ => rfl) fun _ => ite_congr rfl (fun line => ?line) fun _ =>
    ite_congr rfl (fun block => ?block) fun _ => ite_congr rfl (fun quote => ?quote) fun _ =>
    ite_congr rfl (fun template => ?template) fun _ => ite_congr rfl (fun digit => ?digit) fun _ =>
    ite_congr rfl (fun first => ?word) fun _ => ?marks
  case line =>
    simp only [Bool.and_eq_true, decide_eq_true_eq] at line
    have inLine : (c :: rest).takeWhile (· != '\n') = c :: rest.takeWhile (· != '\n') :=
      List.takeWhile_cons_of_pos (by rw [line.1]; rfl)
    rw [runEnd?_eq _ here, inLine]
    rfl
  case block =>
    simp only [Bool.and_eq_true, decide_eq_true_eq, List.head?_eq_some_iff] at block
    obtain ⟨rfl, text, rfl⟩ := block
    exact commentAt?_eq here
  case quote => exact textAt?_eq (by simpa using quote) here
  case template =>
    subst template
    exact templateAt?_eq here
  case digit => exact runAt?_eq (by simp [isNumberPart, Char.isAlphanum, digit]) .number here
  case word => exact runAt?_eq (isWordPart_of_isWordStart first) .word here
  case marks =>
    split
    · next dots =>
        obtain ⟨tail, same⟩ := List.isPrefixOf_iff_prefix.mp dots
        cases same
        rfl
    next noDots =>
    split
    · next arrow =>
        simp only [Bool.and_eq_true, decide_eq_true_eq, List.head?_eq_some_iff] at arrow
        obtain ⟨rfl, text, rfl⟩ := arrow
        rfl
    next noArrow =>
    rw [cutMark_lone]
    · rfl
    · rintro rfl twice
      refine noDots (List.isPrefixOf_iff_prefix.mpr ⟨rest.drop 2, ?_⟩)
      rw [← List.take_append_drop 2 rest, twice]
      rfl
    · rintro rfl d first rfl
      exact noArrow (by simpa using first)

theorem size_cutRun (part : Char → Bool) (token : String → Token) (c : Char) (text : List Char) :
    (cutRun part token c text).size + utf8Size (cutRun part token c text).rest =
      utf8Size (c :: text) := by
  simp [cutRun, ← Text.utf8Size_append]

theorem size_cutMark (c : Char) (text : List Char) :
    (cutMark c text).size + utf8Size (cutMark c text).rest = utf8Size (c :: text) := by
  unfold cutMark
  split
  · next tail =>
      have dot : '.'.utf8Size = 1 := rfl
      simp only [Text.utf8Size_cons, dot]
      omega
  · next tail =>
      have equals : '='.utf8Size = 1 := rfl
      have angle : '>'.utf8Size = 1 := rfl
      simp only [Text.utf8Size_cons, equals, angle]
      omega
  · split <;> exact (Text.utf8Size_cons c text).symm

-- A cut counts the bytes that it takes.
theorem size_of_cut {result : Cut} (cuts : cut c text = .ok result) :
    result.size + utf8Size result.rest = utf8Size (c :: text) := by
  unfold cut at cuts
  split_ifs at cuts with blank line block quote template digit first
  · cases cuts
    exact (Text.utf8Size_cons c text).symm
  · cases cuts
    rw [← Text.utf8Size_append, List.cons_append, List.takeWhile_append_dropWhile]
  · simp only [Bool.and_eq_true, decide_eq_true_eq, List.head?_eq_some_iff] at block
    obtain ⟨rfl, text, rfl⟩ := block
    unfold cutComment at cuts
    split at cuts
    · contradiction
    · next split =>
        cases cuts
        obtain ⟨_, rfl, rfl, -⟩ := splitComment_eq_some split
        have slash : '/'.utf8Size = 1 := rfl
        have star : '*'.utf8Size = 1 := rfl
        simp [Text.utf8Size_cons, slash, star]
        omega
  · unfold cutText at cuts
    split at cuts
    · contradiction
    · next split =>
        cases cuts
        obtain ⟨_, rfl, rfl, -⟩ := splitText_eq_some split
        have single := utf8Size_quote (by simpa using quote)
        simp [Text.utf8Size_cons, single]
        omega
  · unfold cutTemplate at cuts
    split at cuts
    · contradiction
    · next split =>
        cases cuts
        obtain ⟨_, rfl, rfl, -⟩ := splitTemplate_eq_some split
        have single : '\x60'.utf8Size = 1 := rfl
        simp [template, Text.utf8Size_cons, single]
        omega
  · cases cuts
    exact size_cutRun isNumberPart .number c text
  · cases cuts
    exact size_cutRun isWordPart .word c text
  · cases cuts
    exact size_cutMark c text

theorem exists_takes {result : Cut} (cuts : cut c text = .ok result) :
    ∃ front, text = front ++ result.rest ∧ Takes c front result.lexeme result.rest ∧
      result.size = utf8Size (c :: front) := by
  obtain ⟨front, rfl, takes⟩ := takes_of_cut cuts
  have size := size_of_cut cuts
  rw [← List.cons_append, Text.utf8Size_append, Nat.add_right_cancel_iff] at size
  exact ⟨front, rfl, takes, size⟩

theorem sliceFrom?_cut {result : Cut} (here : sliceFrom? source start = some (c :: text))
    (cuts : cut c text = .ok result) :
    sliceFrom? source (start + result.size) = some result.rest := by
  obtain ⟨front, rfl, -, size⟩ := exists_takes cuts
  rw [size]
  exact Text.sliceFrom?_behind (c :: front) here

-- A step goes on, but not beyond the end.
theorem lexemeAt?_advances {lexeme : Lexeme} {next : Nat}
    (here : sliceFrom? source start = some (c :: text))
    (step : lexemeAt? source start c = some (.ok (lexeme, next))) :
    start < next ∧ next ≤ utf8Size source := by
  rw [lexemeAt?_eq here] at step
  cases cuts : cut c text with
  | error unclosed => rw [cuts] at step; cases step
  | ok result =>
      rw [cuts] at step
      cases step
      obtain ⟨front, -, -, size⟩ := exists_takes cuts
      have positive : 0 < result.size := size ▸ Text.utf8Size_pos (List.cons_ne_nil c front)
      have within := Text.size_of_sliceFrom? (sliceFrom?_cut here cuts)
      omega

end Steps

def slicedAfter (source : List Char) (seen : List Located) (pending : Option String) (offset : Nat) :
    Option (Except SourceError TokenStream) :=
  match here : sliceFrom? source offset with
  | none => none
  | some [] => some (.ok ⟨seen.reverse, offset, pending⟩)
  | some (c :: _) =>
      match step : lexemeAt? source offset c with
      | none => none
      | some (.error unclosed) => some (.error (unclosed.toError offset))
      | some (.ok (lexeme, next)) =>
          have := lexemeAt?_advances here step
          match lexeme with
          | .blank => slicedAfter source seen pending next
          | .comment body => slicedAfter source seen (documentation pending body) next
          | .token token => slicedAfter source (⟨token, offset, pending⟩ :: seen) none next
termination_by utf8Size source - offset
decreasing_by all_goals omega

/-- The tokens of a source, each slice of which is taken by its offsets. There are none if a slice
is out of bounds or begins or ends inside a character. -/
def slicedTokenize (source : String) : Option (Except SourceError TokenStream) :=
  if maximumSourceSize < source.utf8ByteSize then
    some (.error (.inputTooLarge maximumSourceSize source.utf8ByteSize))
  else slicedAfter source.toList [] none 0

section Streams
variable {source text rest : List Char} {seen : List Located} {pending : Option String} {c : Char}
  {offset : Nat}

theorem slicedAfter_nil (here : sliceFrom? source offset = some []) :
    slicedAfter source seen pending offset = some (.ok ⟨seen.reverse, offset, pending⟩) := by
  rw [slicedAfter.eq_def]
  split
  · next missing => cases missing.symm.trans here
  · rfl
  · next found => cases found.symm.trans here

theorem slicedAfter_unclosed {unclosed : Unclosed} (here : sliceFrom? source offset = some (c :: rest))
    (step : lexemeAt? source offset c = some (.error unclosed)) :
    slicedAfter source seen pending offset = some (.error (unclosed.toError offset)) := by
  rw [slicedAfter.eq_def]
  split
  · next missing => cases missing.symm.trans here
  · next found => cases found.symm.trans here
  · next found =>
      cases found.symm.trans here
      split
      · next same => cases same.symm.trans step
      · next same => cases same.symm.trans step; rfl
      · next same => cases same.symm.trans step

theorem slicedAfter_cons {lexeme : Lexeme} {next : Nat}
    (here : sliceFrom? source offset = some (c :: rest))
    (step : lexemeAt? source offset c = some (.ok (lexeme, next))) :
    slicedAfter source seen pending offset =
      match lexeme with
      | .blank => slicedAfter source seen pending next
      | .comment body => slicedAfter source seen (documentation pending body) next
      | .token token => slicedAfter source (⟨token, offset, pending⟩ :: seen) none next := by
  rw [slicedAfter.eq_def]
  split
  · next missing => cases missing.symm.trans here
  · next found => cases found.symm.trans here
  · next found =>
      cases found.symm.trans here
      split
      · next same => cases same.symm.trans step
      · next same => cases same.symm.trans step
      · next same =>
          cases same.symm.trans step
          cases lexeme <;> rfl

-- By the steps of the lexer on the text, each of which is a step by offsets.
theorem slicedAfter_eq (seen : List Located) (pending : Option String)
    (here : sliceFrom? source offset = some text) :
    slicedAfter source seen pending offset = some (tokensAfter seen pending offset text) := by
  induction seen, pending, offset, text using tokensAfter.induct with
  | case1 seen pending offset => rw [slicedAfter_nil here, tokensAfter_nil]
  | case2 seen pending offset c rest unclosed cuts =>
      have step := lexemeAt?_eq here
      rw [cuts] at step
      rw [slicedAfter_unclosed here step, tokensAfter_unclosed cuts]
  | case3 seen pending offset c rest result cuts _ kind ih
  | case4 seen pending offset c rest result cuts _ body kind ih
  | case5 seen pending offset c rest result cuts _ token kind ih =>
      have step := lexemeAt?_eq here
      rw [cuts, Except.map, Cut.lexemeFrom, kind] at step
      rw [slicedAfter_cons here step, tokensAfter_cons cuts, kind]
      exact ih (sliceFrom?_cut here cuts)

end Streams

end Toggles.Declaration
