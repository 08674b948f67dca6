import Toggles.Proofs.Offsets

/-! What string literals denote.

The body of a literal is a row of characters and escapes, and it denotes one character for each
of them. An escape of four hexadecimal digits is told apart from a lone `\u` by the four
characters behind it, so the reader takes what it need not take where a sign stands among them.
-/

set_option autoImplicit false

namespace Toggles.Declaration

open Text (hexDigits? hexValue? sliceFrom? utf8Size)

section Bodies
variable {quote : Char} {body more seen rest : List Char}

/-- What can stand between two quotes: neither of them, no line break, and behind each
backslash the character that it escapes. -/
inductive LiteralBody (quote : Char) : List Char → Prop where
  | nil : LiteralBody quote []
  | plain {c : Char} {body : List Char} (other : c ∉ [quote, '\n', '\\'])
      (rest : LiteralBody quote body) : LiteralBody quote (c :: body)
  | escape {c : Char} {body : List Char} (rest : LiteralBody quote body) :
      LiteralBody quote ('\\' :: c :: body)

theorem LiteralBody.append (literal : LiteralBody quote body) (behind : LiteralBody quote more) :
    LiteralBody quote (body ++ more) := by
  induction literal with
  | nil => exact behind
  | plain other _ ih => exact .plain other ih
  | escape _ ih => exact .escape ih

theorem LiteralBody.split (literal : LiteralBody quote body) (other : '\\' ≠ quote) :
    splitText quote seen (body ++ quote :: rest) = some (seen.reverse ++ body, rest) := by
  induction literal generalizing seen with
  | nil => rw [List.nil_append, splitText.eq_def]; simp
  | plain inside _ ih =>
      simp only [List.mem_cons, List.not_mem_nil, or_false, not_or] at inside
      obtain ⟨open_, inLine, unescaped⟩ := inside
      rw [List.cons_append, splitText_plain open_ inLine unescaped, ih]
      simp
  | escape _ ih =>
      rw [List.cons_append, List.cons_append, splitText_escape other, ih]
      simp

theorem literalBody_of_split {text : List Char}
    (split : splitText quote seen text = some (seen.reverse ++ body, rest)) :
    LiteralBody quote body := by
  fun_induction splitText quote seen text generalizing body with
  | case1 | case3 | case4 => contradiction
  | case2 seen after =>
      obtain ⟨same, -⟩ := Prod.mk.inj (Option.some.inj split)
      cases List.append_right_eq_self.mp same.symm
      exact .nil
  | case5 seen escaped after other inLine ih =>
      obtain ⟨inside, same, -, -⟩ := splitText_eq_some split
      rw [List.reverse_cons, List.reverse_cons, List.append_assoc, List.append_assoc] at same
      cases List.append_cancel_left same
      exact .escape (ih (by simpa using split))
  | case6 seen c after other inLine unescaped ih =>
      obtain ⟨inside, same, -, -⟩ := splitText_eq_some split
      rw [List.reverse_cons, List.append_assoc] at same
      cases List.append_cancel_left same
      exact .plain (by simp [other, inLine, unescaped]) (ih (by simpa using split))

theorem LiteralBody.behind (front : List Char) (unescaped : '\\' ∉ front)
    (literal : LiteralBody quote (front ++ body)) : LiteralBody quote body := by
  induction front with
  | nil => exact literal
  | cons c front ih =>
      rw [List.mem_cons, not_or] at unescaped
      refine ih unescaped.2 ?_
      rw [List.cons_append] at literal
      generalize front ++ body = behind at literal ⊢
      cases literal with
      | plain _ rest => exact rest
      | escape => exact absurd rfl unescaped.1

end Bodies

section Denotations
variable {quote decoded : Char} {digits body text other rest : List Char} {code : Nat}

def FourDigits (digits : List Char) (decoded : Char) : Prop :=
  digits.length = 4 ∧ ∃ code, hexDigits? digits = some code ∧ code.isValidChar ∧
    decoded = Char.ofNat code

/-- What a body denotes. A `\u` is the letter where no four digits behind it are the number of
a character, and what stands behind the letter is then read like anything else. -/
inductive Denotes : List Char → List Char → Prop where
  | nil : Denotes [] []
  | plain {c : Char} {body text : List Char} (unescaped : c ≠ '\\') (rest : Denotes body text) :
      Denotes (c :: body) (c :: text)
  | escape {c : Char} {body text : List Char} (other : c ≠ 'u') (rest : Denotes body text) :
      Denotes ('\\' :: c :: body) (plainEscape c :: text)
  | number {decoded : Char} {digits body text : List Char} (four : FourDigits digits decoded)
      (rest : Denotes body text) : Denotes ('\\' :: 'u' :: (digits ++ body)) (decoded :: text)
  | letter {body text : List Char} (none : ∀ digits decoded, FourDigits digits decoded →
      ¬digits <+: body) (rest : Denotes body text) : Denotes ('\\' :: 'u' :: body) ('u' :: text)

theorem FourDigits.ne_plus {c : Char} (four : FourDigits (c :: digits) decoded) : c ≠ '+' := by
  rintro rfl
  obtain ⟨-, code, read, -⟩ := four
  cases read

theorem FourDigits.not_prefix_plus (four : FourDigits digits decoded) : ¬digits <+: '+' :: body := by
  intro begins
  obtain ⟨a, b, c, d, rfl⟩ := List.length_eq_four.mp four.1
  exact four.ne_plus (List.cons_prefix_cons.mp begins).1

theorem FourDigits.eq (four : FourDigits digits decoded) {digitsOther : List Char}
    {decodedOther : Char} (fourOther : FourDigits digitsOther decodedOther)
    (same : digits ++ body = digitsOther ++ rest) : decoded = decodedOther ∧ body = rest := by
  obtain ⟨rfl, rfl⟩ := List.append_inj same (four.1.trans fourOther.1.symm)
  obtain ⟨_, code, read, _, rfl⟩ := four
  obtain ⟨_, _, readOther, _, rfl⟩ := fourOther
  cases read.symm.trans readOther
  exact ⟨rfl, rfl⟩

/-- What stands behind `\u` is a number, or the letter stands for itself. -/
theorem Denotes.behind_u (denotes : Denotes ('\\' :: 'u' :: body) text) :
    (∃ digits decoded behind more, FourDigits digits decoded ∧ body = digits ++ behind ∧
      text = decoded :: more ∧ Denotes behind more) ∨
    (∀ digits decoded, FourDigits digits decoded → ¬digits <+: body) ∧
      ∃ more, text = 'u' :: more ∧ Denotes body more := by
  generalize written : '\\' :: 'u' :: body = whole at denotes
  cases denotes with
  | nil => cases written
  | plain unescaped => cases written; contradiction
  | escape notLetter => cases written; contradiction
  | number four behind => cases written; exact .inl ⟨_, _, _, _, four, rfl, rfl, behind⟩
  | letter none behind => cases written; exact .inr ⟨none, _, rfl, behind⟩

theorem Denotes.behind (front : List Char) (unescaped : '\\' ∉ front)
    (denotes : Denotes (front ++ body) text) : ∃ more, text = front ++ more ∧ Denotes body more := by
  induction front generalizing text with
  | nil => exact ⟨text, rfl, denotes⟩
  | cons c front ih =>
      rw [List.mem_cons, not_or] at unescaped
      rw [List.cons_append] at denotes
      generalize onward : front ++ body = behind at denotes
      cases denotes with
      | plain _ rest =>
          obtain ⟨more, rfl, denotes⟩ := ih unescaped.2 (onward ▸ rest)
          exact ⟨more, rfl, denotes⟩
      | escape | number | letter => exact absurd rfl unescaped.1

theorem Denotes.append (front : List Char) (unescaped : '\\' ∉ front) (denotes : Denotes body text) :
    Denotes (front ++ body) (front ++ text) := by
  induction front with
  | nil => exact denotes
  | cons c front ih =>
      rw [List.mem_cons, not_or] at unescaped
      exact .plain (Ne.symm unescaped.1) (ih unescaped.2)

theorem Denotes.unique (denotes : Denotes body text) (denotesOther : Denotes body other) :
    text = other := by
  induction denotes generalizing other with
  | nil => cases denotesOther; rfl
  | @plain c body _ unescaped _ ih =>
      obtain ⟨more, rfl, rest⟩ :=
        denotesOther.behind [c] (by simpa using Ne.symm unescaped)
      rw [List.singleton_append, ih rest]
  | escape notLetter _ ih =>
      cases denotesOther with
      | plain unescaped => contradiction
      | escape _ rest => rw [ih rest]
      | number | letter => contradiction
  | number four _ ih =>
      rcases denotesOther.behind_u with ⟨_, _, _, _, fourOther, same, rfl, rest⟩ | ⟨none, -⟩
      · obtain ⟨rfl, rfl⟩ := four.eq fourOther same
        rw [ih rest]
      · exact absurd (List.prefix_append _ _) (none _ _ four)
  | letter none _ ih =>
      rcases denotesOther.behind_u with ⟨_, _, _, _, four, rfl, -⟩ | ⟨-, _, rfl, rest⟩
      · exact absurd (List.prefix_append _ _) (none _ _ four)
      · rw [ih rest]

/-- A body with a zero in place of each plus sign that stands between `\u` and three
hexadecimal digits. -/
def unsigned : List Char → List Char
  | '\\' :: 'u' :: '+' :: b :: c :: d :: body =>
      if (hexDigits? [b, c, d]).isSome then '\\' :: 'u' :: '0' :: b :: c :: d :: unsigned body
      else '\\' :: 'u' :: unsigned ('+' :: b :: c :: d :: body)
  | '\\' :: c :: body => '\\' :: c :: unsigned body
  | c :: body => c :: unsigned body
  | [] => []

theorem unsigned_plain {c : Char} (unescaped : c ≠ '\\') :
    unsigned (c :: body) = c :: unsigned body :=
  unsigned.eq_3 c body (fun _ _ _ _ same _ => unescaped same) fun _ _ same _ => unescaped same

theorem unsigned_escape {c : Char} (other : c ≠ 'u') :
    unsigned ('\\' :: c :: body) = '\\' :: c :: unsigned body :=
  unsigned.eq_2 c body fun _ _ _ _ same _ => other same

theorem unsigned_letter (unread : ∀ b c d rest, body = '+' :: b :: c :: d :: rest →
    hexDigits? [b, c, d] = none) :
    unsigned ('\\' :: 'u' :: body) = '\\' :: 'u' :: unsigned body := by
  rw [unsigned.eq_def]
  split
  · next same =>
      cases same
      rw [unread _ _ _ _ rfl]
      simp
  · next same => cases same; rfl
  · next unescaped same => cases same; exact absurd rfl (unescaped 'u' body rfl)
  · next same => cases same

theorem unescaped_of_inner (inner : ∀ c ∈ digits, IsInner c) : '\\' ∉ digits :=
  fun member => (inner _ member).inside (by simp)

theorem unsigned_append (front : List Char) (unescaped : '\\' ∉ front) :
    unsigned (front ++ body) = front ++ unsigned body := by
  induction front with
  | nil => rfl
  | cons c front ih =>
      rw [List.mem_cons, not_or] at unescaped
      rw [List.cons_append, unsigned_plain (Ne.symm unescaped.1), ih unescaped.2, List.cons_append]

theorem head?_unsigned (body : List Char) : (unsigned body).head? = body.head? := by
  rw [unsigned.eq_def]
  split
  · split <;> rfl
  all_goals rfl

-- No digits come in where there were none.
theorem prefix_of_unsigned (unescaped : '\\' ∉ digits) (begins : digits <+: unsigned body) :
    digits <+: body := by
  induction digits generalizing body with
  | nil => exact List.nil_prefix
  | cons c digits ih =>
      rw [List.mem_cons, not_or] at unescaped
      have first : body.head? = some c := by
        obtain ⟨more, same⟩ := begins
        rw [← head?_unsigned, ← same]
        rfl
      obtain ⟨body, rfl⟩ := List.head?_eq_some_iff.mp first
      rw [unsigned_plain (Ne.symm unescaped.1), List.cons_prefix_cons] at begins
      exact List.cons_prefix_cons.mpr ⟨rfl, ih unescaped.2 begins.2⟩

theorem FourDigits.unescaped (four : FourDigits digits decoded) : '\\' ∉ digits := by
  obtain ⟨-, code, read, -⟩ := four
  exact unescaped_of_inner (isInner_of_hexDigits? read)

theorem lt_of_hexValue? {c : Char} {value : Nat} (digit : hexValue? c = some value) : value < 16 := by
  unfold hexValue? at digit
  split at digit
  · next range =>
      simp [Char.isDigit, UInt32.le_iff_toNat_le] at range digit
      omega
  split at digit
  · next range =>
      simp [Char.le_def, UInt32.le_iff_toNat_le] at range digit
      omega
  split at digit
  · next range =>
      simp [Char.le_def, UInt32.le_iff_toNat_le] at range digit
      omega
  · contradiction

-- The characters that are taken are four digits when a zero stands for a sign before them.
theorem unicodeEscape?_eq_some {a b c d : Char} : unicodeEscape? a b c d = some decoded ↔
    FourDigits [if a = '+' then '0' else a, b, c, d] decoded := by
  have number : hexDigits? (if a = '+' then [b, c, d] else [a, b, c, d]) =
      hexDigits? [if a = '+' then '0' else a, b, c, d] := by
    split <;> rfl
  rw [unicodeEscape?, number, FourDigits]
  simp only [Option.bind_eq_bind, Option.bind_eq_some_iff, List.length_cons, List.length_nil,
    true_and]
  refine exists_congr fun code => and_congr_right fun _ => ?_
  by_cases valid : code.isValidChar
  · rw [if_pos valid, ← Option.some_inj (a := decoded)]
    simp [valid, eq_comm]
  · rw [if_neg valid]
    simp [valid]

theorem lt_of_hexDigits? (read : hexDigits? digits = some code) :
    code < Nat.pow 16 digits.length := by
  have onward (start : Nat) (read : digits.foldlM
      (fun value c => (hexValue? c).map (value * 16 + ·)) start = some code) :
      code < (start + 1) * Nat.pow 16 digits.length := by
    clear * - read
    induction digits generalizing start with
    | nil => cases read; simp
    | cons c digits ih =>
        obtain ⟨next, first, rest⟩ := Option.bind_eq_some_iff.mp read
        obtain ⟨value, digit, rfl⟩ := Option.map_eq_some_iff.mp first
        have small := lt_of_hexValue? digit
        calc code < (start * 16 + value + 1) * Nat.pow 16 digits.length := ih _ rest
          _ ≤ ((start + 1) * 16) * Nat.pow 16 digits.length := Nat.mul_le_mul_right _ (by omega)
          _ = (start + 1) * Nat.pow 16 (c :: digits).length := by
            rw [List.length_cons, Nat.pow_eq, Nat.pow_eq, Nat.pow_succ', Nat.mul_assoc]
  simpa using onward 0 read

-- Three digits are always the number of a character.
theorem isSome_hexDigits?_iff {b c d : Char} : (hexDigits? [b, c, d]).isSome ↔
    ∃ decoded, unicodeEscape? '+' b c d = some decoded := by
  constructor
  · intro read
    obtain ⟨code, read⟩ := Option.isSome_iff_exists.mp read
    have small : code < 4096 := by simpa using lt_of_hexDigits? read
    have valid : code.isValidChar := .inl (by omega)
    refine ⟨Char.ofNat code, ?_⟩
    rw [unicodeEscape?, if_pos rfl, read]
    exact if_pos valid
  · rintro ⟨decoded, read⟩
    obtain ⟨code, read, -⟩ := Option.bind_eq_some_iff.mp read
    exact Option.isSome_of_eq_some read

end Denotations

section Decoding
variable {quote : Char} {body text : List Char}

inductive Decodes : List Char → List Char → Prop where
  | nil : Decodes [] []
  | plain {c : Char} {body text : List Char} (unescaped : c ≠ '\\') (rest : Decodes body text) :
      Decodes (c :: body) (c :: text)
  | escape {c : Char} {body text : List Char} (other : c ≠ 'u') (rest : Decodes body text) :
      Decodes ('\\' :: c :: body) (plainEscape c :: text)
  | number {a b c d decoded : Char} {body text : List Char}
      (read : unicodeEscape? a b c d = some decoded) (rest : Decodes body text) :
      Decodes ('\\' :: 'u' :: a :: b :: c :: d :: body) (decoded :: text)
  | letter {body text : List Char} (unread : escape? body = none) (rest : Decodes body text) :
      Decodes ('\\' :: 'u' :: body) ('u' :: text)

-- By the length of the body, for six characters may be taken at once.
theorem LiteralBody.decodes (literal : LiteralBody quote body) : Decodes body (decodeText body) := by
  generalize size : body.length = length
  induction length using Nat.strongRecOn generalizing body with
  | ind length ih =>
      have shorter (other : List Char) (literal : LiteralBody quote other)
          (less : other.length < body.length) : Decodes other (decodeText other) :=
        ih other.length (size ▸ less) literal rfl
      cases literal with
      | nil => exact .nil
      | @plain c body other rest =>
          simp only [List.mem_cons, List.not_mem_nil, or_false, not_or] at other
          rw [decodeText.eq_3 c body (fun _ _ _ _ _ same _ => other.2.2 same)
            fun _ _ same _ => other.2.2 same]
          exact .plain other.2.2 (shorter body rest (by simp))
      | @escape c body rest =>
          have behind := shorter body rest (by simp only [List.length_cons]; omega)
          by_cases isLetter : c = 'u'
          · subst isLetter
            cases read : escape? body with
            | none =>
                rw [decodeText_unescaped ((List.append_nil body).symm ▸ read)]
                exact .letter read behind
            | some decoded =>
                obtain ⟨a, b, c, d, body, rfl, denotes⟩ := escape?_eq_some.mp read
                have unescaped := unescaped_of_inner (isInner_of_unicodeEscape? denotes)
                have rest : LiteralBody quote body := rest.behind [a, b, c, d] unescaped
                rw [decodeText, denotes]
                exact .number denotes (shorter body rest (by simp only [List.length_cons]; omega))
          · rw [decodeText.eq_2 c body fun _ _ _ _ _ same _ => isLetter same]
            exact .escape isLetter behind

theorem unsigned_number {a b c d decoded : Char} (read : unicodeEscape? a b c d = some decoded) :
    unsigned ('\\' :: 'u' :: a :: b :: c :: d :: body) =
      '\\' :: 'u' :: ([if a = '+' then '0' else a, b, c, d] ++ unsigned body) := by
  by_cases plus : a = '+'
  · subst plus
    rw [unsigned, if_pos (isSome_hexDigits?_iff.mpr ⟨decoded, read⟩)]
    rfl
  · have unescaped := unescaped_of_inner (isInner_of_unicodeEscape? read)
    rw [if_neg plus, ← unsigned_append [a, b, c, d] unescaped]
    exact unsigned_letter fun _ _ _ _ same => absurd (List.cons.inj same).1 plus

theorem not_fourDigits_of_unread {digits : List Char} {decoded : Char}
    (unread : escape? body = none) (four : FourDigits digits decoded) : ¬digits <+: body := by
  rintro ⟨rest, rfl⟩
  obtain ⟨a, b, c, d, rfl⟩ := List.length_eq_four.mp four.1
  have other : a ≠ '+' := four.ne_plus
  have read : unicodeEscape? a b c d = some decoded := by
    rw [unicodeEscape?_eq_some, if_neg other]
    exact four
  cases unread.symm.trans (escape?_eq_some.mpr ⟨a, b, c, d, rest, rfl, read⟩)

-- Where nothing is read, no sign stands that a zero would be put for.
theorem unsigned_unread (unread : escape? body = none) :
    unsigned ('\\' :: 'u' :: body) = '\\' :: 'u' :: unsigned body := by
  refine unsigned_letter ?_
  rintro b c d rest rfl
  rw [← Option.not_isSome_iff_eq_none, isSome_hexDigits?_iff]
  rintro ⟨decoded, read⟩
  cases unread.symm.trans (escape?_eq_some.mpr ⟨'+', b, c, d, rest, rfl, read⟩)

-- What is decoded is what the body denotes with zeros in place of the signs.
theorem Decodes.denotes (decodes : Decodes body text) : Denotes (unsigned body) text := by
  induction decodes with
  | nil => exact .nil
  | plain unescaped _ ih =>
      rw [unsigned_plain unescaped]
      exact .plain unescaped ih
  | escape other _ ih =>
      rw [unsigned_escape other]
      exact .escape other ih
  | number read _ ih =>
      rw [unsigned_number read]
      exact .number (unicodeEscape?_eq_some.mp read) ih
  | letter unread _ ih =>
      rw [unsigned_unread unread]
      refine .letter (fun digits decoded four begins => ?_) ih
      exact not_fourDigits_of_unread unread four (prefix_of_unsigned four.unescaped begins)

-- Each sign that is taken for a digit leaves fewer characters than the body denotes.
theorem Decodes.length_le (decodes : Decodes body text) {other : List Char}
    (denotes : Denotes body other) : text.length ≤ other.length ∧
      (text.length = other.length → unsigned body = body) := by
  induction decodes generalizing other with
  | nil =>
      cases denotes
      exact ⟨Nat.le_refl _, fun _ => rfl⟩
  | @plain c body text unescaped _ ih =>
      obtain ⟨more, rfl, rest⟩ := denotes.behind [c] (by simpa using Ne.symm unescaped)
      obtain ⟨shorter, same⟩ := ih rest
      refine ⟨Nat.succ_le_succ shorter, fun equal => ?_⟩
      rw [unsigned_plain unescaped, same (Nat.succ.inj equal)]
  | @escape c body text notLetter _ ih =>
      cases denotes with
      | plain unescaped => contradiction
      | escape _ rest =>
          obtain ⟨shorter, same⟩ := ih rest
          refine ⟨Nat.succ_le_succ shorter, fun equal => ?_⟩
          rw [unsigned_escape notLetter, same (Nat.succ.inj equal)]
      | number | letter => contradiction
  | @number a b c d decoded body text read _ ih =>
      have unescaped := unescaped_of_inner (isInner_of_unicodeEscape? read)
      have four := unicodeEscape?_eq_some.mp read
      rcases denotes.behind_u with ⟨_, _, _, _, fourOther, same, rfl, rest⟩ | ⟨none, _, rfl, rest⟩
      · have unsignedDigit : a ≠ '+' := by
          obtain ⟨e, f, g, h, rfl⟩ := List.length_eq_four.mp fourOther.1
          cases same
          exact fourOther.ne_plus
        rw [if_neg unsignedDigit] at four
        obtain ⟨rfl, rfl⟩ := four.eq fourOther same
        obtain ⟨shorter, same⟩ := ih rest
        refine ⟨Nat.succ_le_succ shorter, fun equal => ?_⟩
        rw [unsigned_number read, if_neg unsignedDigit, same (Nat.succ.inj equal)]
        rfl
      · obtain ⟨more, rfl, behind⟩ := rest.behind [a, b, c, d] unescaped
        have shorter := (ih behind).1
        have less : (decoded :: text).length < ('u' :: ([a, b, c, d] ++ more)).length := by
          simp only [List.length_cons, List.length_append]
          omega
        exact ⟨Nat.le_of_lt less, fun equal => absurd equal (Nat.ne_of_lt less)⟩
  | @letter body text unread _ ih =>
      rcases denotes.behind_u with ⟨_, _, _, _, four, rfl, -⟩ | ⟨-, _, rfl, rest⟩
      · exact absurd (List.prefix_append _ _) (not_fourDigits_of_unread unread four)
      · obtain ⟨shorter, same⟩ := ih rest
        refine ⟨Nat.succ_le_succ shorter, fun equal => ?_⟩
        rw [unsigned_unread unread, same (Nat.succ.inj equal)]

-- A reading that takes no sign for a digit is there for each body.
theorem Decodes.exists_denotes (decodes : Decodes body text) : ∃ meant, Denotes body meant := by
  induction decodes with
  | nil => exact ⟨[], .nil⟩
  | plain unescaped _ ih =>
      obtain ⟨meant, denotes⟩ := ih
      exact ⟨_, .plain unescaped denotes⟩
  | escape other _ ih =>
      obtain ⟨meant, denotes⟩ := ih
      exact ⟨_, .escape other denotes⟩
  | @number a b c d decoded body text read _ ih =>
      obtain ⟨meant, denotes⟩ := ih
      have four := unicodeEscape?_eq_some.mp read
      by_cases plus : a = '+'
      · subst plus
        have unescaped := unescaped_of_inner (isInner_of_unicodeEscape? read)
        exact ⟨_, .letter (fun _ _ => FourDigits.not_prefix_plus)
          (denotes.append ['+', b, c, d] unescaped)⟩
      · rw [if_neg plus] at four
        exact ⟨_, .number four denotes⟩
  | letter unread _ ih =>
      obtain ⟨meant, denotes⟩ := ih
      exact ⟨_, .letter (fun _ _ => not_fourDigits_of_unread unread) denotes⟩

-- A literal is one token wherever it stands.
theorem LiteralBody.tokensAfter_quoted (literal : LiteralBody quote body)
    (ends : quote = '"' ∨ quote = '\'') (seen : List Located) (pending : Option String)
    (position : Nat) (rest : List Char) :
    tokensAfter seen pending position (quote :: (body ++ quote :: rest)) =
      tokensAfter (⟨.quoted (String.ofList (decodeText body)), position, pending⟩ :: seen) none
        (position + (utf8Size body + 2)) rest := by
  have other : '\\' ≠ quote := by rcases ends with rfl | rfl <;> decide
  have cuts : cut quote (body ++ [quote] ++ rest) = _ := cut_quoted ends (literal.split other)
  rw [List.append_assoc, List.singleton_append] at cuts
  exact tokensAfter_token cuts

end Decoding

/-- A string literal is read as one token wherever it stands, by the offsets of its bytes as well
as by its characters. What is read is what the body denotes with a zero in place of each plus sign
that stands between a `\u` and three hexadecimal digits, so it is what the body itself denotes
exactly when no sign stands there. -/
theorem literal_denotes {quote : Char} {body : List Char} (ends : quote = '"' ∨ quote = '\'')
    (literal : LiteralBody quote body) :
    ∃ text meant,
      (∀ seen pending position rest,
        tokensAfter seen pending position (quote :: (body ++ quote :: rest)) =
          tokensAfter (⟨.quoted (String.ofList text), position, pending⟩ :: seen) none
            (position + (utf8Size body + 2)) rest) ∧
      (∀ source start rest, sliceFrom? source start = some (quote :: (body ++ quote :: rest)) →
        textAt? source start quote =
          some (.ok (.token (.quoted (String.ofList text)), start + (utf8Size body + 2)))) ∧
      (∀ other, Denotes body other ↔ other = meant) ∧
      Denotes (unsigned body) text ∧ (text = meant ↔ unsigned body = body) := by
  have other : '\\' ≠ quote := by rcases ends with rfl | rfl <;> decide
  have decodes := literal.decodes
  obtain ⟨meant, denotes⟩ := decodes.exists_denotes
  refine ⟨decodeText body, meant, literal.tokensAfter_quoted ends, fun source start rest here => ?_,
    fun other => ⟨fun same => same.unique denotes, fun same => same ▸ denotes⟩, decodes.denotes,
    fun same => (decodes.length_le denotes).2 (congrArg List.length same), fun same => ?_⟩
  · rw [textAt?_eq ends here, cutText, literal.split other]
    rfl
  · have read := decodes.denotes
    rw [same] at read
    exact read.unique denotes

/-- A body with a quote that is escaped, a number, a surrogate, digits that end too soon and a sign
in front of too few digits. -/
def sampleBody : List Char :=
  "\\\"\\u00e9é\\ud800\\u00\\t\\u+12".toList

theorem literal_denotes_sample :
    LiteralBody '"' sampleBody ∧ unsigned sampleBody = sampleBody ∧
      tokensAfter [] none 0 ('"' :: (sampleBody ++ ['"'])) =
        .ok ⟨[⟨.quoted "\"ééud800u00\tu+12", 0, none⟩], 29, none⟩ ∧
      Denotes sampleBody "\"ééud800u00\tu+12".toList := by
  have split : splitText '"' [] (sampleBody ++ ['"']) = some ([].reverse ++ sampleBody, []) := by
    decide +kernel
  have literal := literalBody_of_split split
  have plain : unsigned sampleBody = sampleBody := by decide +kernel
  have tokenized : tokensAfter [] none 0 ('"' :: (sampleBody ++ ['"'])) =
      .ok ⟨[⟨.quoted "\"ééud800u00\tu+12", 0, none⟩], 29, none⟩ := by decide +kernel
  obtain ⟨text, meant, tokens, -, denotes, -, same⟩ := literal_denotes (.inl rfl) literal
  have read := (tokens [] none 0 []).symm.trans tokenized
  rw [tokensAfter_nil] at read
  obtain ⟨value, -⟩ : String.ofList text = "\"ééud800u00\tu+12" ∧ utf8Size sampleBody = 27 := by
    simpa using read
  refine ⟨literal, plain, tokenized, (denotes _).mpr ?_⟩
  rw [← value, String.toList_ofList]
  exact same.mpr plain

/-- A plus sign in front of three digits is taken for a digit of the number. -/
theorem signed_escape_read :
    tokenize "\"\\u+041\"" = .ok ⟨[⟨.quoted "A", 0, none⟩], 8, none⟩ ∧
      LiteralBody '"' "\\u+041".toList ∧ Denotes "\\u+041".toList "u+041".toList ∧
      ¬Denotes "\\u+041".toList "A".toList := by
  have split : splitText '"' [] "\\u+041\"".toList = some ([].reverse ++ "\\u+041".toList, []) := by
    decide +kernel
  have denotes : Denotes "\\u+041".toList "u+041".toList :=
    .letter (fun _ _ => FourDigits.not_prefix_plus)
      (Denotes.nil.append "+041".toList (by decide +kernel))
  refine ⟨by decide +kernel, literalBody_of_split split, denotes, fun other => ?_⟩
  exact absurd (denotes.unique other) (by decide +kernel)

end Toggles.Declaration
