import Toggles.Doc.TagValue
import Toggles.Proofs.Spans
import Toggles.Proofs.Tags

/-! Explanations of allowed values.

The description of an allowed value may be a label between quotation marks, followed by a dash and
an explanation. Any quotation mark may be the one in front of the label, even one that closes
another label. The leftmost one decides, and of its explanation the first line is taken.
-/

set_option autoImplicit false

namespace Toggles.Doc

open Text (isBlank trim trimStart trimEnd)
open Declaration (takeWhile_line)
open Json (Trimmed)

/-- Behind a quotation mark stand a label, its closing quotation mark, a dash and an explanation. -/
inductive Labels : List Char → List Char → Prop where
  | dash {label gap gapBehind explanation : List Char} (filled : label ≠ [])
      (quoteFree : '"' ∉ label) (blank : ∀ c ∈ gap, isBlank c = true)
      (blankBehind : ∀ c ∈ gapBehind, isBlank c = true)
      (starts : ∃ c ∈ explanation.head?, isBlank c = false) :
      Labels (label ++ '"' :: (gap ++ '-' :: (gapBehind ++ explanation))) explanation

def OpensAt (text : List Char) (position : Nat) (explanation : List Char) : Prop :=
  text[position]? = some '"' ∧ Labels (text.drop (position + 1)) explanation

/-- The first position in a text at which a label with an explanation is opened. -/
structure Leftmost (text : List Char) (position : Nat) (explanation : List Char) : Prop where
  opens : OpensAt text position explanation
  first : ∀ earlier < position, ∀ other, ¬OpensAt text earlier other

/-- The first line of a text without the white space behind it. -/
inductive FirstLine : List Char → List Char → Prop where
  | line {shown trail rest : List Char} (trimmed : Trimmed shown)
      (blank : ∀ c ∈ trail, isBlank c = true) (inLine : '\n' ∉ shown ++ trail)
      (ends : ∀ c ∈ rest.head?, c = '\n') : FirstLine (shown ++ trail ++ rest) shown

/-- What a text says of an allowed value: the first line of the leftmost explanation, or the whole
text where there is none. -/
inductive Describes (text : List Char) : List Char → Prop where
  | explained {position : Nat} {explanation shown : List Char}
      (leftmost : Leftmost text position explanation) (line : FirstLine explanation shown) :
      Describes text shown
  | plain (none : ∀ position explanation, ¬OpensAt text position explanation) : Describes text text

section Lines
variable {text explanation shown : List Char}

-- What trimming takes away behind a text that begins without white space.
theorem exists_trail (starts : ∃ c ∈ text.head?, isBlank c = false) :
    ∃ trail, trim text ++ trail = text ∧ (∀ c ∈ trail, isBlank c = true) ∧ Trimmed (trim text) := by
  obtain ⟨first, head, filled⟩ := starts
  have trimStarted : trimStart text = text :=
    Text.trimStart_of_first fun c same => Option.mem_unique head same ▸ filled
  have parts : trim text ++ (text.reverse.takeWhile isBlank).reverse = text := by
    rw [trim, trimStarted, trimEnd, ← List.reverse_append, List.takeWhile_append_dropWhile,
      List.reverse_reverse]
  have blank : ∀ c ∈ (text.reverse.takeWhile isBlank).reverse, isBlank c = true :=
    fun c member => List.mem_takeWhile_imp (List.mem_reverse.mp member)
  have nonempty : trim text ≠ [] := by
    intro empty
    rw [empty, List.nil_append] at parts
    rw [parts] at blank
    simp [blank first (List.mem_of_mem_head? head)] at filled
  refine ⟨_, parts, blank, nonempty, fun c member => ?_, fun c last => ?_⟩
  · have same : c ∈ text.head? := by
      rw [← parts, List.head?_append, Option.mem_def.mp member]
      rfl
    exact Option.mem_unique head same ▸ filled
  · rw [trim, trimStarted, trimEnd, List.getLast?_reverse] at last
    simpa [Option.mem_def.mp last] using List.head?_dropWhile_not isBlank text.reverse

theorem FirstLine.trim_eq (line : FirstLine explanation shown) :
    trim (explanation.takeWhile (· != '\n')) = shown := by
  obtain @⟨shown, trail, rest, trimmed, blank, inLine, ends⟩ := line
  have noBlank : ∀ c ∈ [], isBlank c = true := List.forall_mem_nil _
  rw [takeWhile_line inLine ends]
  exact Text.trim_enclosed noBlank trimmed blank

theorem FirstLine.trimmed (line : FirstLine explanation shown) : Trimmed shown := by
  cases line with
  | line trimmed => exact trimmed

theorem firstLine_of_starts (starts : ∃ c ∈ explanation.head?, isBlank c = false) :
    FirstLine explanation (trim (explanation.takeWhile (· != '\n'))) := by
  have rowStarts : ∃ c ∈ (explanation.takeWhile (· != '\n')).head?, isBlank c = false := by
    obtain ⟨c, head, filled⟩ := starts
    obtain ⟨behind, rfl⟩ := List.head?_eq_some_iff.mp head
    have newline : c ≠ '\n' := by
      rintro rfl
      cases filled
    exact ⟨c, by simp [newline], filled⟩
  obtain ⟨trail, parts, blank, trimmed⟩ := exists_trail rowStarts
  have inLine : '\n' ∉ explanation.takeWhile (· != '\n') := fun member => by
    simpa using List.mem_takeWhile_imp member
  have ends : ∀ d ∈ (explanation.dropWhile (· != '\n')).head?, d = '\n' := by
    intro d head
    simpa [Option.mem_def.mp head] using List.head?_dropWhile_not (· != '\n') explanation
  have line := FirstLine.line trimmed blank (parts.symm ▸ inLine) ends
  rwa [parts, List.takeWhile_append_dropWhile] at line

end Lines

section Labels
variable {text explanation shown : List Char} {c : Char} {position : Nat}

theorem labeledExplanation?_of_labels (labels : Labels text explanation) :
    labeledExplanation? text = some (trim (explanation.takeWhile (· != '\n'))) := by
  obtain @⟨label, gap, gapBehind, explanation, filled, quoteFree, blank, blankBehind, starts⟩ := labels
  have plain : ∀ c ∈ label, (c != '"') = true := by
    intro c member
    exact bne_iff_ne.mpr fun same => quoteFree (same ▸ member)
  have closing (rest : List Char) : (label ++ '"' :: rest).dropWhile (· != '"') = '"' :: rest := by
    rw [List.dropWhile_append_of_pos plain, List.dropWhile_cons_of_neg (by simp)]
  have inside (rest : List Char) : (label ++ rest).head? ≠ some '"' := by
    obtain ⟨c, label, rfl⟩ := List.exists_cons_of_ne_nil filled
    rintro ⟨⟩
    exact quoteFree List.mem_cons_self
  have dash (rest : List Char) : trimStart (gap ++ '-' :: rest) = '-' :: rest := by
    rw [Text.trimStart_append blank, Text.trimStart_of_first (by rintro c ⟨⟩; decide)]
  have explained : trimStart (gapBehind ++ explanation) = explanation := by
    obtain ⟨first, head, begins⟩ := starts
    rw [Text.trimStart_append blankBehind,
      Text.trimStart_of_first fun c same => Option.mem_unique head same ▸ begins]
  have nonempty : explanation.takeWhile (· != '\n') ≠ [] := by
    intro empty
    exact (firstLine_of_starts starts).trimmed.filled (by rw [empty]; rfl)
  simp only [labeledExplanation?, closing, if_neg (inside _), dash, explained,
    List.isEmpty_eq_false_iff.mpr nonempty, Bool.false_eq_true, if_false]

theorem exists_labels (read : labeledExplanation? text = some shown) :
    ∃ explanation, Labels text explanation ∧ FirstLine explanation shown := by
  have closes := List.head?_dropWhile_not (· != '"') text
  have label := List.takeWhile_append_dropWhile (p := (· != '"')) (l := text)
  have quoteFree : '"' ∉ text.takeWhile (· != '"') := fun member => by
    simpa using List.mem_takeWhile_imp member
  unfold labeledExplanation? at read
  split at read
  · contradiction
  next quote rest behind =>
  rw [behind] at closes label
  simp only [List.head?_cons, bne_eq_false_iff_eq] at closes
  subst closes
  split at read
  · contradiction
  next filled =>
  split at read
  case h_2 => contradiction
  next after dash =>
  have gap := List.takeWhile_append_dropWhile (p := isBlank) (l := rest)
  have gapBehind := List.takeWhile_append_dropWhile (p := isBlank) (l := after)
  rw [← trimStart, dash] at gap
  rw [← trimStart] at gapBehind
  simp only at read
  split at read
  · contradiction
  next nonempty =>
  cases read
  have starts : ∃ c ∈ (trimStart after).head?, isBlank c = false := by
    have first := List.head?_dropWhile_not isBlank after
    rw [← trimStart] at first
    cases begins : trimStart after with
    | nil => simp [begins] at nonempty
    | cons c behind => exact ⟨c, rfl, by simpa [begins] using first⟩
  have labelFilled : text.takeWhile (· != '"') ≠ [] := by
    intro empty
    rw [empty, List.nil_append] at label
    exact filled (label ▸ rfl)
  have whole : text.takeWhile (· != '"') ++
      '"' :: (rest.takeWhile isBlank ++ '-' :: (after.takeWhile isBlank ++ trimStart after)) = text := by
    rw [gapBehind, gap, label]
  exact ⟨trimStart after, whole ▸ .dash labelFilled quoteFree (fun _ => List.mem_takeWhile_imp)
    (fun _ => List.mem_takeWhile_imp) starts, firstLine_of_starts starts⟩

theorem not_labels_of_labeledExplanation? (read : labeledExplanation? text = none)
    (explanation : List Char) : ¬Labels text explanation := by
  intro labels
  rw [labeledExplanation?_of_labels labels] at read
  contradiction

end Labels

section Search
variable {text explanation shown other : List Char} {c : Char} {position : Nat}

theorem not_opensAt_nil : ¬OpensAt [] position explanation := by
  simp [OpensAt]

theorem opensAt_zero : OpensAt (c :: text) 0 explanation ↔ c = '"' ∧ Labels text explanation := by
  simp [OpensAt]

theorem opensAt_succ :
    OpensAt (c :: text) (position + 1) explanation ↔ OpensAt text position explanation := by
  simp [OpensAt]

theorem explanation?_cons : explanation? (c :: text) =
    (if c = '"' then labeledExplanation? text else none).or (explanation? text) := by
  rw [explanation?]
  split
  · split <;> simp_all
  · rw [Option.none_or]

-- A character that opens no label leaves the leftmost one to the text behind it.
theorem Leftmost.cons (leftmost : Leftmost text position explanation)
    (closed : ∀ other, ¬OpensAt (c :: text) 0 other) :
    Leftmost (c :: text) (position + 1) explanation where
  opens := opensAt_succ.mpr leftmost.opens
  first earlier before other := by
    cases earlier with
    | zero => exact closed other
    | succ earlier => exact mt opensAt_succ.mp (leftmost.first earlier (by omega) other)

theorem not_opensAt_zero (read : (if c = '"' then labeledExplanation? text else none) = none)
    (explanation : List Char) : ¬OpensAt (c :: text) 0 explanation := by
  rw [opensAt_zero]
  rintro ⟨rfl, labels⟩
  exact not_labels_of_labeledExplanation? (by simpa using read) explanation labels

theorem exists_leftmost (read : explanation? text = some shown) :
    ∃ position explanation, Leftmost text position explanation ∧ FirstLine explanation shown := by
  induction text with
  | nil => contradiction
  | cons c text ih =>
      rw [explanation?_cons] at read
      cases here : if c = '"' then labeledExplanation? text else none with
      | some found =>
          rw [here] at read
          cases read
          obtain ⟨quote, labeled⟩ := Option.ite_none_right_eq_some.mp here
          obtain ⟨explanation, labels, line⟩ := exists_labels labeled
          exact ⟨0, explanation, ⟨opensAt_zero.mpr ⟨quote, labels⟩, nofun⟩, line⟩
      | none =>
          rw [here, Option.none_or] at read
          obtain ⟨position, explanation, leftmost, line⟩ := ih read
          exact ⟨position + 1, explanation, leftmost.cons (not_opensAt_zero here), line⟩

theorem not_opensAt_of_explanation? (read : explanation? text = none) (position : Nat)
    (explanation : List Char) : ¬OpensAt text position explanation := by
  induction text generalizing position with
  | nil => exact not_opensAt_nil
  | cons c text ih =>
      rw [explanation?_cons, Option.or_eq_none_iff] at read
      cases position with
      | zero => exact not_opensAt_zero read.1 explanation
      | succ position => exact mt opensAt_succ.mp (ih read.2 position)

theorem Leftmost.position_eq {positionOther : Nat} {explanationOther : List Char}
    (leftmost : Leftmost text position explanation)
    (leftmostOther : Leftmost text positionOther explanationOther) : position = positionOther := by
  rcases Nat.lt_trichotomy position positionOther with before | same | behind
  · exact absurd leftmost.opens (leftmostOther.first position before explanation)
  · exact same
  · exact absurd leftmostOther.opens (leftmost.first positionOther behind explanationOther)

theorem Describes.unique (describes : Describes text shown) (describesOther : Describes text other) :
    shown = other := by
  cases describes with
  | plain none =>
      cases describesOther with
      | plain => rfl
      | explained leftmost => exact absurd leftmost.opens (none _ _)
  | explained leftmost line =>
      cases describesOther with
      | plain none => exact absurd leftmost.opens (none _ _)
      | explained leftmostOther lineOther =>
          have labels := leftmost.opens.2
          rw [leftmost.position_eq leftmostOther] at labels
          have same := (labeledExplanation?_of_labels labels).symm.trans
            (labeledExplanation?_of_labels leftmostOther.opens.2)
          rwa [line.trim_eq, lineOther.trim_eq, Option.some.injEq] at same

theorem describes_enumDescription (text : String) :
    Describes text.toList (enumDescription text).toList := by
  unfold enumDescription
  cases read : explanation? text.toList with
  | none => exact .plain (not_opensAt_of_explanation? read)
  | some shown =>
      obtain ⟨position, explanation, leftmost, line⟩ := exists_leftmost read
      rw [String.toList_ofList]
      exact .explained leftmost line

/-- The description of an allowed value is the first line of the leftmost explanation, or the whole
text. So a text of a label, a dash and an explanation on one line describes the value by this
explanation, whatever quotation marks and dashes there are in it. -/
theorem enumDescription_leftmost :
    (∀ text result : String, enumDescription text = result ↔ Describes text.toList result.toList) ∧
      ∀ label explanation : String, label ≠ "" → '"' ∉ label.toList →
        Trimmed explanation.toList → '\n' ∉ explanation.toList →
        enumDescription ("\"" ++ label ++ "\" - " ++ explanation) = explanation := by
  have iff_describes (text result : String) :
      enumDescription text = result ↔ Describes text.toList result.toList := by
    constructor
    · rintro rfl
      exact describes_enumDescription text
    · intro describes
      exact String.toList_inj.mp ((describes_enumDescription text).unique describes)
  refine ⟨iff_describes, fun label explanation filled quoteFree trimmed inLine => ?_⟩
  have written : ("\"" ++ label ++ "\" - " ++ explanation).toList =
      '"' :: (label.toList ++ '"' :: ([' '] ++ '-' :: ([' '] ++ explanation.toList))) := by simp
  have space : ∀ c ∈ [' '], isBlank c = true := List.all_eq_true.mp (by decide)
  have starts : ∃ c ∈ explanation.toList.head?, isBlank c = false := by
    obtain ⟨c, head⟩ := Option.ne_none_iff_exists'.mp (mt List.head?_eq_none_iff.mp trimmed.filled)
    exact ⟨c, head, trimmed.first c head⟩
  have labels := Labels.dash (by simpa using filled) quoteFree space space starts
  have line : FirstLine explanation.toList explanation.toList := by
    simpa using @FirstLine.line _ [] [] trimmed nofun (by simpa using inLine) nofun
  rw [iff_describes, written]
  exact .explained ⟨opensAt_zero.mpr ⟨rfl, labels⟩, nofun⟩ line

theorem enumDescription_leftmost_sample :
    Describes "Say \"\" or \"x\" \"fast\" \n-  Dense \n \"slow\" - Sparse".toList "Dense".toList ∧
      "a-b" ≠ "" ∧ '"' ∉ "a-b".toList ∧ Trimmed "use \"c\" - or \"d\" - not".toList ∧
      '\n' ∉ "use \"c\" - or \"d\" - not".toList ∧
      enumDescription ("\"" ++ "a-b" ++ "\" - " ++ "use \"c\" - or \"d\" - not") =
        "use \"c\" - or \"d\" - not" := by
  have filled : "a-b" ≠ "" := by decide
  have quoteFree : '"' ∉ "a-b".toList := by decide
  have trimmed : Trimmed "use \"c\" - or \"d\" - not".toList := by decide
  have inLine : '\n' ∉ "use \"c\" - or \"d\" - not".toList := by decide
  exact ⟨(enumDescription_leftmost.1 _ _).mp (by decide +kernel), filled, quoteFree, trimmed, inLine,
    enumDescription_leftmost.2 _ _ filled quoteFree trimmed inLine⟩

end Search

end Toggles.Doc
