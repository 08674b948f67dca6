import Toggles.Doc.Comment
import Toggles.Proofs.JsonText

/-! The text of a tag in a documentation comment.

A tag is written on a line of its own and goes on in the lines behind it. What is read of it is
the text that was written: the decoration of the lines and the white space around the text are
removed, and nothing in between is.
-/

set_option autoImplicit false

namespace Toggles.Text

variable {before text after : List Char}

theorem trimStart_append (blank : ∀ c ∈ before, isBlank c = true) :
    trimStart (before ++ text) = trimStart text :=
  List.dropWhile_append_of_pos blank

theorem trimStart_of_first (first : ∀ c ∈ text.head?, isBlank c = false) : trimStart text = text := by
  cases text with
  | nil => rfl
  | cons c rest => rw [trimStart, List.dropWhile_cons_of_neg (by simp [first c rfl])]

theorem trim_enclosed (blank : ∀ c ∈ before, isBlank c = true) (trimmed : Json.Trimmed text)
    (blankAfter : ∀ c ∈ after, isBlank c = true) : trim (before ++ text ++ after) = text := by
  have start : trimStart (before ++ text ++ after) = text ++ after := by
    rw [List.append_assoc, trimStart_append blank]
    refine trimStart_of_first fun c first => trimmed.first c ?_
    cases text with
    | nil => exact (trimmed.filled rfl).elim
    | cons d rest => exact first
  have reversed : ∀ c ∈ text.reverse.head?, isBlank c = false := by
    rw [List.head?_reverse]
    exact trimmed.last
  have blankReversed : ∀ c ∈ after.reverse, isBlank c = true :=
    fun c member => blankAfter c (List.mem_reverse.mp member)
  rw [trim, start, trimEnd, List.reverse_append]
  have ended : trimStart (after.reverse ++ text.reverse) = text.reverse := by
    rw [trimStart_append blankReversed, trimStart_of_first reversed]
  rw [← trimStart, ended, List.reverse_reverse]

theorem trim_of_blank (blank : ∀ c ∈ text, isBlank c = true) : trim text = [] := by
  rw [trim, trimStart, List.dropWhile_eq_nil_iff.mpr blank]
  rfl

theorem joinLines_cons (first : List Char) (rest : List (List Char)) :
    joinLines (first :: rest) = first ++ rest.flatMap fun line => '\n' :: line := by
  induction rest generalizing first with
  | nil => simp [joinLines]
  | cons second rest ih =>
      rw [joinLines, ih, List.flatMap_cons, List.cons_append]
      exact List.cons_ne_nil second rest

-- The lines behind a text are blank together with their endings.
theorem isBlank_behind {blanks : List (List Char)} (allBlank : ∀ line ∈ blanks, isAllBlank line = true) :
    ∀ c ∈ blanks.flatMap fun line => '\n' :: line, isBlank c = true := by
  intro c member
  obtain ⟨line, listed, member⟩ := List.mem_flatMap.mp member
  rcases List.mem_cons.mp member with rfl | member
  · decide
  · exact List.all_eq_true.mp (allBlank line listed) c member

end Toggles.Text

namespace Toggles.Doc

open Text (isBlank isAllBlank trim trimStart lines joinLines joinLines_cons)
open Json (Trimmed unmarked)

/-- What may stand in front of a tag on its line: white space, in which there may be a star. -/
inductive Decoration : List Char → Prop where
  | blank {margin : List Char} (blank : ∀ c ∈ margin, isBlank c = true) : Decoration margin
  | star {margin gap : List Char} (blank : ∀ c ∈ margin, isBlank c = true)
      (blankGap : ∀ c ∈ gap, isBlank c = true) : Decoration (margin ++ '*' :: gap)

/-- The lines of a comment that a tag is written on with its text. A text on one line may have
white space behind it; of a text of several lines each further one stands behind a star and a
space. -/
inductive Written (tag : String) : List Char → List (List Char) → Prop where
  | line {front text trail : List Char} (decoration : Decoration front)
      (blank : ∀ c ∈ trail, isBlank c = true) :
      Written tag text [front ++ '@' :: (tag.toList ++ ' ' :: (text ++ trail))]
  | rows {front margin first : List Char} {rest : List (List Char)} (decoration : Decoration front)
      (blank : ∀ c ∈ margin, isBlank c = true) :
      Written tag (joinLines (first :: rest)) ((front ++ '@' :: (tag.toList ++ ' ' :: first)) ::
        rest.map fun row => margin ++ '*' :: ' ' :: row)

/-- The body of a comment in which a tag is written with a text. In front of it there may be
free text and tags of other names; behind it there may be lines without text and then any tags. -/
inductive Carries (tag : String) (text : List Char) (body : String) : Prop where
  | lines {before written blanks after : List (List Char)}
      (lines : lines body.toList = before ++ (written ++ (blanks ++ after)))
      (others : ∀ line ∈ before, ∀ start ∈ tagStart? (stripDecoration line), start.1 ≠ tag)
      (written : Written tag text written)
      (blanks : ∀ line ∈ blanks, isAllBlank (stripDecoration line) = true)
      (after : ∀ line ∈ after.head?, (tagStart? (stripDecoration line)).isSome = true)

section Lines
variable {tag : String} {front text line : List Char}

theorem stripDecoration_at (decoration : Decoration front) (rest : List Char) :
    ∃ gap, (∀ c ∈ gap, isBlank c = true) ∧
      stripDecoration (front ++ '@' :: rest) = gap ++ '@' :: rest := by
  have filled : isBlank '@' = false := by decide
  have filledStar : isBlank '*' = false := by decide
  cases decoration with
  | blank blank =>
      refine ⟨[], nofun, ?_⟩
      rw [stripDecoration, Text.trimStart_append blank, Text.trimStart_of_first (by simp [filled])]
      rfl
  | @star margin gap blank blankGap =>
      have trimmed : trimStart (margin ++ '*' :: gap ++ '@' :: rest) = '*' :: (gap ++ '@' :: rest) := by
        rw [List.append_assoc, Text.trimStart_append blank,
          Text.trimStart_of_first (by simp [filledStar])]
        rfl
      rw [stripDecoration, trimmed]
      cases gap with
      | nil => exact ⟨[], nofun, rfl⟩
      | cons c gap =>
          obtain ⟨-, blankGap'⟩ := List.forall_mem_cons.mp blankGap
          by_cases space : c = ' '
          · subst space
            exact ⟨gap, blankGap', rfl⟩
          · refine ⟨c :: gap, blankGap, ?_⟩
            split
            · next same => simp [space] at same
            · next same => cases same; rfl
            · next other => exact (other _ rfl).elim

theorem stripDecoration_row {margin : List Char} (blank : ∀ c ∈ margin, isBlank c = true)
    (row : List Char) : stripDecoration (margin ++ '*' :: ' ' :: row) = row := by
  have filled : isBlank '*' = false := by decide
  rw [stripDecoration, Text.trimStart_append blank, Text.trimStart_of_first (by simp [filled])]
  rfl

theorem tagStart?_name {gap : List Char} (blank : ∀ c ∈ gap, isBlank c = true)
    (named : ∀ c ∈ tag.toList, isTagNamePart c = true)
    (ends : ∀ c ∈ text.head?, isTagNamePart c = false) :
    tagStart? (gap ++ '@' :: (tag.toList ++ text)) = some (tag, text) := by
  have filled : isBlank '@' = false := by decide
  have stops : text.takeWhile isTagNamePart = [] ∧ text.dropWhile isTagNamePart = text := by
    cases text with
    | nil => exact ⟨rfl, rfl⟩
    | cons c text => simp [ends c rfl]
  rw [tagStart?, Text.trimStart_append blank, Text.trimStart_of_first (by simp [filled])]
  simp [List.takeWhile_append_of_pos named, List.dropWhile_append_of_pos named, stops]

theorem tagStart?_at {gap : List Char} (blank : ∀ c ∈ gap, isBlank c = true)
    (named : ∀ c ∈ tag.toList, isTagNamePart c = true) (text : List Char) :
    tagStart? (gap ++ '@' :: (tag.toList ++ ' ' :: text)) = some (tag, ' ' :: text) := by
  refine tagStart?_name blank named ?_
  rintro c ⟨⟩
  decide +kernel

theorem tagStart?_eq_none (unmarked : (trimStart line).head? ≠ some '@') :
    tagStart? line = none := by
  unfold tagStart?
  split
  · next same => simp [same] at unmarked
  · rfl

end Lines

section Divisions
variable {tag : String} {text : List Char} {written before rest : List (List Char)}

theorem ofLines_cons (line : List Char) (lines : List (List Char)) :
    Division.ofLines (line :: lines) = (Division.ofLines lines).cons line :=
  rfl

-- The lines in front of a tag are divided on their own.
theorem ofLines_append (ends : (Division.ofLines rest).free = []) :
    Division.ofLines (before ++ rest) = ⟨(Division.ofLines before).free,
      (Division.ofLines before).blocks ++ (Division.ofLines rest).blocks⟩ := by
  induction before with
  | nil =>
      rw [List.nil_append]
      exact congrArg (Division.mk · _) ends
  | cons line before ih =>
      rw [List.cons_append, ofLines_cons, ofLines_cons, ih]
      unfold Division.cons
      split <;> rfl

theorem name_of_mem_blocks {block : String × List (List Char)}
    (member : block ∈ (Division.ofLines before).blocks) :
    ∃ line ∈ before, ∃ start ∈ tagStart? line, start.1 = block.1 := by
  induction before with
  | nil => cases member
  | cons line before ih =>
      have later : block ∈ (Division.ofLines before).blocks →
          ∃ other ∈ line :: before, ∃ start ∈ tagStart? other, start.1 = block.1 := by
        intro member
        obtain ⟨other, listed, found⟩ := ih member
        exact ⟨other, List.mem_cons_of_mem _ listed, found⟩
      rw [ofLines_cons] at member
      unfold Division.cons at member
      split at member
      · next name text start =>
          rcases List.mem_cons.mp member with rfl | member
          · exact ⟨line, List.mem_cons_self, _, start, rfl⟩
          · exact later member
      · exact later member

theorem ofLines_append_of_unmarked (unmarked : ∀ line ∈ before, tagStart? line = none)
    (rest : List (List Char)) : Division.ofLines (before ++ rest) =
      ⟨before ++ (Division.ofLines rest).free, (Division.ofLines rest).blocks⟩ := by
  induction before with
  | nil => rfl
  | cons line before ih =>
      obtain ⟨none, unmarked⟩ := List.forall_mem_cons.mp unmarked
      rw [List.cons_append, ofLines_cons, ih unmarked, Division.cons, none]
      rfl

-- Lines that begin no tag are free up to the next tag.
theorem free_ofLines {after : List (List Char)} (unmarked : ∀ line ∈ rest, tagStart? line = none)
    (ends : ∀ line ∈ after.head?, (tagStart? line).isSome = true) :
    (Division.ofLines (rest ++ after)).free = rest := by
  have nothing : (Division.ofLines after).free = [] := by
    cases after with
    | nil => rfl
    | cons line after =>
        obtain ⟨start, found⟩ := Option.isSome_iff_exists.mp (ends line rfl)
        rw [ofLines_cons, Division.cons, found]
  rw [ofLines_append_of_unmarked unmarked, nothing, List.append_nil]

-- What is left of the lines of a tag without their decoration.
theorem Written.stripped (writes : Written tag text written) (safe : unmarked true text = true) :
    ∃ gap first rest trail, (∀ c ∈ gap, isBlank c = true) ∧ (∀ c ∈ trail, isBlank c = true) ∧
      written.map stripDecoration = (gap ++ '@' :: (tag.toList ++ ' ' :: first)) :: rest ∧
      joinLines (first :: rest) = text ++ trail ∧ ∀ row ∈ rest, tagStart? row = none := by
  cases writes with
  | @line front text trail decoration blank =>
      obtain ⟨gap, blankGap, stripped⟩ :=
        stripDecoration_at decoration (tag.toList ++ ' ' :: (text ++ trail))
      exact ⟨gap, text ++ trail, [], trail, blankGap, blank, by rw [List.map_singleton, stripped],
        rfl, nofun⟩
  | @rows front margin first rest decoration blank =>
      obtain ⟨gap, blankGap, stripped⟩ :=
        stripDecoration_at decoration (tag.toList ++ ' ' :: first)
      refine ⟨gap, first, rest, [], blankGap, nofun, ?_, (List.append_nil _).symm,
        fun row member => ?_⟩
      · rw [List.map_cons, stripped, List.map_map]
        exact congrArg (_ :: ·) (List.map_id'' (stripDecoration_row blank) rest)
      · obtain ⟨earlier, later, rfl⟩ := List.append_of_mem member
        rw [joinLines_cons, List.flatMap_append, List.flatMap_cons, ← List.append_assoc,
          List.cons_append] at safe
        exact tagStart?_eq_none (Json.head?_trimStart_of_unmarked (Json.unmarked_behind safe))

theorem tags_ofParts (free : List Char) (tags : List Tag) :
    (Comment.ofParts free tags).tags = tags := by
  unfold Comment.ofParts
  split <;> rfl

end Divisions

section Comments
variable {tag body : String} {text : List Char}

theorem find?_tag_of_blocks {before after : List (String × List (List Char))}
    {block : List (List Char)} (others : ∀ entry ∈ before, entry.1 ≠ tag) :
    ((before ++ (tag, block) :: after).map fun (name, block) => Tag.ofBlock name block).find?
      (fun found => found.name = tag) = some (Tag.ofBlock tag block) := by
  induction before with
  | nil => simp [Tag.ofBlock]
  | cons entry before ih =>
      obtain ⟨other, others⟩ := List.forall_mem_cons.mp others
      have passed : decide ((Tag.ofBlock entry.1 entry.2).name = tag) = false := decide_eq_false other
      rw [List.cons_append, List.map_cons, List.find?_cons, passed]
      exact ih others

theorem nonempty?_of_ne_nil (filled : text ≠ []) : nonempty? text = some (String.ofList text) := by
  rw [nonempty?, if_neg (by simpa using filled)]

theorem ofBlock_text {first trail : List Char} {rest blanks : List (List Char)}
    (joined : joinLines (first :: rest) = text ++ trail) (blank : ∀ c ∈ trail, isBlank c = true)
    (allBlank : ∀ line ∈ blanks, isAllBlank line = true) (trimmed : Trimmed text) :
    (Tag.ofBlock tag ((' ' :: first) :: (rest ++ blanks))).text = some (String.ofList text) := by
  have around : joinLines ((' ' :: first) :: (rest ++ blanks)) =
      [' '] ++ text ++ (trail ++ blanks.flatMap fun line => '\n' :: line) := by
    rw [joinLines_cons] at joined
    rw [joinLines_cons, List.flatMap_append, List.cons_append, ← List.append_assoc, joined]
    simp
  have blankBehind : ∀ c ∈ trail ++ blanks.flatMap fun line => '\n' :: line, isBlank c = true :=
    List.forall_mem_append.mpr ⟨blank, Text.isBlank_behind allBlank⟩
  have space : ∀ c ∈ [' '], isBlank c = true := List.all_eq_true.mp (by decide)
  rw [Tag.ofBlock, around, Text.trim_enclosed space trimmed blankBehind,
    nonempty?_of_ne_nil trimmed.filled]

theorem tagStart?_of_blank {line : List Char} (blank : isAllBlank line = true) :
    tagStart? line = none := by
  refine tagStart?_eq_none ?_
  rw [← List.append_nil line, Text.trimStart_append (List.all_eq_true.mp blank)]
  decide

/-- A comment gives the text that one of its tags is written with, whatever stands in front of the
tag under other names and whatever tags follow it. -/
theorem tag?_of_carries (carries : Carries tag text body)
    (named : ∀ c ∈ tag.toList, isTagNamePart c = true) (trimmed : Trimmed text)
    (safe : unmarked true text = true) :
    (Comment.parse body).tag? tag = some (String.ofList text) := by
  obtain @⟨before, written, blanks, after, lines, others, writes, allBlank, ends⟩ := carries
  obtain ⟨gap, first, rest, trail, blankGap, blankTrail, stripped, joined, free⟩ :=
    writes.stripped safe
  have allBlank : ∀ line ∈ blanks.map stripDecoration, isAllBlank line = true :=
    List.forall_mem_map.mpr allBlank
  have ends : ∀ line ∈ (after.map stripDecoration).head?, (tagStart? line).isSome = true := by
    rw [List.head?_map]
    intro line head
    obtain ⟨raw, rawHead, rfl⟩ := Option.map_eq_some_iff.mp head
    exact ends raw rawHead
  have free : ∀ row ∈ rest ++ blanks.map stripDecoration, tagStart? row = none := by
    intro row member
    rcases List.mem_append.mp member with member | member
    · exact free row member
    · exact tagStart?_of_blank (allBlank row member)
  -- The lines up to the next tag are the block of this one.
  obtain ⟨more, tagged⟩ : ∃ more, Division.ofLines ((gap ++ '@' :: (tag.toList ++ ' ' :: first)) ::
      (rest ++ blanks.map stripDecoration ++ after.map stripDecoration)) =
        ⟨[], (tag, (' ' :: first) :: (rest ++ blanks.map stripDecoration)) :: more⟩ := by
    rw [ofLines_cons, Division.cons, tagStart?_at blankGap named first, free_ofLines free ends]
    exact ⟨_, rfl⟩
  have others : ∀ entry ∈ (Division.ofLines (before.map stripDecoration)).blocks, entry.1 ≠ tag := by
    intro entry member
    obtain ⟨line, listed, start, found, name⟩ := name_of_mem_blocks member
    obtain ⟨raw, rawListed, rfl⟩ := List.mem_map.mp listed
    exact name ▸ others raw rawListed start found
  have whole : (Text.lines body.toList).map stripDecoration = before.map stripDecoration ++
      ((gap ++ '@' :: (tag.toList ++ ' ' :: first)) ::
        (rest ++ blanks.map stripDecoration ++ after.map stripDecoration)) := by
    simp [lines, stripped]
  rw [Comment.tag?, Comment.parse, tags_ofParts, whole, ofLines_append (by rw [tagged]), tagged,
    find?_tag_of_blocks others, Option.bind_some, ofBlock_text joined blankTrail allBlank trimmed]

end Comments

end Toggles.Doc
