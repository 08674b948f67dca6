import Toggles.Proofs.Path
import Toggles.Proofs.Tags

/-! The layout of documentation comments.

A comment is laid out with a title, the lines of a description and then tags, each line behind a
star and a space. Reading takes the layout away and nothing else: white space, stars and blank lines
within the texts are kept, and what was laid out is read back.
-/

set_option autoImplicit false

namespace Toggles.Text

section Lines
variable {line rest : List Char} {rows : List (List Char)}

theorem linesAfter_append (inLine : '\n' ∉ line) (reversed rest : List Char) :
    linesAfter reversed (line ++ rest) = linesAfter (line.reverse ++ reversed) rest := by
  induction line generalizing reversed with
  | nil => rfl
  | cons c line ih =>
      rw [List.mem_cons, not_or] at inLine
      rw [List.cons_append, linesAfter, if_neg (Ne.symm inLine.1), ih inLine.2, List.reverse_cons,
        List.append_assoc, List.singleton_append]

theorem dropReturn_eq_reverse {reversed : List Char} (noReturn : '\r' ∉ reversed) :
    dropReturn reversed = reversed.reverse := by
  unfold dropReturn
  split
  · exact absurd List.mem_cons_self noReturn
  · rfl

theorem lines_cons (inLine : '\n' ∉ line) (noReturn : '\r' ∉ line) (rest : List Char) :
    lines (line ++ '\n' :: rest) = line :: lines rest := by
  rw [lines, linesAfter_append inLine, List.append_nil, linesAfter, if_pos rfl,
    dropReturn_eq_reverse (by simpa using noReturn), List.reverse_reverse]
  rfl

theorem lines_last (inLine : '\n' ∉ line) : lines line = if line.isEmpty then [] else [line] := by
  rw [lines, ← List.append_nil line, linesAfter_append inLine, linesAfter]
  simp

theorem joinLines_append_behind (filled : rows ≠ []) (after : List (List Char)) :
    joinLines (rows ++ after) = joinLines rows ++ after.flatMap fun line => '\n' :: line := by
  obtain ⟨first, more, rfl⟩ := List.exists_cons_of_ne_nil filled
  rw [List.cons_append, joinLines_cons, joinLines_cons, List.flatMap_append, List.append_assoc]

theorem joinLines_append_front (before : List (List Char)) (filled : rows ≠ []) :
    joinLines (before ++ rows) = (before.flatMap fun line => line ++ ['\n']) ++ joinLines rows := by
  induction before with
  | nil => rfl
  | cons line before ih =>
      rw [List.cons_append, joinLines, ih, List.flatMap_cons, List.append_assoc, List.append_assoc,
        List.singleton_append]
      exact List.append_ne_nil_of_right_ne_nil before filled

theorem joinLines_eq_intercalate (rows : List (List Char)) :
    joinLines rows = ['\n'].intercalate rows := by
  induction rows with
  | nil => rfl
  | cons row rows ih =>
      cases rows with
      | nil => simp [joinLines]
      | cons next rows =>
          rw [joinLines, ih, List.intercalate_cons_cons, List.append_assoc, List.singleton_append]
          exact List.cons_ne_nil next rows

theorem joinLines_splitAt (text : List Char) : joinLines (splitAt '\n' text) = text := by
  rw [joinLines_eq_intercalate, intercalate_splitAt]

-- A line without text at the end of a text is not one of its lines.
theorem lines_joinLines {last : List Char} (inLine : ∀ row ∈ rows, '\n' ∉ row ∧ '\r' ∉ row)
    (inLast : '\n' ∉ last) :
    lines (joinLines (rows ++ [last])) = rows ++ if last.isEmpty then [] else [last] := by
  induction rows with
  | nil => exact lines_last inLast
  | cons row rows ih =>
      obtain ⟨⟨first, noReturn⟩, inLine⟩ := List.forall_mem_cons.mp inLine
      rw [List.cons_append, joinLines, lines_cons first noReturn, ih inLine, List.cons_append]
      exact List.append_ne_nil_of_right_ne_nil rows (List.cons_ne_nil last [])

theorem lines_joinLines_of_trimmed (inLine : ∀ row ∈ rows, '\n' ∉ row ∧ '\r' ∉ row)
    (trimmed : Json.Trimmed (joinLines rows)) : lines (joinLines rows) = rows := by
  rcases List.eq_nil_or_concat' rows with rfl | ⟨before, last, rfl⟩
  · rfl
  · rw [List.forall_mem_append] at inLine
    rw [lines_joinLines inLine.1 (inLine.2 last List.mem_cons_self).1]
    cases last with
    | cons c last => rfl
    | nil =>
        have filled : before ≠ [] := by
          rintro rfl
          exact trimmed.filled rfl
        have ended : '\n' ∈ (joinLines (before ++ [[]])).getLast? := by
          rw [joinLines_append_behind filled, List.flatMap_singleton, List.getLast?_concat]
          rfl
        cases trimmed.last _ ended

-- Blank lines around a text are white space around it.
theorem trim_joinLines {before after : List (List Char)} (trimmed : Json.Trimmed (joinLines rows))
    (blank : ∀ line ∈ before, isAllBlank line = true)
    (blankBehind : ∀ line ∈ after, isAllBlank line = true) :
    trim (joinLines (before ++ (rows ++ after))) = joinLines rows := by
  have filled : rows ≠ [] := by
    rintro rfl
    exact trimmed.filled rfl
  rw [joinLines_append_front before (List.append_ne_nil_of_left_ne_nil filled after),
    joinLines_append_behind filled, ← List.append_assoc]
  refine trim_enclosed (fun c member => ?_) trimmed fun c member => ?_
  · obtain ⟨line, listed, member⟩ := List.mem_flatMap.mp member
    rcases List.mem_append.mp member with member | member
    · exact List.all_eq_true.mp (blank line listed) c member
    · exact List.mem_singleton.mp member ▸ (by decide)
  · exact isBlank_behind blankBehind c member

theorem trim_joinLines_of_blank (blank : ∀ line ∈ rows, isAllBlank line = true) :
    trim (joinLines rows) = [] := by
  cases rows with
  | nil => rfl
  | cons first more =>
      obtain ⟨blankFirst, blank⟩ := List.forall_mem_cons.mp blank
      rw [joinLines_cons]
      exact trim_of_blank (List.forall_mem_append.mpr
        ⟨List.all_eq_true.mp blankFirst, isBlank_behind blank⟩)

theorem splitAt_front {separator : Char} {front first : List Char} {more : List (List Char)}
    (absent : separator ∉ front) (split : splitAt separator rest = first :: more) :
    splitAt separator (front ++ rest) = (front ++ first) :: more := by
  induction front with
  | nil => exact split
  | cons c front ih =>
      rw [List.mem_cons, not_or] at absent
      rw [List.cons_append, splitAt, ih absent.2]
      simp [Ne.symm absent.1]

end Lines

end Toggles.Text

namespace Toggles.Doc

open Text (isBlank isAllBlank trim trimStart trimEnd lines joinLines splitAt)
open Json (Trimmed)

/-- What a comment is laid out from: a title with the lines of a description, and tags. -/
structure Layout where
  title : Option String
  description : List String
  tags : List Tag

def Tag.written (tag : Tag) : List Char :=
  '@' :: (tag.name.toList ++ match tag.text with
    | some text => ' ' :: text.toList
    | none => [])

namespace Layout

def free (layout : Layout) : List (List Char) :=
  layout.title.toList.map String.toList ++ layout.description.map String.toList

def tagged (layout : Layout) : List (List Char) :=
  layout.tags.flatMap fun tag => splitAt '\n' tag.written

def decorated (layout : Layout) : List (List Char) :=
  (layout.free ++ layout.tagged).map fun row => ' ' :: '*' :: ' ' :: row

/-- The body of a comment, with other lines in front of the layout and behind it. -/
def body (layout : Layout) (opening closing : List (List Char)) : String :=
  String.ofList (joinLines (opening ++ layout.decorated ++ closing))

/-- A comment without lines for a description has that of a tag. -/
def comment (layout : Layout) : Comment where
  title := layout.title
  description :=
    if layout.description = [] then
      (layout.tags.find? fun tag => tag.name = "description").bind Tag.text
    else some ("\n".intercalate layout.description)
  tags := layout.tags

end Layout

/-- A tag whose name ends where its text begins, and of whose text no further line begins a tag. -/
structure Tag.Legible (tag : Tag) : Prop where
  named : ∀ c ∈ tag.name.toList, isTagNamePart c = true
  trimmed : ∀ text ∈ tag.text, Trimmed text.toList
  unmarked : ∀ text ∈ tag.text, ∀ row ∈ (splitAt '\n' text.toList).tail,
    (trimStart row).head? ≠ some '@'

/-- A layout of which each part can be told from the others. -/
structure Layout.Legible (layout : Layout) : Prop where
  title : ∀ title ∈ layout.title, Trimmed title.toList
  titled : layout.title = none → layout.description = []
  description : layout.description ≠ [] → Trimmed ("\n".intercalate layout.description).toList
  inLine : ∀ line ∈ layout.free, '\n' ∉ line
  unmarked : ∀ line ∈ layout.free, (trimStart line).head? ≠ some '@'
  tags : ∀ tag ∈ layout.tags, tag.Legible
  noReturn : ∀ line ∈ layout.free ++ layout.tagged, '\r' ∉ line

structure BlankLine (line : List Char) : Prop where
  blank : isAllBlank line = true
  inLine : '\n' ∉ line
  noReturn : '\r' ∉ line

section Tags
variable {tag : Tag} {tags : List Tag} {rows blanks : List (List Char)} {line : List Char}

theorem stripDecoration_of_blank (blank : isAllBlank line = true) : stripDecoration line = [] := by
  have nothing : trimStart line = [] := List.dropWhile_eq_nil_iff.mpr (List.all_eq_true.mp blank)
  rw [stripDecoration, nothing]

/-- The lines of a tag: the first begins it, the others go on with it, and blank lines behind it
do not count. -/
structure Reads (tag : Tag) (first : List Char) (rest : List (List Char)) : Prop where
  split : splitAt '\n' tag.written = ('@' :: (tag.name.toList ++ first)) :: rest
  starts : tagStart? ('@' :: (tag.name.toList ++ first)) = some (tag.name, first)
  unmarked : ∀ row ∈ rest, tagStart? row = none
  block : ∀ blanks : List (List Char), (∀ line ∈ blanks, isAllBlank line = true) →
    Tag.ofBlock tag.name (first :: (rest ++ blanks)) = tag

theorem Tag.Legible.reads (legible : tag.Legible) : ∃ first rest, Reads tag first rest := by
  obtain ⟨name, text⟩ := tag
  obtain ⟨named, trimmed, unmarked⟩ := legible
  have other : isTagNamePart '\n' = false := by decide +kernel
  have newline : '\n' ∉ '@' :: name.toList := by
    rw [List.mem_cons, not_or]
    exact ⟨by decide, fun member => Bool.noConfusion (other.symm.trans (named _ member))⟩
  have noGap : ∀ c ∈ [], isBlank c = true := List.forall_mem_nil _
  cases text with
  | none =>
      have starts : tagStart? ('@' :: (name.toList ++ [])) = some (name, []) :=
        tagStart?_name noGap named (by simp)
      refine ⟨[], [], Text.splitAt_front newline rfl, starts, List.forall_mem_nil _,
        fun blanks blank => ?_⟩
      have nothing : trim (joinLines ([] :: blanks)) = [] :=
        Text.trim_joinLines_of_blank (List.forall_mem_cons.mpr ⟨rfl, blank⟩)
      rw [List.nil_append, Tag.ofBlock, nothing]
      rfl
  | some text =>
      obtain ⟨first, rest, split⟩ :=
        List.exists_cons_of_ne_nil (Text.splitAt_ne_nil '\n' text.toList)
      have joined : joinLines (first :: rest) = text.toList ++ [] := by
        rw [← split, Text.joinLines_splitAt, List.append_nil]
      refine ⟨' ' :: first, rest, Text.splitAt_front newline (?_ : _ = (' ' :: first) :: rest),
        tagStart?_at noGap named first, fun row member => tagStart?_eq_none (unmarked text rfl row ?_),
        fun blanks blank => ?_⟩
      · exact @Text.splitAt_front _ _ [' '] _ _ (by decide) split
      · rw [split]
        exact member
      · have read := @ofBlock_text name _ _ _ _ _ joined noGap blank (trimmed text rfl)
        rw [String.ofList_toList] at read
        exact congrArg (Tag.mk name) read

-- The blocks of the lines of tags are the tags, and only blank lines are in front of the first.
theorem ofLines_tagged (legible : ∀ tag ∈ tags, tag.Legible)
    (blank : ∀ line ∈ blanks, isAllBlank line = true) :
    let division :=
      Division.ofLines ((tags.flatMap fun tag => splitAt '\n' tag.written) ++ blanks)
    (∀ line ∈ division.free, isAllBlank line = true) ∧
      (division.blocks.map fun (name, block) => Tag.ofBlock name block) = tags := by
  induction tags with
  | nil =>
      have whole := ofLines_append_of_unmarked (fun line listed => tagStart?_of_blank (blank line listed)) []
      rw [List.append_nil] at whole
      rw [List.flatMap_nil, List.nil_append, whole, Division.ofLines, List.foldr_nil, List.append_nil]
      exact ⟨blank, rfl⟩
  | cons tag tags ih =>
      obtain ⟨first, legible⟩ := List.forall_mem_cons.mp legible
      obtain ⟨start, rest, reads⟩ := first.reads
      obtain ⟨blankFree, same⟩ := ih legible
      rw [List.flatMap_cons, reads.split, List.cons_append, List.cons_append, List.append_assoc,
        ofLines_cons, ofLines_append_of_unmarked reads.unmarked, Division.cons, reads.starts]
      refine ⟨List.forall_mem_nil _, ?_⟩
      rw [List.map_cons, same]
      exact congrArg (· :: tags) (reads.block _ blankFree)

end Tags

section Comments
variable {layout : Layout} {opening closing : List (List Char)}

theorem toList_intercalate (description : List String) :
    ("\n".intercalate description).toList = joinLines (description.map String.toList) := by
  rw [String.toList_intercalate, Text.joinLines_eq_intercalate]
  rfl

theorem nonempty?_of_trimmed {text : List Char} (trimmed : Trimmed text) :
    nonempty? (trimEnd text) = some (String.ofList text) ∧
      nonempty? (trim text) = some (String.ofList text) := by
  have same : trim text = text := by
    simpa using @Text.trim_enclosed [] text [] nofun trimmed nofun
  have sameEnd : trimEnd text = text := by
    rw [trim, Text.trimStart_of_first trimmed.first] at same
    exact same
  have given := nonempty?_of_ne_nil trimmed.filled
  rw [same, sameEnd]
  exact ⟨given, given⟩

theorem Layout.Legible.trimmed (legible : layout.Legible) (filled : layout.free ≠ []) :
    Trimmed (joinLines layout.free) := by
  obtain ⟨title, description, tags⟩ := layout
  cases title with
  | none =>
      obtain rfl : description = [] := legible.titled rfl
      exact (filled rfl).elim
  | some title =>
      have front : Trimmed title.toList := legible.title title rfl
      cases description with
      | nil => exact front
      | cons line more =>
          have behind := legible.description (List.cons_ne_nil line more)
          rw [toList_intercalate] at behind
          have joined : joinLines (Layout.free ⟨some title, line :: more, tags⟩) =
              title.toList ++ '\n' :: joinLines ((line :: more).map String.toList) := rfl
          rw [joined]
          refine ⟨by simp, fun c first => front.first c ?_, fun c last => behind.last c ?_⟩
          · rwa [List.head?_append_of_ne_nil _ front.filled] at first
          · rwa [List.getLast?_append_of_ne_nil _ (List.cons_ne_nil _ _),
              List.getLast?_cons_of_ne_nil behind.filled] at last

theorem Layout.Legible.ofParts_free (legible : layout.Legible) :
    Comment.ofParts (joinLines layout.free) layout.tags = layout.comment := by
  have rows : lines (joinLines layout.free) = layout.free := by
    by_cases filled : layout.free = []
    · rw [filled]
      rfl
    · exact Text.lines_joinLines_of_trimmed (fun line listed => ⟨legible.inLine line listed,
        legible.noReturn line (List.mem_append_left _ listed)⟩) (legible.trimmed filled)
  obtain ⟨title, description, tags⟩ := layout
  rw [Comment.ofParts, rows]
  cases title with
  | none =>
      obtain rfl : description = [] := legible.titled rfl
      rfl
  | some title =>
      have front := (nonempty?_of_trimmed (legible.title title rfl)).1
      rw [String.ofList_toList] at front
      cases description with
      | nil => exact congrArg (Comment.mk · _ tags) front
      | cons line more =>
          have behind := legible.description (List.cons_ne_nil line more)
          rw [toList_intercalate] at behind
          have read : nonempty? (trim (joinLines ((line :: more).map String.toList))) =
              some ("\n".intercalate (line :: more)) := by
            rw [(nonempty?_of_trimmed behind).2, ← toList_intercalate, String.ofList_toList]
          exact congrArg₂ (Comment.mk · · tags) front read

theorem Layout.Legible.lines_body (legible : layout.Legible)
    (blank : ∀ line ∈ opening, BlankLine line) (blankBehind : ∀ line ∈ closing, BlankLine line)
    (ends : closing ≠ []) :
    ∃ blanks, (∀ line ∈ blanks, isAllBlank line = true) ∧
      (lines (layout.body opening closing).toList).map stripDecoration =
        opening.map stripDecoration ++ (layout.free ++ (layout.tagged ++ blanks)) := by
  obtain ⟨before, last, rfl⟩ := (List.eq_nil_or_concat' closing).resolve_left ends
  rw [List.forall_mem_append, List.forall_mem_singleton] at blankBehind
  obtain ⟨blankBefore, blankLast⟩ := blankBehind
  have inLine : ∀ row ∈ layout.free ++ layout.tagged, '\n' ∉ row := by
    refine List.forall_mem_append.mpr ⟨legible.inLine, fun row member => ?_⟩
    obtain ⟨tag, -, member⟩ := List.mem_flatMap.mp member
    exact Text.notMem_of_mem_splitAt member
  have inLines : ∀ row ∈ opening ++ layout.decorated ++ before, '\n' ∉ row ∧ '\r' ∉ row := by
    simp only [List.forall_mem_append]
    refine ⟨⟨fun line listed => ?_, List.forall_mem_map.mpr fun row listed => ?_⟩,
      fun line listed => ?_⟩
    · exact ⟨(blank line listed).inLine, (blank line listed).noReturn⟩
    · simp [inLine row listed, legible.noReturn row listed]
    · exact ⟨(blankBefore line listed).inLine, (blankBefore line listed).noReturn⟩
  have stripped : layout.decorated.map stripDecoration = layout.free ++ layout.tagged := by
    rw [Layout.decorated, List.map_map]
    exact List.map_id'' (@stripDecoration_row [' '] (List.all_eq_true.mp (by decide))) _
  refine ⟨(before ++ if last.isEmpty then [] else [last]).map stripDecoration,
    List.forall_mem_map.mpr fun line listed => ?_, ?_⟩
  · have blankLine : isAllBlank line = true := by
      rcases List.mem_append.mp listed with listed | listed
      · exact (blankBefore line listed).blank
      · split at listed
        · cases listed
        · exact List.mem_singleton.mp listed ▸ blankLast.blank
    rw [stripDecoration_of_blank blankLine]
    rfl
  · rw [Layout.body, String.toList_ofList, ← List.append_assoc,
      Text.lines_joinLines inLines blankLast.inLine]
    simp [stripped]

/-- The comment of a layout is read back from its body: the title, the lines of the description as
they are, and the tags in their order with their texts. -/
theorem parse_body (legible : layout.Legible) (blank : ∀ line ∈ opening, BlankLine line)
    (blankBehind : ∀ line ∈ closing, BlankLine line) (ends : closing ≠ []) :
    Comment.parse (layout.body opening closing) = layout.comment := by
  obtain ⟨blanks, allBlank, whole⟩ := legible.lines_body blank blankBehind ends
  obtain ⟨blankFree, blocks⟩ := ofLines_tagged legible.tags allBlank
  have blankFront : ∀ line ∈ opening.map stripDecoration, isAllBlank line = true := by
    refine List.forall_mem_map.mpr fun line listed => ?_
    rw [stripDecoration_of_blank (blank line listed).blank]
    rfl
  have free : trim (joinLines (opening.map stripDecoration ++ (layout.free ++
      (Division.ofLines (layout.tagged ++ blanks)).free))) = joinLines layout.free := by
    by_cases filled : layout.free = []
    · rw [filled, List.nil_append]
      exact Text.trim_joinLines_of_blank (List.forall_mem_append.mpr ⟨blankFront, blankFree⟩)
    · exact Text.trim_joinLines (legible.trimmed filled) blankFront blankFree
  rw [Comment.parse, whole,
    ofLines_append_of_unmarked fun line listed => tagStart?_of_blank (blankFront line listed),
    ofLines_append_of_unmarked fun line listed => tagStart?_eq_none (legible.unmarked line listed)]
  exact (congrArg₂ Comment.ofParts free blocks).trans legible.ofParts_free

theorem parse_body_sample :
    let layout : Layout := ⟨some "* Mode", ["- off", "", "\t* on *"],
      [⟨"enum", some "[\n  1,\n\n  2]"⟩, ⟨"rule_3", none⟩, ⟨"enum", some "x"⟩]⟩
    layout.Legible ∧ (∀ line ∈ [[]], BlankLine line) ∧ (∀ line ∈ [[' ']], BlankLine line) ∧
      [[' ']] ≠ [] ∧ layout.body [[]] [[' ']] =
        "\n * * Mode\n * - off\n * \n * \t* on *\n * @enum [\n *   1,\n * \n *   2]\n * @rule_3\n * @enum x\n " ∧
      Comment.parse (layout.body [[]] [[' ']]) =
        ⟨some "* Mode", some "- off\n\n\t* on *", layout.tags⟩ := by
  have opening : ∀ line ∈ [[]], BlankLine line :=
    List.forall_mem_singleton.mpr ⟨rfl, nofun, nofun⟩
  have closing : ∀ line ∈ [[' ']], BlankLine line :=
    List.forall_mem_singleton.mpr ⟨rfl, by decide, by decide⟩
  have filled : [[' ']] ≠ [] := List.cons_ne_nil _ _
  refine ⟨?legible, opening, closing, filled, by decide +kernel,
    parse_body ?legible opening closing filled⟩
  refine ⟨?_, nofun, fun _ => by decide, by decide, by decide, ?_, by decide⟩
  · rintro title ⟨⟩
    decide
  · have texted : Tag.Legible ⟨"enum", some "[\n  1,\n\n  2]"⟩ :=
      ⟨List.all_eq_true.mp (by decide +kernel), by rintro _ ⟨⟩; decide, by rintro _ ⟨⟩; decide⟩
    have plain : Tag.Legible ⟨"rule_3", none⟩ :=
      ⟨List.all_eq_true.mp (by decide +kernel), nofun, nofun⟩
    have again : Tag.Legible ⟨"enum", some "x"⟩ :=
      ⟨List.all_eq_true.mp (by decide +kernel), by rintro _ ⟨⟩; decide, by rintro _ ⟨⟩; decide⟩
    exact List.forall_mem_cons.mpr ⟨texted, List.forall_mem_cons.mpr
      ⟨plain, List.forall_mem_singleton.mpr again⟩⟩

end Comments

end Toggles.Doc
