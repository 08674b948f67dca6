import Mathlib.Data.List.Forall2
import Toggles.Doc.TagValue
import Toggles.Proofs.Depth
import Toggles.Proofs.Path
import Toggles.Proofs.Tags

/-! Lists of allowed values.

Allowed values are a JSON array or a list of entries with commas between them. Without brackets a
list cannot be taken for an array, whatever its entries are. Between brackets it is the array that
it is in JSON, and if it is not JSON it has the same entries as without them.
-/

set_option autoImplicit false

namespace Toggles.Json

def isArray : Json → Bool
  | .arr _ => true
  | _ => false

theorem IsScalar.isArray {value : Json} (scalar : value.IsScalar) : value.isArray = false := by
  cases value with
  | arr | obj => contradiction
  | null | bool | int | float | str => rfl

def Token.opensArray : Token → Bool
  | .openBracket => true
  | _ => false

def Expects.isArray? : Expects → Option Bool
  | .value => none
  | .itemOrClose => some true
  | .separator completed => some completed.isArray
  | _ => some false

namespace ReaderState

/-- Whether the document is an array, once its first token has been taken. -/
def isArray? (state : ReaderState) : Option Bool :=
  (state.enclosing.getLast?.map fun frame => frame.closed.isArray).or state.expects.isArray?

/-- A document has begun that is an array or is none. An array without items is the innermost one. -/
structure Begun (array : Bool) (state : ReaderState) : Prop where
  isArray : state.isArray? = some array
  opened : state.expects = .itemOrClose → ∃ outer, state.enclosing = .items [] :: outer

variable {depth : Nat} {state next : ReaderState} {token : Token} {array : Bool}
  {expects : Expects} {enclosing outer : List Frame} {frame : Frame}

theorem isArray?_cons : isArray? ⟨expects, frame :: outer⟩ =
    some (outer.getLast?.getD frame).closed.isArray := by
  rw [isArray?, List.getLast?_cons, Option.map_some, Option.some_or]

theorem isArray?_push (isArray : isArray? ⟨expects, enclosing⟩ = some array) {inside : Expects}
    (outermost : enclosing = [] → expects.isArray? = some frame.closed.isArray) :
    isArray? ⟨inside, frame :: enclosing⟩ = some array := by
  cases enclosing with
  | nil => exact (outermost rfl).symm.trans isArray
  | cons last outer =>
      rw [isArray?_cons] at isArray
      rw [isArray?_cons, ← isArray, List.getLast?_cons]
      rfl

theorem isArray?_pop (isArray : isArray? ⟨expects, frame :: outer⟩ = some array) {completed : Json}
    (same : completed.isArray = frame.closed.isArray) :
    isArray? ⟨.separator completed, outer⟩ = some array := by
  rw [isArray?_cons] at isArray
  cases outer with
  | nil => exact (congrArg some same).trans isArray
  | cons last outer =>
      rw [isArray?_cons, ← isArray, List.getLast?_cons]
      rfl

-- A value that begins inside of an array or object leaves open what encloses it.
theorem beginValue_begun (stepped : beginValue depth ⟨expects, frame :: outer⟩ token = some next)
    (isArray : isArray? ⟨expects, frame :: outer⟩ = some array) : next.Begun array := by
  cases token with
  | openBracket =>
      obtain ⟨-, same⟩ := Option.ite_none_right_eq_some.mp stepped
      cases same
      exact ⟨isArray?_push isArray nofun, fun _ => ⟨_, rfl⟩⟩
  | openBrace =>
      obtain ⟨-, same⟩ := Option.ite_none_right_eq_some.mp stepped
      cases same
      exact ⟨by rw [isArray?_cons] at isArray ⊢; exact isArray, nofun⟩
  | text | scalar =>
      cases stepped
      exact ⟨by rw [isArray?_cons] at isArray ⊢; exact isArray, nofun⟩
  | closeBracket | closeBrace | comma | colon => contradiction

theorem afterValue_begun {completed : Json}
    (stepped : afterValue completed enclosing token = some next)
    (isArray : isArray? ⟨.separator completed, enclosing⟩ = some array) : next.Begun array := by
  unfold afterValue at stepped
  split at stepped
  · next reversed outer =>
      cases stepped
      have closed : isArray? ⟨.separator (.arr reversed), outer⟩ = some array :=
        isArray?_pop isArray rfl
      exact ⟨isArray?_push closed fun _ => rfl, nofun⟩
  · cases stepped
    exact ⟨isArray?_pop isArray rfl, nofun⟩
  · next soFar key outer =>
      cases stepped
      exact ⟨isArray?_pop isArray rfl, nofun⟩
  · cases stepped
    exact ⟨isArray?_pop isArray rfl, nofun⟩
  · contradiction

theorem step_begun (begun : state.Begun array) (stepped : state.step depth token = some next) :
    next.Begun array := by
  obtain ⟨expects, enclosing⟩ := state
  obtain ⟨isArray, opened⟩ := begun
  unfold step at stepped
  split at stepped
  · next expected =>
      cases expected
      cases enclosing with
      | nil => cases isArray
      | cons frame outer => exact beginValue_begun stepped isArray
  · next expected =>
      cases expected
      cases stepped
      obtain ⟨outer, rfl⟩ := opened rfl
      exact ⟨isArray?_pop isArray rfl, nofun⟩
  · next expected _ =>
      cases expected
      obtain ⟨outer, rfl⟩ := opened rfl
      exact beginValue_begun stepped isArray
  · next expected => cases expected; cases stepped; exact ⟨isArray, nofun⟩
  · next expected => cases expected; cases stepped; exact ⟨isArray, nofun⟩
  · next expected => cases expected; cases stepped; exact ⟨isArray, nofun⟩
  · next expected =>
      cases expected
      cases stepped
      exact ⟨isArray?_push isArray fun _ => rfl, nofun⟩
  · next expected =>
      cases expected
      exact afterValue_begun stepped isArray
  · contradiction

-- What has begun is what is read in the end.
theorem run_begun {tokens : List Token} {final : ReaderState} (begun : state.Begun array)
    (ran : tokens.foldlM (step depth) state = some final) : final.Begun array := by
  induction tokens generalizing state with
  | nil => cases ran; exact begun
  | cons token rest ih =>
      obtain ⟨next, stepped, ran⟩ := Option.bind_eq_some_iff.mp ran
      exact ih (step_begun begun stepped) ran

theorem start_begun (plain : token.Plain) (stepped : start.step depth token = some next) :
    next.Begun token.opensArray := by
  cases token with
  | openBracket =>
      obtain ⟨-, same⟩ := Option.ite_none_right_eq_some.mp stepped
      cases same
      exact ⟨rfl, fun _ => ⟨[], rfl⟩⟩
  | openBrace =>
      obtain ⟨-, same⟩ := Option.ite_none_right_eq_some.mp stepped
      cases same
      exact ⟨rfl, nofun⟩
  | text value => cases stepped; exact ⟨rfl, nofun⟩
  | scalar value =>
      cases stepped
      exact ⟨congrArg some plain.isArray, nofun⟩
  | closeBracket | closeBrace | comma | colon => contradiction

end ReaderState

section Texts
variable {seen tokens : List Token} {text : List Char} {value : Json}

/-- The tokens of a text, of which the first one opens an array if its character does. -/
structure Starts (seen : List Token) (text : List Char) (tokens more : List Token) : Prop where
  split : tokens = seen.reverse ++ more
  first : more.head?.map Token.opensArray = (text.dropWhile isBlank).head?.map (· == '[')

theorem exists_starts_cons {token : Token} {rest : List Char}
    (read : ∃ more, Starts (token :: seen) rest tokens more) {c : Char} (filled : isBlank c = false)
    (opens : token.opensArray = (c == '[')) (behind : List Char) :
    ∃ more, Starts seen (c :: behind) tokens more := by
  obtain ⟨more, split, -⟩ := read
  refine ⟨token :: more, ?_, ?_⟩
  · rw [split, List.reverse_cons, List.append_assoc, List.singleton_append]
  · rw [List.dropWhile_cons_of_neg (by simp [filled])]
    exact congrArg some opens

theorem exists_starts (read : tokensAfter seen text = some tokens) :
    ∃ more, Starts seen text tokens more := by
  fun_induction tokensAfter seen text with
  | case1 => cases read; exact ⟨[], (List.append_nil _).symm, rfl⟩
  | case2 | case3 | case4 | case5 | case6 | case7 | case8 | case9 | case10 | case12 =>
      rename_i ih
      exact exists_starts_cons (ih read) rfl rfl _
  | case11 | case14 | case16 => contradiction
  | case13 seen c rest _ _ _ _ _ _ _ _ _ _ blank ih =>
      obtain ⟨more, split, first⟩ := ih read
      exact ⟨more, split, by rw [List.dropWhile_cons_of_pos blank, first]⟩
  | case15 seen c rest _ _ _ _ _ _ _ _ _ _ blank part value number _ ih =>
      have other : (c == '[') = false := by
        rw [beq_eq_false_iff_ne]
        rintro rfl
        cases part
      exact exists_starts_cons (ih read) (by simpa using blank) (by rw [other]; rfl) rest

-- A text is read as an array if its first character behind white space opens one.
theorem isArray_of_parse? {text : String} (read : parse? text = some value) :
    value.isArray = true ↔ (text.toList.dropWhile isBlank).head? = some '[' := by
  obtain ⟨tokens, split, read⟩ := Option.bind_eq_some_iff.mp read
  have plain := tokensAfter_plain (fun _ member => absurd member List.not_mem_nil) split
  obtain ⟨_, rfl, first⟩ := exists_starts split
  have ran := ofTokens?_eq_some.mp read
  cases tokens with
  | nil => cases ran
  | cons token rest =>
      obtain ⟨next, stepped, ran⟩ := Option.bind_eq_some_iff.mp ran
      have begun := ReaderState.start_begun (plain token List.mem_cons_self) stepped
      have isArray : some value.isArray = some token.opensArray :=
        (ReaderState.run_begun begun ran).isArray
      rw [Option.some.inj isArray]
      rw [List.head?_cons, Option.map_some] at first
      constructor
      · intro opens
        rw [opens] at first
        obtain ⟨c, head, bracket⟩ := Option.map_eq_some_iff.mp first.symm
        rw [head, beq_iff_eq.mp bracket]
      · intro head
        rw [head] at first
        simpa using first

end Texts

end Toggles.Json

namespace Toggles.Text

variable {before text after : List Char}

theorem trim_padded (blank : ∀ c ∈ before, isBlank c = true) (first : ∀ c ∈ text.head?, isBlank c = false)
    (last : ∀ c ∈ text.getLast?, isBlank c = false) (blankBehind : ∀ c ∈ after, isBlank c = true) :
    trim (before ++ text ++ after) = text := by
  by_cases empty : text = []
  · subst empty
    rw [List.append_nil]
    exact trim_of_blank (List.forall_mem_append.mpr ⟨blank, blankBehind⟩)
  · exact trim_enclosed blank ⟨empty, first, last⟩ blankBehind

theorem filter_intercalate {keep : Char → Bool} {separator : Char} (kept : keep separator = true)
    (parts : List (List Char)) : ([separator].intercalate parts).filter keep =
      [separator].intercalate (parts.map (List.filter keep)) := by
  induction parts with
  | nil => rfl
  | cons part rest ih =>
      cases rest with
      | nil => simp
      | cons next rest =>
          rw [List.intercalate_cons_cons, List.filter_append, List.filter_append, ih, List.map_cons,
            List.map_cons, List.map_cons, List.intercalate_cons_cons, List.filter_cons_of_pos kept,
            List.filter_nil]

theorem notMem_intercalate {c separator : Char} (other : c ≠ separator) {parts : List (List Char)}
    (absent : ∀ part ∈ parts, c ∉ part) : c ∉ [separator].intercalate parts := by
  induction parts with
  | nil => exact List.not_mem_nil
  | cons part rest ih =>
      obtain ⟨first, absent⟩ := List.forall_mem_cons.mp absent
      cases rest with
      | nil => simpa using first
      | cons next rest =>
          rw [List.intercalate_cons_cons, List.mem_append, List.mem_append, List.mem_singleton]
          rintro ((member | same) | member)
          · exact first member
          · exact other same
          · exact ih absent member

end Toggles.Text

namespace Toggles.Doc

open Text (isBlank splitAt trim)

/-- An entry of a list without anything that a list is written with and without white space around it. -/
structure IsEntry (entry : List Char) : Prop where
  plain : ∀ c ∈ [',', '[', ']', '"'], c ∉ entry
  first : ∀ c ∈ entry.head?, isBlank c = false
  last : ∀ c ∈ entry.getLast?, isBlank c = false

instance (entry : List Char) : Decidable (IsEntry entry) :=
  decidable_of_decidable_of_iff
    (p := ([',', '[', ']', '"'].all fun c => decide (c ∉ entry)) = true ∧
      (entry.head?.all fun c => !isBlank c) = true ∧ (entry.getLast?.all fun c => !isBlank c) = true)
    ⟨fun ⟨plain, first, last⟩ => ⟨by simpa using plain, Json.all_not_isBlank.mp first,
        Json.all_not_isBlank.mp last⟩,
      fun ⟨plain, first, last⟩ => ⟨by simpa using plain, Json.all_not_isBlank.mpr first,
        Json.all_not_isBlank.mpr last⟩⟩

/-- An entry is written with white space around it, and there may be quotation marks within the
white space. -/
inductive WritesEntry (entry : List Char) : List Char → Prop where
  | bare {before after : List Char} (blank : ∀ c ∈ before, isBlank c = true)
      (blankBehind : ∀ c ∈ after, isBlank c = true) : WritesEntry entry (before ++ entry ++ after)
  | quoted {before inside insideBehind after : List Char} (blank : ∀ c ∈ before, isBlank c = true)
      (blankInside : ∀ c ∈ inside, isBlank c = true)
      (blankInsideBehind : ∀ c ∈ insideBehind, isBlank c = true)
      (blankBehind : ∀ c ∈ after, isBlank c = true) :
      WritesEntry entry (before ++ '"' :: (inside ++ entry ++ insideBehind ++ '"' :: after))

section Entries
variable {entry piece : List Char} {c : Char}

theorem not_isListDecoration_of_blank (blank : isBlank c = true) : isListDecoration c = false := by
  simp only [isListDecoration, Bool.or_eq_false_iff, beq_eq_false_iff_ne]
  refine ⟨⟨?_, ?_⟩, ?_⟩
  all_goals
    rintro rfl
    exact absurd blank (by decide)

theorem filter_of_blank {run : List Char} (blank : ∀ c ∈ run, isBlank c = true) :
    run.filter (fun c => !isListDecoration c) = run :=
  List.filter_eq_self.mpr fun c member => by simp [not_isListDecoration_of_blank (blank c member)]

theorem IsEntry.filter_eq (isEntry : IsEntry entry) :
    entry.filter (fun c => !isListDecoration c) = entry := by
  refine List.filter_eq_self.mpr fun c member => ?_
  simp only [isListDecoration, Bool.not_eq_true', Bool.or_eq_false_iff, beq_eq_false_iff_ne]
  refine ⟨⟨?_, ?_⟩, ?_⟩
  all_goals
    rintro rfl
    exact isEntry.plain _ (by decide) member

-- Without quotation marks there is only white space around an entry.
theorem WritesEntry.filtered (writes : WritesEntry entry piece) (isEntry : IsEntry entry) :
    ∃ before after, piece.filter (fun c => !isListDecoration c) = before ++ entry ++ after ∧
      (∀ c ∈ before, isBlank c = true) ∧ ∀ c ∈ after, isBlank c = true := by
  cases writes with
  | @bare before after blank blankBehind =>
      refine ⟨before, after, ?_, blank, blankBehind⟩
      rw [List.filter_append, List.filter_append, filter_of_blank blank, filter_of_blank blankBehind,
        isEntry.filter_eq]
  | @quoted before inside insideBehind after blank blankInside blankInsideBehind blankBehind =>
      refine ⟨before ++ inside, insideBehind ++ after, ?_, List.forall_mem_append.mpr ⟨blank, blankInside⟩,
        List.forall_mem_append.mpr ⟨blankInsideBehind, blankBehind⟩⟩
      have quote : (!isListDecoration '"') = false := by decide
      simp only [List.filter_append, List.filter_cons, quote, Bool.false_eq_true, if_false,
        filter_of_blank blank, filter_of_blank blankInside, filter_of_blank blankInsideBehind,
        filter_of_blank blankBehind, isEntry.filter_eq, List.append_assoc]

theorem WritesEntry.notMem (writes : WritesEntry entry piece) (isEntry : IsEntry entry)
    (listed : c ∈ [',', '[', ']']) : c ∉ piece := by
  have marks : [',', '[', ']'].all (fun c => !isBlank c && c != '"') = true := by decide
  obtain ⟨filled, other⟩ : isBlank c = false ∧ c ≠ '"' := by
    simpa using List.all_eq_true.mp marks c listed
  have plain : c ∉ entry := isEntry.plain c (List.mem_append_left ['"'] listed)
  have apart {run : List Char} (blank : ∀ c ∈ run, isBlank c = true) : c ∉ run := by
    intro member
    simp [blank c member] at filled
  cases writes with
  | bare blank blankBehind => simp [plain, apart blank, apart blankBehind]
  | quoted blank blankInside blankInsideBehind blankBehind =>
      simp [plain, other, apart blank, apart blankInside, apart blankInsideBehind, apart blankBehind]

end Entries

section Lists
variable {entries pieces : List String}

theorem trim_filter_of_written (areEntries : ∀ entry ∈ entries, IsEntry entry.toList)
    (written : List.Forall₂ (fun entry piece => WritesEntry entry.toList piece.toList) entries pieces) :
    (pieces.map fun piece => trim (piece.toList.filter fun c => !isListDecoration c)) =
      entries.map String.toList := by
  induction written with
  | nil => rfl
  | @cons entry piece entries pieces writes _ ih =>
      obtain ⟨isEntry, areEntries⟩ := List.forall_mem_cons.mp areEntries
      obtain ⟨before, after, filtered, blank, blankBehind⟩ := writes.filtered isEntry
      rw [List.map_cons, List.map_cons, ih areEntries, filtered,
        Text.trim_padded blank isEntry.first isEntry.last blankBehind]

theorem notMem_of_written (areEntries : ∀ entry ∈ entries, IsEntry entry.toList)
    (written : List.Forall₂ (fun entry piece => WritesEntry entry.toList piece.toList) entries pieces)
    {c : Char} (listed : c ∈ [',', '[', ']']) : ∀ piece ∈ pieces, c ∉ piece.toList := by
  induction written with
  | nil => exact List.forall_mem_nil _
  | @cons entry piece entries pieces writes _ ih =>
      obtain ⟨isEntry, areEntries⟩ := List.forall_mem_cons.mp areEntries
      exact List.forall_mem_cons.mpr ⟨writes.notMem isEntry listed, ih areEntries⟩

-- The entries depend on what is left of a text without the decoration of a list.
theorem listEntries_of_written (nonempty : entries ≠ [])
    (areEntries : ∀ entry ∈ entries, IsEntry entry.toList)
    (written : List.Forall₂ (fun entry piece => WritesEntry entry.toList piece.toList) entries pieces)
    {text : List Char} (same : text.filter (fun c => !isListDecoration c) =
      (",".intercalate pieces).toList.filter (fun c => !isListDecoration c)) :
    listEntries text = entries.map .str := by
  have filled : pieces ≠ [] := by
    rintro rfl
    cases written
    exact nonempty rfl
  have parts : splitAt ',' (text.filter fun c => !isListDecoration c) =
      pieces.map fun piece => piece.toList.filter fun c => !isListDecoration c := by
    have joined : (",".intercalate pieces).toList = [','].intercalate (pieces.map String.toList) :=
      String.toList_intercalate
    rw [same, joined, Text.filter_intercalate (by decide), List.map_map,
      Text.splitAt_intercalate (by simpa using filled)]
    · rfl
    · intro part member
      obtain ⟨piece, listed, rfl⟩ := List.mem_map.mp member
      exact fun kept => notMem_of_written areEntries written (by decide) piece listed
        (List.mem_filter.mp kept).1
  rw [listEntries, parts, List.map_map]
  calc (pieces.map fun piece =>
          Json.str (String.ofList (trim (piece.toList.filter fun c => !isListDecoration c))))
      = (pieces.map fun piece => trim (piece.toList.filter fun c => !isListDecoration c)).map
          fun text => .str (String.ofList text) := by rw [List.map_map]; rfl
    _ = entries.map .str := by
        rw [trim_filter_of_written areEntries written, List.map_map]
        exact List.map_congr_left fun entry _ => by simp

theorem enumValues_of_parse? {text : String} {value : Json} (read : Json.parse? text = some value)
    (isArray : value.isArray = true) : value = .arr (enumValues text) := by
  cases value with
  | arr values => rw [enumValues, read]
  | null | bool | int | float | str | obj => contradiction

theorem enumValues_of_notArray {text : String}
    (other : ∀ value, Json.parse? text = some value → value.isArray = false) :
    enumValues text = listEntries text.toList := by
  unfold enumValues
  split
  · next values read => cases other _ read
  · rfl

/-- The entries of a list are read back from each text that the list is written in. Between brackets
they are read back as well, unless the text is JSON there: then it is an array with these values. -/
theorem enumValues_written (nonempty : entries ≠ [])
    (areEntries : ∀ entry ∈ entries, IsEntry entry.toList)
    (written : List.Forall₂ (fun entry piece => WritesEntry entry.toList piece.toList) entries pieces) :
    enumValues (",".intercalate pieces) = entries.map .str ∧
      (Json.parse? ("[" ++ ",".intercalate pieces ++ "]") = none →
        enumValues ("[" ++ ",".intercalate pieces ++ "]") = entries.map .str) ∧
      ∀ value, Json.parse? ("[" ++ ",".intercalate pieces ++ "]") = some value →
        value = .arr (enumValues ("[" ++ ",".intercalate pieces ++ "]")) := by
  refine ⟨?_, fun unread => ?_, fun value read => enumValues_of_parse? read ?_⟩
  · have unbracketed : '[' ∉ (",".intercalate pieces).toList := by
      rw [String.toList_intercalate]
      refine Text.notMem_intercalate (by decide) fun part member => ?_
      obtain ⟨piece, listed, rfl⟩ := List.mem_map.mp member
      exact notMem_of_written areEntries written (by decide) piece listed
    have noArray (value : Json) (read : Json.parse? (",".intercalate pieces) = some value) :
        value.isArray = false := by
      rw [← Bool.not_eq_true, Json.isArray_of_parse? read]
      intro head
      exact unbracketed ((List.dropWhile_sublist _).subset (List.mem_of_mem_head? head))
    rw [enumValues_of_notArray noArray]
    exact listEntries_of_written nonempty areEntries written rfl
  · have none (value : Json) (read : Json.parse? ("[" ++ ",".intercalate pieces ++ "]") = some value) :
        value.isArray = false := by
      rw [unread] at read
      contradiction
    rw [enumValues_of_notArray none]
    refine listEntries_of_written nonempty areEntries written ?_
    simp [isListDecoration]
  · rw [Json.isArray_of_parse? read]
    simp [Json.isBlank]

theorem enumValues_written_sample :
    ["dev build", "", "2"] ≠ [] ∧ (∀ entry ∈ ["dev build", "", "2"], IsEntry entry.toList) ∧
      List.Forall₂ (fun entry piece => WritesEntry entry.toList piece.toList)
        ["dev build", "", "2"] ["\tdev build", "\" \"", "\n2"] ∧
      enumValues (",".intercalate ["\tdev build", "\" \"", "\n2"]) =
        ["dev build", "", "2"].map .str ∧
      enumValues ("[" ++ ",".intercalate ["\tdev build", "\" \"", "\n2"] ++ "]") =
        ["dev build", "", "2"].map .str ∧
      .arr [.str " ", .int 2] = Json.arr (enumValues ("[" ++ ",".intercalate ["\" \"", "\n2"] ++ "]")) := by
  have areEntries : ∀ entry ∈ ["", "2"], IsEntry entry.toList := by decide
  have areEntriesAll : ∀ entry ∈ ["dev build", "", "2"], IsEntry entry.toList := by decide
  have none : ∀ c ∈ [], isBlank c = true := List.forall_mem_nil _
  have blank : ∀ c ∈ [' '], isBlank c = true := List.all_eq_true.mp (by decide)
  have tab : ∀ c ∈ ['\t'], isBlank c = true := List.all_eq_true.mp (by decide)
  have newline : ∀ c ∈ ['\n'], isBlank c = true := List.all_eq_true.mp (by decide)
  have written : List.Forall₂ (fun entry piece => WritesEntry entry.toList piece.toList) ["", "2"]
      ["\" \"", "\n2"] := .cons (.quoted none blank none none) (.cons (.bare newline none) .nil)
  have first : WritesEntry "dev build".toList "\tdev build".toList := by
    simpa using @WritesEntry.bare "dev build".toList _ _ tab none
  have filled : ["dev build", "", "2"] ≠ [] := List.cons_ne_nil _ _
  have entries := enumValues_written filled areEntriesAll (.cons first written)
  have array := enumValues_written (List.cons_ne_nil _ _) areEntries written
  exact ⟨filled, areEntriesAll, .cons first written, entries.1,
    entries.2.1 (by with_unfolding_all rfl), array.2.2 _ (by with_unfolding_all rfl)⟩

end Lists

end Toggles.Doc
