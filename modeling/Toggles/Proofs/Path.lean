import Mathlib.Data.List.Induction
import Toggles.Definition.Tree
import Toggles.Document.Query
import Toggles.Proofs.Ordered

/-! Paths and the ways down that they name.

A way is the list of names from the top level down to a feature. The path of a way
puts dots between its names, and as long as no name has a dot itself the names of
the path are the way again.
-/

set_option autoImplicit false

namespace Toggles.Text

theorem splitAt_ne_nil (separator : Char) (text : List Char) : splitAt separator text ≠ [] := by
  cases text with
  | nil => simp [splitAt]
  | cons c rest =>
      unfold splitAt
      split
      · simp
      · split <;> simp

theorem splitAt_of_notMem {separator : Char} {text : List Char} (absent : separator ∉ text) :
    splitAt separator text = [text] := by
  induction text with
  | nil => rfl
  | cons c rest ih =>
      simp only [List.mem_cons, not_or] at absent
      simp [splitAt, ih absent.2, Ne.symm absent.1]

-- A separator ends the parts of what is before it.
theorem splitAt_append (separator : Char) (first second : List Char) :
    splitAt separator (first ++ separator :: second) =
      splitAt separator first ++ splitAt separator second := by
  induction first with
  | nil =>
      simp only [List.nil_append, splitAt]
      split
      · next none => exact absurd none (splitAt_ne_nil separator second)
      · next some => simp [some]
  | cons c rest ih =>
      simp only [List.cons_append, splitAt, ih]
      cases parts : splitAt separator rest with
      | nil => exact absurd parts (splitAt_ne_nil separator rest)
      | cons part parts =>
          simp only [List.cons_append]
          split <;> rfl

theorem splitAt_intercalate {separator : Char} {parts : List (List Char)} (nonempty : parts ≠ [])
    (absent : ∀ part ∈ parts, separator ∉ part) :
    splitAt separator ([separator].intercalate parts) = parts := by
  induction parts with
  | nil => contradiction
  | cons part rest ih =>
      obtain ⟨first, absent⟩ := List.forall_mem_cons.mp absent
      cases rest with
      | nil => simpa using splitAt_of_notMem first
      | cons next rest =>
          rw [List.intercalate_cons_cons, List.append_assoc, List.singleton_append, splitAt_append,
            splitAt_of_notMem first, ih (List.cons_ne_nil next rest) absent, List.singleton_append]

theorem intercalate_splitAt (separator : Char) (text : List Char) :
    [separator].intercalate (splitAt separator text) = text := by
  induction text with
  | nil => rfl
  | cons c rest ih =>
      cases found : splitAt separator rest with
      | nil => exact absurd found (splitAt_ne_nil separator rest)
      | cons part parts =>
          rw [found] at ih
          simp only [splitAt, found]
          split
          · next equal => simp [List.intercalate_cons_cons, ih, equal]
          · cases parts with
            | nil => simp_all
            | cons => simp_all [List.intercalate_cons_cons]

theorem notMem_of_mem_splitAt {separator : Char} {text part : List Char}
    (member : part ∈ splitAt separator text) : separator ∉ part := by
  induction text generalizing part with
  | nil =>
      rw [splitAt, List.mem_singleton] at member
      simp [member]
  | cons c rest ih =>
      cases found : splitAt separator rest with
      | nil => exact absurd found (splitAt_ne_nil separator rest)
      | cons first parts =>
          simp only [found, List.forall_mem_cons] at ih
          simp only [splitAt, found] at member
          split at member
          · rcases List.mem_cons.mp member with rfl | member
            · exact List.not_mem_nil
            · exact (List.mem_cons.mp member).elim (· ▸ ih.1) (ih.2 part)
          · next other =>
              rcases List.mem_cons.mp member with rfl | member
              · simpa using ⟨Ne.symm other, ih.1⟩
              · exact ih.2 part member

theorem splitAt_injective {separator : Char} {first second : List Char}
    (same : splitAt separator first = splitAt separator second) : first = second := by
  rw [← intercalate_splitAt separator first, same, intercalate_splitAt]

def pieces (separator : Char) (text : String) : List String :=
  (splitAt separator text.toList).map String.ofList

section Pieces
variable {separator : Char} {mark : String}

theorem pieces_ne_nil (separator : Char) (text : String) : pieces separator text ≠ [] := by
  simp [pieces, splitAt_ne_nil]

theorem pieces_of_notMem {text : String} (absent : separator ∉ text.toList) :
    pieces separator text = [text] := by
  simp [pieces, splitAt_of_notMem absent]

theorem pieces_append (single : mark.toList = [separator]) (first second : String) :
    pieces separator (first ++ mark ++ second) = pieces separator first ++ pieces separator second := by
  have text : (first ++ mark ++ second).toList = first.toList ++ separator :: second.toList := by
    simp [String.toList_append, single]
  simp [pieces, text, splitAt_append]

theorem notMem_of_mem_pieces {text piece : String} (member : piece ∈ pieces separator text) :
    separator ∉ piece.toList := by
  obtain ⟨part, written, rfl⟩ := List.mem_map.mp member
  rw [String.toList_ofList]
  exact notMem_of_mem_splitAt written

theorem pieces_intercalate (single : mark.toList = [separator]) {names : List String}
    (nonempty : names ≠ []) (absent : ∀ name ∈ names, separator ∉ name.toList) :
    pieces separator (mark.intercalate names) = names := by
  have absentParts : ∀ part ∈ names.map String.toList, separator ∉ part := by
    simpa using absent
  have text : (mark.intercalate names).toList = [separator].intercalate (names.map String.toList) := by
    rw [String.toList_intercalate, single]
  rw [pieces, text, splitAt_intercalate (by simpa using nonempty) absentParts]
  simp

theorem intercalate_pieces (single : mark.toList = [separator]) (text : String) :
    mark.intercalate (pieces separator text) = text := by
  refine String.toList_inj.mp ?_
  have parts : (pieces separator text).map String.toList = splitAt separator text.toList := by
    simp [pieces, Function.comp_def]
  calc (mark.intercalate (pieces separator text)).toList
      = [separator].intercalate ((pieces separator text).map String.toList) := by
        rw [String.toList_intercalate, single]
    _ = text.toList := by rw [parts, intercalate_splitAt]

theorem pieces_injective {first second : String}
    (same : pieces separator first = pieces separator second) : first = second := by
  have texts := congrArg (List.map String.toList) same
  simp only [pieces, List.map_map, Function.comp_def, String.toList_ofList, List.map_id'] at texts
  exact String.toList_inj.mp (splitAt_injective texts)

end Pieces

end Toggles.Text

namespace Toggles.Document

open Definition (childPath)

/-- A name that can stand in a path. -/
def PlainName (name : String) : Prop :=
  name ≠ "" ∧ '.' ∉ name.toList

instance : DecidablePred PlainName := fun name =>
  inferInstanceAs (Decidable (name ≠ "" ∧ '.' ∉ name.toList))

def wayPath (way : List String) : String :=
  way.foldl childPath ""

theorem wayPath_snoc (way : List String) (name : String) :
    wayPath (way ++ [name]) = childPath (wayPath way) name := by
  simp [wayPath]

theorem pathNames_ne_nil (path : String) : pathNames path ≠ [] :=
  Text.pieces_ne_nil '.' path

theorem pathNames_of_plain {name : String} (dotless : '.' ∉ name.toList) : pathNames name = [name] :=
  Text.pieces_of_notMem dotless

-- A dot parts the names of what stands before it from those of what stands behind it.
theorem pathNames_append (first second : String) :
    pathNames (first ++ "." ++ second) = pathNames first ++ pathNames second :=
  Text.pieces_append rfl first second

theorem pathNames_dot {parent name : String} (dotless : '.' ∉ name.toList) :
    pathNames (parent ++ "." ++ name) = pathNames parent ++ [name] := by
  rw [pathNames_append, pathNames_of_plain dotless]

theorem dotless_of_mem_pathNames {path name : String} (member : name ∈ pathNames path) :
    '.' ∉ name.toList :=
  Text.notMem_of_mem_pieces member

-- Names without dots are the names of the path that has dots between them.
theorem pathNames_intercalate {names : List String} (nonempty : names ≠ [])
    (dotless : ∀ name ∈ names, '.' ∉ name.toList) : pathNames (".".intercalate names) = names :=
  Text.pieces_intercalate rfl nonempty dotless

theorem intercalate_pathNames (path : String) : ".".intercalate (pathNames path) = path :=
  Text.intercalate_pieces rfl path

theorem pathNames_injective {first second : String} (same : pathNames first = pathNames second) :
    first = second :=
  Text.pieces_injective same

theorem wayPath_ne_empty {way : List String} (nonempty : way ≠ [])
    (plain : ∀ name ∈ way, PlainName name) : wayPath way ≠ "" := by
  obtain ⟨front, name, rfl⟩ := (List.eq_nil_or_concat way).resolve_left nonempty
  have last : name ≠ "" := (plain name (by simp)).1
  rw [List.concat_eq_append, wayPath_snoc, childPath]
  split
  · exact last
  · simp [last]

-- The names of a path are the way that it was made from.
theorem pathNames_wayPath {way : List String} (nonempty : way ≠ [])
    (plain : ∀ name ∈ way, PlainName name) : pathNames (wayPath way) = way := by
  induction way using List.reverseRecOn with
  | nil => contradiction
  | append_singleton front name ih =>
      have dotless : '.' ∉ name.toList := (plain name (by simp)).2
      have plainFront : ∀ other ∈ front, PlainName other :=
        fun other member => plain other (List.mem_append_left _ member)
      rw [wayPath_snoc, childPath]
      by_cases top : front = []
      · subst top
        simpa [wayPath] using pathNames_of_plain dotless
      · have below : (wayPath front).isEmpty = false := by
          simpa using wayPath_ne_empty top plainFront
        rw [below, if_neg Bool.false_ne_true, pathNames_dot dotless, ih top plainFront]

theorem pathNames_childPath {way : List String} {name : String}
    (plain : ∀ other ∈ way, PlainName other) (plainName : PlainName name) :
    pathNames (childPath (wayPath way) name) = way ++ [name] := by
  rw [← wayPath_snoc]
  refine pathNames_wayPath (by simp) fun other member => ?_
  rcases List.mem_append.mp member with member | member
  · exact plain other member
  · exact List.mem_singleton.mp member ▸ plainName

theorem wayPath_pathNames {path : String} (plain : ∀ name ∈ pathNames path, PlainName name) :
    wayPath (pathNames path) = path :=
  pathNames_injective (pathNames_wayPath (pathNames_ne_nil path) plain)

section Following

theorem follow?_nil_features (way : List String) : follow? [] way = none := by
  cases way with
  | nil => rfl
  | cons name rest => cases rest <;> rfl

theorem follow?_cons (features : Features) (name : String) {rest : List String}
    (nonempty : rest ≠ []) :
    follow? features (name :: rest) =
      (Ordered.get? features name).bind fun feature => follow? feature.childFeatures rest := by
  cases rest with
  | nil => contradiction
  | cons next rest =>
      simp only [follow?, Option.bind_eq_bind]
      refine Option.bind_congr fun feature _ => ?_
      cases children : feature.children with
      | none => simp [Feature.childFeatures, children, follow?_nil_features]
      | some under => simp [Feature.childFeatures, children]

-- A way down leads through the features on the way to the ones under them.
theorem follow?_snoc (features : Features) (way : List String) (name : String) :
    follow? features (way ++ [name]) =
      if way = [] then Ordered.get? features name
      else (follow? features way).bind fun feature => Ordered.get? feature.childFeatures name := by
  induction way generalizing features with
  | nil => rfl
  | cons first rest ih =>
      rw [if_neg (List.cons_ne_nil first rest), List.cons_append, follow?_cons _ _ (by simp)]
      by_cases bottom : rest = []
      · simp [bottom, follow?]
      · simp [follow?_cons _ _ bottom, ih, bottom, Option.bind_assoc]

end Following

end Toggles.Document
