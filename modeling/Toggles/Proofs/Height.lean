import Toggles.Declaration.Source
import Toggles.Proofs.RoundTrip
import Toggles.Proofs.Success

/-! How high the types are that a source declares.

A unit of nesting pays for a union, for what stands in brackets, and for the arrays
between them. Array marks are read in a loop that takes no units, so a type is as high
as its longest row of arrays allows, and no higher.
-/

set_option autoImplicit false

namespace Toggles.Declaration

section Heights

mutual

/-- How many arrays, unions, objects, references and tuples there are on the longest way
down. -/
def TypeExpr.height : TypeExpr → Nat
  | .keyword _ | .literal _ | .uninterpreted => 0
  | .array item => item.height + 1
  | .union members => deepest (heights members) + 1
  | .object members => deepest (memberHeights members) + 1
  | .reference _ arguments => deepest (heights arguments) + 1
  | .tuple items => deepest (heights items) + 1

def heights : List TypeExpr → List Nat
  | [] => []
  | type :: rest => type.height :: heights rest

def memberHeights : List (Property TypeExpr) → List Nat
  | [] => []
  | ⟨_, _, _, type⟩ :: rest => type.height :: memberHeights rest

end

def TypeExpr.arrays : TypeExpr → Nat
  | .array item => item.arrays + 1
  | _ => 0

mutual

def TypeExpr.longestRow : TypeExpr → Nat
  | .keyword _ | .literal _ | .uninterpreted => 0
  | .array item => max (item.arrays + 1) item.longestRow
  | .union members => deepest (longestRows members)
  | .object members => deepest (memberRows members)
  | .reference _ arguments => deepest (longestRows arguments)
  | .tuple items => deepest (longestRows items)

def longestRows : List TypeExpr → List Nat
  | [] => []
  | type :: rest => type.longestRow :: longestRows rest

def memberRows : List (Property TypeExpr) → List Nat
  | [] => []
  | ⟨_, _, _, type⟩ :: rest => type.longestRow :: memberRows rest

end

theorem heights_eq_map (types : List TypeExpr) : heights types = types.map TypeExpr.height := by
  induction types with
  | nil => rfl
  | cons type rest ih => rw [heights, ih, List.map_cons]

theorem memberHeights_eq_map (members : List Member) :
    memberHeights members = members.map fun member => member.type.height := by
  induction members with
  | nil => rfl
  | cons member rest ih => rw [memberHeights, ih, List.map_cons]

theorem longestRows_eq_map (types : List TypeExpr) :
    longestRows types = types.map TypeExpr.longestRow := by
  induction types with
  | nil => rfl
  | cons type rest ih => rw [longestRows, ih, List.map_cons]

theorem memberRows_eq_map (members : List Member) :
    memberRows members = members.map fun member => member.type.longestRow := by
  induction members with
  | nil => rfl
  | cons member rest ih => rw [memberRows, ih, List.map_cons]

theorem deepest_le {depths : List Nat} {bound : Nat} :
    deepest depths ≤ bound ↔ ∀ depth ∈ depths, depth ≤ bound := by
  induction depths with
  | nil => simp [deepest]
  | cons first rest ih =>
      rw [List.forall_mem_cons, ← ih]
      exact Nat.max_le

theorem TypeExpr.arrays_le_longestRow (type : TypeExpr) : type.arrays ≤ type.longestRow := by
  cases type with
  | array item => exact Nat.le_max_left _ _
  | _ => exact Nat.zero_le _

end Heights

section Bounds
variable {row bound larger : Nat} {type : TypeExpr} {types : List TypeExpr} {members : List Member}

/-- A type is no higher than a bound, if its rows of arrays are no longer than another. -/
def TypeExpr.Fits (row bound : Nat) (type : TypeExpr) : Prop :=
  type.longestRow ≤ row → type.height ≤ bound

/-- A type is no higher than a bound, the arrays at its top not counted. -/
def TypeExpr.Carries (row bound : Nat) (type : TypeExpr) : Prop :=
  type.longestRow ≤ row → type.height ≤ bound + type.arrays

theorem TypeExpr.Fits.mono (fits : type.Fits row bound) (le : bound ≤ larger) :
    type.Fits row larger :=
  fun rows => Nat.le_trans (fits rows) le

theorem fits_uninterpreted : TypeExpr.uninterpreted.Fits row bound :=
  fun _ => Nat.zero_le bound

theorem fits_keyword (keyword : Keyword) : (TypeExpr.keyword keyword).Fits row bound :=
  fun _ => Nat.zero_le bound

theorem fits_literal (literal : Literal) : (TypeExpr.literal literal).Fits row bound :=
  fun _ => Nat.zero_le bound

theorem deepest_heights_le (each : ∀ type ∈ types, type.Fits row bound)
    (rows : deepest (longestRows types) ≤ row) : deepest (heights types) ≤ bound := by
  rw [longestRows_eq_map, deepest_le, List.forall_mem_map] at rows
  rw [heights_eq_map, deepest_le, List.forall_mem_map]
  exact fun type member => each type member (rows type member)

theorem fits_union (each : ∀ type ∈ types, type.Fits row bound) :
    (TypeExpr.union types).Fits row (bound + 1) :=
  fun rows => Nat.succ_le_succ (deepest_heights_le each rows)

theorem fits_reference (name : String) (each : ∀ type ∈ types, type.Fits row bound) :
    (TypeExpr.reference name types).Fits row (bound + 1) :=
  fun rows => Nat.succ_le_succ (deepest_heights_le each rows)

theorem fits_tuple (each : ∀ type ∈ types, type.Fits row bound) :
    (TypeExpr.tuple types).Fits row (bound + 1) :=
  fun rows => Nat.succ_le_succ (deepest_heights_le each rows)

theorem fits_object (each : ∀ member ∈ members, member.type.Fits row bound) :
    (TypeExpr.object members).Fits row (bound + 1) := by
  intro rows
  rw [TypeExpr.longestRow, memberRows_eq_map, deepest_le, List.forall_mem_map] at rows
  rw [TypeExpr.height, memberHeights_eq_map]
  refine Nat.succ_le_succ (deepest_le.mpr (List.forall_mem_map.mpr fun member present => ?_))
  exact each member present (rows member present)

theorem TypeExpr.Fits.carries (fits : type.Fits row bound) : type.Carries row bound :=
  fun rows => Nat.le_add_right_of_le (fits rows)

theorem TypeExpr.Carries.array (carries : type.Carries row bound) :
    (TypeExpr.array type).Carries row bound := by
  intro rows
  have below := carries (Nat.le_trans (Nat.le_max_right _ _) rows)
  simp only [height, arrays]
  omega

theorem TypeExpr.Carries.fits (carries : type.Carries row bound) :
    type.Fits row (bound + row) := by
  intro rows
  have below := carries rows
  have top := type.arrays_le_longestRow
  omega

end Bounds

section Readers

def Yields {α : Type} {small : Nat} (outcome : Outcome α small) (holds : α → Prop) : Prop :=
  ∀ reading, outcome = .ok reading → holds reading.value

section Outcomes
variable {α β : Type} {small large : Nat} {holds : α → Prop} {result : β → Prop}

theorem yields_ok {reading : Reading Located α small} (here : holds reading.value) :
    Yields (.ok reading) holds := by
  rintro _ ⟨⟩
  exact here

theorem yields_error (refusal : Refusal) : Yields (.error refusal : Outcome α small) holds :=
  nofun

theorem Yields.imp {outcome : Outcome α small} {other : α → Prop} (read : Yields outcome holds)
    (implies : ∀ value, holds value → other value) : Yields outcome other :=
  fun reading done => implies reading.value (read reading done)

theorem Yields.bind {first : Outcome α small} {next : Reading Located α small → Outcome β large}
    (read : Yields first holds)
    (continues : ∀ reading, holds reading.value → Yields (next reading) result) :
    Yields (first >>= next) result := by
  intro reading done
  obtain ⟨value, same, done⟩ := bind_eq_ok.mp done
  exact continues value (read value same) reading done

-- What is read first does not matter.
theorem yields_after {first : Outcome α small} {next : Reading Located α small → Outcome β large}
    (continues : ∀ reading, Yields (next reading) result) : Yields (first >>= next) result :=
  have read : Yields first fun _ => True := fun _ _ => trivial
  read.bind fun reading _ => continues reading

end Outcomes

namespace Level

structure Fitting (row bound : Nat) (inner : Level) : Prop where
  type : ∀ tokens, Yields (inner.type tokens) (TypeExpr.Fits row bound)
  body : ∀ tokens, Yields (inner.body tokens) fun members =>
    ∀ member ∈ members, member.type.Fits row bound

variable {inner : Level} {row bound size : Nat} {tokens : List Located}

section Primaries

theorem numeral_fits {negative : Bool} {raw : String} {position : Nat} {type : TypeExpr}
    (read : numeral negative raw position = .ok type) : type.Fits row bound := by
  unfold numeral at read
  split at read
  · next found =>
      cases read
      unfold numeralType? at found
      split at found
      · cases found
        exact fits_uninterpreted
      · obtain ⟨literal, -, rfl⟩ := Option.map_eq_some_iff.mp found
        exact fits_literal literal
  · contradiction

theorem function_fits : Yields (inner.function tokens) (TypeExpr.Fits row bound) :=
  yields_after fun _ => yields_after fun _ => yields_after fun _ => yields_after fun _ =>
    yields_ok fits_uninterpreted

variable (fitting : inner.Fitting row bound)
include fitting

theorem argumentsAfter_fits {seen : List TypeExpr} {within : tokens.length ≤ size}
    (before : ∀ type ∈ seen, type.Fits row bound) :
    Yields (inner.argumentsAfter seen size tokens within) fun arguments =>
      ∀ type ∈ arguments, type.Fits row bound := by
  induction seen, tokens, within using argumentsAfter.induct with
  | case1 seen tokens within ih =>
      rw [argumentsAfter]
      refine (fitting.type tokens).bind fun argument fits => ?_
      have all : ∀ type ∈ argument.value :: seen, type.Fits row bound :=
        List.forall_mem_cons.mpr ⟨fits, before⟩
      split
      · exact ih argument all
      · refine yields_after fun close => yields_ok ?_
        simpa only [List.mem_reverse] using all

theorem reference_fits : Yields (inner.reference tokens) (TypeExpr.Fits row (bound + 1)) := by
  refine yields_after fun name => ?_
  split
  · exact (argumentsAfter_fits fitting (by simp)).bind fun arguments fits =>
      yields_ok (fits_reference name.value fits)
  · exact yields_ok (fits_reference name.value (by simp))

theorem itemsAfter_fits {seen : List TypeExpr} {within : tokens.length ≤ size}
    (before : ∀ type ∈ seen, type.Fits row bound) :
    Yields (inner.itemsAfter seen size tokens within) fun items =>
      ∀ type ∈ items, type.Fits row bound := by
  induction seen, tokens, within using itemsAfter.induct with
  | case1 seen tokens within closed =>
      rw [itemsAfter, dif_pos closed]
      refine yields_ok ?_
      simpa only [List.mem_reverse] using before
  | case2 seen tokens within opened start _ _ ih =>
      rw [itemsAfter, dif_neg opened]
      refine (fitting.type start).bind fun item fits => ?_
      have all : ∀ type ∈ item.value :: seen, type.Fits row bound :=
        List.forall_mem_cons.mpr ⟨fits, before⟩
      simp only
      split
      · exact ih item all
      · refine yields_after fun close => yields_ok ?_
        simpa only [List.mem_reverse] using all

theorem tuple_fits : Yields (inner.tuple tokens) (TypeExpr.Fits row (bound + 1)) :=
  yields_after fun _ => (itemsAfter_fits fitting (by simp)).bind fun _ fits => yields_ok (fits_tuple fits)

theorem parenthesized_fits : Yields (inner.parenthesized tokens) (TypeExpr.Fits row bound) :=
  yields_after fun _ => (fitting.type _).bind fun _ fits => yields_after fun _ => yields_ok fits

theorem worded_fits {word : String} {first : Located} :
    Yields (inner.worded word first tokens) (TypeExpr.Fits row (bound + 1)) := by
  unfold worded
  split
  · exact yields_ok (fits_literal _)
  · split
    · exact yields_ok (fits_literal _)
    · split
      · exact yields_after fun _ => yields_ok fits_uninterpreted
      · split
        · exact yields_ok fits_uninterpreted
        · split
          · exact function_fits.bind fun _ fits => yields_ok fits
          · split
            · exact yields_ok (fits_keyword _)
            · exact reference_fits fitting

theorem marked_fits {mark : Mark} {first : Located} :
    Yields (inner.marked mark first tokens) (TypeExpr.Fits row (bound + 1)) := by
  unfold marked
  split
  · split
    · intro reading read
      obtain ⟨type, found, same⟩ := bind_eq_ok.mp read
      cases same
      exact numeral_fits found
    · exact yields_error _
  · exact (fitting.body _).bind fun _ fits => yields_ok (fits_object fits)
  · exact tuple_fits fitting
  · split
    · exact function_fits
    · exact (parenthesized_fits fitting).imp
        fun _ fits => fits.mono (Nat.le_succ _)
  · exact function_fits
  · exact yields_error _

theorem primary_fits : Yields (inner.primary tokens) (TypeExpr.Fits row (bound + 1)) := by
  unfold primary
  split
  · exact yields_error _
  · split
    · exact worded_fits fitting
    · exact yields_ok (fits_literal _)
    · intro reading read
      obtain ⟨type, found, same⟩ := bind_eq_ok.mp read
      cases same
      exact numeral_fits found
    · exact yields_ok fits_uninterpreted
    · exact marked_fits fitting
    · exact yields_error _

end Primaries

section Operators

-- Each array mark adds one array, which is why the top of a type is not counted here.
theorem suffixes_carries {type : TypeExpr} {within : tokens.length < size}
    (before : type.Carries row bound) :
    Yields (suffixes type size tokens within) (TypeExpr.Carries row bound) := by
  induction type, tokens, within using suffixes.induct with
  | case1 type tokens within opened closed ih =>
      rw [suffixes, if_pos opened, if_pos closed]
      exact ih before.array
  | case2 type tokens within opened other ih =>
      rw [suffixes, if_pos opened, if_neg other]
      exact yields_after fun group => ih group fits_uninterpreted.carries
  | case3 type tokens within other =>
      rw [suffixes, if_neg other]
      exact yields_ok before

theorem intersectionAfter_fits {within : tokens.length < size} :
    Yields (inner.intersectionAfter size tokens within) (TypeExpr.Fits row bound) := by
  induction tokens, within using intersectionAfter.induct with
  | case1 tokens within further ih =>
      rw [intersectionAfter, if_pos further]
      exact yields_after fun next => ih next
  | case2 tokens within last =>
      rw [intersectionAfter, if_neg last]
      exact yields_ok fits_uninterpreted

variable (fitting : inner.Fitting row bound)
include fitting

theorem suffixed_fits : Yields (inner.suffixed tokens) (TypeExpr.Fits row (bound + 1 + row)) := by
  refine (primary_fits fitting).bind fun first fits => ?_
  refine (suffixes_carries fits.carries).bind fun result carries => yields_ok ?_
  simp only [Reading.map]
  split
  · exact fits_uninterpreted
  · exact carries.fits

theorem intersection_fits :
    Yields (inner.intersection tokens) (TypeExpr.Fits row (bound + 1 + row)) := by
  refine (suffixed_fits fitting).bind fun first fits => ?_
  simp only
  split
  · exact intersectionAfter_fits
  · exact yields_ok fits

theorem unionAfter_fits {seen : List TypeExpr} {within : tokens.length < size}
    (before : ∀ type ∈ seen, type.Fits row (bound + 1 + row)) :
    Yields (inner.unionAfter seen size tokens within) fun members =>
      ∀ type ∈ members, type.Fits row (bound + 1 + row) := by
  induction seen, tokens, within using unionAfter.induct with
  | case1 seen tokens within further ih =>
      rw [unionAfter, if_pos further]
      exact (intersection_fits fitting).bind fun next fits =>
        ih next (List.forall_mem_cons.mpr ⟨fits, before⟩)
  | case2 seen tokens within last =>
      rw [unionAfter, if_neg last]
      refine yields_ok ?_
      simpa only [List.mem_reverse] using before

theorem union_fits : Yields (inner.union tokens) (TypeExpr.Fits row (bound + (row + 2))) := by
  refine (intersection_fits fitting).bind fun first fits => ?_
  refine (unionAfter_fits fitting (List.forall_mem_singleton.mpr fits)).bind fun members each => yields_ok ?_
  have sum : bound + (row + 2) = bound + 1 + row + 1 := by omega
  rw [sum]
  simp only [Reading.map, unionOf]
  split
  · next member same =>
      exact (each member (same ▸ List.mem_singleton_self member)).mono (Nat.le_succ _)
  · exact fits_union each

theorem conditional_fits :
    Yields (inner.conditional tokens) (TypeExpr.Fits row (bound + (row + 2))) := by
  refine (union_fits fitting).bind fun check fits => ?_
  split
  · exact yields_after fun _ => yields_after fun _ => yields_after fun _ => yields_after fun _ =>
      yields_after fun _ => yields_ok fits_uninterpreted
  · exact yields_ok fits

end Operators

section Members
variable (fitting : inner.Fitting row bound)
include fitting

theorem memberAfter_fits {doc : Option String} {name : String} :
    Yields (inner.memberAfter doc name tokens) fun member =>
      ∀ found ∈ member, found.type.Fits row bound := by
  unfold memberAfter
  simp only
  split
  · refine (fitting.type _).bind fun type fits => yields_ok ?_
    rintro _ ⟨⟩
    exact fits
  · split
    · exact yields_after fun _ => yields_ok fun _ found => (Option.not_mem_none _ found).elim
    · split
      · refine yields_ok ?_
        rintro _ ⟨⟩
        exact fits_uninterpreted
      · exact yields_error _

theorem namedMember_fits {doc : Option String} :
    Yields (inner.namedMember doc tokens) fun member =>
      ∀ found ∈ member, found.type.Fits row bound := by
  unfold namedMember
  split
  · exact yields_error _
  · split
    · split
      · exact yields_after fun _ => yields_ok nofun
      · exact memberAfter_fits fitting
    · exact memberAfter_fits fitting
    · exact memberAfter_fits fitting
    · exact yields_after fun _ => yields_ok nofun
    · exact yields_after fun _ => yields_ok nofun
    · exact yields_after fun _ => yields_ok nofun
    · exact yields_error _

theorem member_fits : Yields (inner.member tokens) fun member =>
    ∀ found ∈ member, found.type.Fits row bound :=
  (namedMember_fits fitting).bind fun _ fits => yields_ok fits

theorem membersAfter_fits {seen : List Member} {within : tokens.length ≤ size}
    (before : ∀ member ∈ seen, member.type.Fits row bound) :
    Yields (inner.membersAfter seen size tokens within) fun members =>
      ∀ member ∈ members, member.type.Fits row bound := by
  induction seen, tokens, within using membersAfter.induct with
  | case1 seen tokens within _ start =>
      rw [membersAfter]
      split
      · exact yields_error _
      · next same => simp [start] at same
  | case2 seen tokens within _ first rest start closed =>
      rw [membersAfter]
      split
      · next same => simp [start] at same
      · next same =>
          cases start.symm.trans same
          rw [if_pos closed]
          refine yields_ok ?_
          simpa only [List.mem_reverse] using before
  | case3 seen tokens within _ first rest start opened ih =>
      rw [membersAfter]
      split
      · next same => simp [start] at same
      · next same =>
          cases start.symm.trans same
          rw [if_neg opened]
          refine (member_fits fitting).bind fun next fits => ih next ?_
          simp only [List.mem_append, Option.mem_toList]
          exact fun member present => present.elim (fits member) (before member)

theorem objectBody_fits : Yields (inner.objectBody tokens) fun members =>
    ∀ member ∈ members, member.type.Fits row bound :=
  yields_after fun _ => (membersAfter_fits fitting (by simp)).bind fun _ fits => yields_ok fits

end Members

section Units

theorem exhausted_fitting : exhausted.Fitting row bound :=
  ⟨fun _ => yields_error _, fun _ => yields_error _⟩

-- One unit of nesting pays for a union, for a row of arrays and for what is in brackets.
theorem ofNesting_fitting (row units : Nat) : (ofNesting units).Fitting row ((row + 2) * units) := by
  induction units with
  | zero => exact exhausted_fitting
  | succ units ih =>
      rw [Nat.mul_succ]
      constructor
      case type => exact fun tokens => conditional_fits ih
      case body =>
        exact fun tokens => (objectBody_fits ih).imp fun members fits member present =>
          (fits member present).mono (Nat.le_add_right _ _)

end Units

end Level

theorem readInterface_fits {tokens : List Located} (row : Nat) :
    Yields (readInterface tokens) fun declared =>
      ∀ member ∈ declared.members, member.type.Fits row ((row + 2) * maximumNesting) := by
  refine yields_after fun name => ?_
  simp only
  split
  · exact yields_error _
  · exact ((Level.ofNesting_fitting row maximumNesting).body _).bind fun body fits => yields_ok fits

-- The members of an interface that is read fit, so those of all interfaces do.
theorem interfacesAfter_fits {seen interfaces : List Interface} {depth : Nat} {tokens : List Located}
    (row : Nat) (before : ∀ declared ∈ seen, ∀ member ∈ declared.members,
      member.type.Fits row ((row + 2) * maximumNesting))
    (read : interfacesAfter seen depth tokens = .ok interfaces) :
    ∀ declared ∈ interfaces, ∀ member ∈ declared.members,
      member.type.Fits row ((row + 2) * maximumNesting) := by
  induction seen, depth, tokens using interfacesAfter.induct with
  | case1 seen depth =>
      rw [interfacesAfter] at read
      cases read
      simpa only [List.mem_reverse] using before
  | case2 seen depth first rest opens ih =>
      rw [interfacesAfter, if_pos opens] at read
      exact ih before read
  | case3 seen depth first rest opens closes ih =>
      rw [interfacesAfter, if_neg opens, if_pos closes] at read
      exact ih before read
  | case4 seen depth first rest opens closes keyword ih =>
      rw [interfacesAfter, if_neg opens, if_neg closes, if_pos keyword] at read
      obtain ⟨declared, readDeclared, read⟩ := bind_eq_ok.mp read
      refine ih declared (List.forall_mem_cons.mpr ⟨?_, before⟩) read
      exact readInterface_fits row declared readDeclared
  | case5 seen depth first rest opens closes other ih =>
      rw [interfacesAfter, if_neg opens, if_neg closes, if_neg other] at read
      exact ih before read

end Readers

section Sources

/-- A type in a source that is accepted is no higher than the units of nesting pay for, when
each unit pays for a union, what stands in brackets, and the longest row of arrays. Where
no array is the item of another one, these are three for each unit. -/
theorem height_le_of_parse {source : String} {file : SourceFile}
    (parsed : SourceFile.parse source = .ok file) {declared : Interface}
    (present : declared ∈ file.interfaces) {member : Member} (listed : member ∈ declared.members) :
    member.type.height ≤ (member.type.longestRow + 2) * maximumNesting ∧
      (member.type.longestRow ≤ 1 → member.type.height ≤ 3 * maximumNesting) := by
  obtain ⟨stream, -, read⟩ := interfaces_of_parse parsed
  have fits (row : Nat) : member.type.Fits row ((row + 2) * maximumNesting) :=
    interfacesAfter_fits row (by simp) read declared present member listed
  exact ⟨fits _ (Nat.le_refl _), fits 1⟩

def sampleNestedType : TypeExpr :=
  .union [.array (.tuple [.reference "B" []]), .reference "C" []]

theorem height_le_of_parse_sample :
    SourceFile.parse "interface A\x7bx:[B][]|C\x7d" =
        .ok ⟨[⟨"A", [⟨"x", false, none, sampleNestedType⟩]⟩]⟩ ∧
      sampleNestedType.height = 4 ∧ sampleNestedType.longestRow = 1 ∧
      sampleNestedType.height ≤ 3 * maximumNesting := by
  have tokenized : tokenize "interface A\x7bx:[B][]|C\x7d" = .ok ⟨[
      ⟨.word "interface", 0, none⟩, ⟨.word "A", 10, none⟩, ⟨.mark .openBrace, 11, none⟩,
      ⟨.word "x", 12, none⟩, ⟨.mark .colon, 13, none⟩, ⟨.mark .openBracket, 14, none⟩,
      ⟨.word "B", 15, none⟩, ⟨.mark .closeBracket, 16, none⟩, ⟨.mark .openBracket, 17, none⟩,
      ⟨.mark .closeBracket, 18, none⟩, ⟨.mark .pipe, 19, none⟩, ⟨.word "C", 20, none⟩,
      ⟨.mark .closeBrace, 21, none⟩], 22, none⟩ := by
    decide +kernel
  have parsed : SourceFile.parse "interface A\x7bx:[B][]|C\x7d" =
      .ok ⟨[⟨"A", [⟨"x", false, none, sampleNestedType⟩]⟩]⟩ := by
    rw [SourceFile.parse, tokenized]
    refine ofTokens_eq_ok ?_
    with_unfolding_all rfl
  exact ⟨parsed, rfl, rfl,
    (height_le_of_parse parsed List.mem_cons_self List.mem_cons_self).2 (Nat.le_refl 1)⟩

def arrayTower : Nat → TypeExpr
  | 0 => .keyword .string
  | count + 1 => .array (arrayTower count)

theorem height_arrayTower (count : Nat) : (arrayTower count).height = count := by
  induction count with
  | zero => rfl
  | succ count ih => rw [arrayTower, TypeExpr.height, ih]

theorem nesting_arrayTower (count : Nat) (enclosed : Bool) :
    (arrayTower count).nesting enclosed = 0 := by
  induction count generalizing enclosed with
  | zero => rfl
  | succ count ih => rw [arrayTower, TypeExpr.nesting, ih]

theorem arrayTower_writable (count : Nat) : (arrayTower count).Writable := by
  induction count with
  | zero => exact .keyword .string
  | succ count ih => exact .array ih

def towerInterface (count : Nat) : Interface :=
  ⟨"A", [⟨"x", false, none, arrayTower count⟩]⟩

theorem towerInterface_writable (count : Nat) : (towerInterface count).Writable where
  name := show Definition.isWord "A".toList = true by decide +kernel
  docs := List.forall_mem_singleton.mpr nofun
  types := List.forall_mem_singleton.mpr (arrayTower_writable count)

-- A row of arrays takes no units, so the size of the source is all that limits it.
theorem parse_towerInterface {count : Nat}
    (size : (towerInterface count).render.utf8ByteSize ≤ maximumSourceSize) :
    SourceFile.parse (towerInterface count).render = .ok ⟨[towerInterface count]⟩ := by
  have writable := towerInterface_writable count
  have nesting : (towerInterface count).nesting ≤ maximumNesting := by
    simp [Interface.nesting, towerInterface, memberNesting, nesting_arrayTower, deepest,
      maximumNesting]
  obtain ⟨stream, cuts, content⟩ := tokensAfter_textOf writable.legible [] 0
  have tokenized : tokenize (towerInterface count).render = .ok stream := by
    rw [tokenize, if_neg (Nat.not_lt.mpr size), Interface.render, String.toList_ofList]
    exact cuts
  obtain ⟨tokens, stop, trailing⟩ := stream
  have begins : Begins (towerInterface count).pieces tokens [] := begins_of_content content
  have arrowless := writable.legible.arrowless begins
  obtain ⟨position, _, rfl, first, _, rfl, second, following, rfl, body⟩ := begins
  have read := reads_interface (fun member present => (writable.types member present).reads.2)
    nesting first second body arrowless.tail.tail.tail
  rw [SourceFile.parse, tokenized]
  exact ofTokens_eq_ok (interfacesAfter_single position rfl read)

/-- A source of a few hundred bytes declares a type that is higher than three for each unit
of nesting. -/
theorem height_towerInterface : ∃ file, SourceFile.parse (towerInterface 193).render = .ok file ∧
    ∃ declared ∈ file.interfaces, ∃ member ∈ declared.members,
      3 * maximumNesting < member.type.height := by
  have size : (towerInterface 193).render.utf8ByteSize ≤ maximumSourceSize := by decide +kernel
  refine ⟨_, parse_towerInterface size, _, List.mem_cons_self, _, List.mem_cons_self, ?_⟩
  rw [height_arrayTower]
  decide

end Sources

end Toggles.Declaration
