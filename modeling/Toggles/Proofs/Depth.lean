import Toggles.Proofs.Json

/-! The depth of JSON values.

The stack of the reader is as high as the arrays and objects around a place are many. It is
never higher than the limit, so neither does a value nest more of them that has been read.
-/

set_option autoImplicit false

namespace Toggles.Json

mutual

def depth : Json → Nat
  | .arr items => depthOfItems items + 1
  | .obj members => depthOfMembers members + 1
  | _ => 0

def depthOfItems : List Json → Nat
  | [] => 0
  | item :: rest => max item.depth (depthOfItems rest)

def depthOfMembers : List (String × Json) → Nat
  | [] => 0
  | (_, value) :: rest => max value.depth (depthOfMembers rest)

end

/-- A value stays within a limit in a place that `level` arrays and objects enclose. -/
def Within (limit level : Nat) (value : Json) : Prop :=
  value.depth + level ≤ limit

instance (limit level : Nat) (value : Json) : Decidable (Within limit level value) :=
  inferInstanceAs (Decidable (_ ≤ _))

section Parts
variable {limit level : Nat} {value : Json}

theorem depthOfItems_le {items : List Json} {bound : Nat} :
    depthOfItems items ≤ bound ↔ ∀ item ∈ items, item.depth ≤ bound := by
  induction items with
  | nil => simp [depthOfItems]
  | cons item rest ih => rw [depthOfItems, List.forall_mem_cons, Nat.max_le, ih]

theorem depthOfMembers_le {members : Members} {bound : Nat} :
    depthOfMembers members ≤ bound ↔ ∀ member ∈ members, member.2.depth ≤ bound := by
  induction members with
  | nil => simp [depthOfMembers]
  | cons member rest ih => rw [depthOfMembers, List.forall_mem_cons, Nat.max_le, ih]

theorem within_zero : Within limit 0 value ↔ value.depth ≤ limit :=
  Iff.rfl

theorem Within.level_le (within : Within limit level value) : level ≤ limit :=
  Nat.le_of_add_left_le within

theorem Within.shallower (within : Within limit (level + 1) value) : Within limit level value :=
  Nat.le_of_succ_le within

-- An array or object takes one level itself, and its parts lie on the next one.
theorem within_arr {items : List Json} : Within limit level (arr items) ↔
    level + 1 ≤ limit ∧ ∀ item ∈ items, Within limit (level + 1) item := by
  have bounded := @depthOfItems_le items (limit - (level + 1))
  simp only [Within, depth]
  constructor
  · intro within
    have each := bounded.mp (by omega)
    exact ⟨by omega, fun item member => by have := each item member; omega⟩
  · rintro ⟨room, each⟩
    have := bounded.mpr fun item member => by have := each item member; omega
    omega

theorem within_obj {members : Members} : Within limit level (obj members) ↔
    level + 1 ≤ limit ∧ ∀ member ∈ members, Within limit (level + 1) member.2 := by
  have bounded := @depthOfMembers_le members (limit - (level + 1))
  simp only [Within, depth]
  constructor
  · intro within
    have each := bounded.mp (by omega)
    exact ⟨by omega, fun member present => by have := each member present; omega⟩
  · rintro ⟨room, each⟩
    have := bounded.mpr fun member present => by have := each member present; omega
    omega

@[simp]
theorem within_str {text : String} : Within limit level (str text) ↔ level ≤ limit := by
  simp [Within, depth]

@[simp]
theorem within_bool {flag : Bool} : Within limit level (bool flag) ↔ level ≤ limit := by
  simp [Within, depth]

theorem Within.insert {members : Members} {name : String} (object : Within limit level (obj members))
    (within : Within limit (level + 1) value) :
    Within limit level (obj (Ordered.insert members name value)) := by
  obtain ⟨room, each⟩ := within_obj.mp object
  refine within_obj.mpr ⟨room, fun member found => ?_⟩
  rcases Ordered.mem_insert found with same | present
  · exact same ▸ within
  · exact each member present

theorem Within.cons {items : List Json} (array : Within limit level (arr items))
    (within : Within limit (level + 1) value) : Within limit level (arr (value :: items)) := by
  obtain ⟨room, each⟩ := within_arr.mp array
  exact within_arr.mpr ⟨room, List.forall_mem_cons.mpr ⟨within, each⟩⟩

theorem Within.reverse {items : List Json} (array : Within limit level (arr items)) :
    Within limit level (arr items.reverse) := by
  obtain ⟨room, each⟩ := within_arr.mp array
  exact within_arr.mpr ⟨room, fun item member => each item (List.mem_reverse.mp member)⟩

end Parts

section Reading
variable {limit : Nat}

def Frame.closed : Frame → Json
  | .items reversed => .arr reversed
  | .members soFar _ => .obj soFar

def FramesWithin (limit : Nat) : List Frame → Prop
  | [] => True
  | frame :: outer => Within limit outer.length frame.closed ∧ FramesWithin limit outer

def Expects.Within (limit level : Nat) : Expects → Prop
  | .value => True
  | .itemOrClose => Json.Within limit (level - 1) (arr [])
  | .keyOrClose => Json.Within limit level (obj [])
  | .key soFar | .colon soFar _ => Json.Within limit level (obj soFar)
  | .separator completed => Json.Within limit level completed

structure ReaderState.Within (limit : Nat) (state : ReaderState) : Prop where
  expects : state.expects.Within limit state.enclosing.length
  enclosing : FramesWithin limit state.enclosing

theorem IsScalar.within {value : Json} {level : Nat} (scalar : value.IsScalar)
    (room : level ≤ limit) : Json.Within limit level value := by
  cases value with
  | arr | obj => contradiction
  | null | bool | int | float | str => simpa [Json.Within, depth] using room

theorem length_le_of_framesWithin {frames : List Frame} (within : FramesWithin limit frames) :
    frames.length ≤ limit := by
  cases frames with
  | nil => exact Nat.zero_le limit
  | cons frame outer =>
      cases frame with
      | items => exact (within_arr.mp within.1).1
      | members => exact (within_obj.mp within.1).1

theorem ReaderState.beginValue_within {state next : ReaderState} {token : Token}
    (frames : FramesWithin limit state.enclosing) (plain : token.Plain)
    (stepped : state.beginValue limit token = some next) : next.Within limit := by
  have room := length_le_of_framesWithin frames
  cases token with
  | openBracket =>
      simp only [beginValue, descend] at stepped
      split at stepped
      · next free =>
          cases stepped
          have empty : Json.Within limit state.enclosing.length (arr []) :=
            within_arr.mpr ⟨free, List.forall_mem_nil _⟩
          exact ⟨empty, empty, frames⟩
      · contradiction
  | openBrace =>
      simp only [beginValue, descend] at stepped
      split at stepped
      · next free =>
          cases stepped
          exact ⟨within_obj.mpr ⟨free, List.forall_mem_nil _⟩, frames⟩
      · contradiction
  | text value => cases stepped; exact ⟨within_str.mpr room, frames⟩
  | scalar value => cases stepped; exact ⟨plain.within room, frames⟩
  | closeBracket | closeBrace | comma | colon => contradiction

theorem ReaderState.afterValue_within {completed : Json} {enclosing : List Frame} {token : Token}
    {next : ReaderState} (within : Json.Within limit enclosing.length completed)
    (frames : FramesWithin limit enclosing)
    (stepped : afterValue completed enclosing token = some next) : next.Within limit := by
  unfold afterValue at stepped
  split at stepped
  · cases stepped; exact ⟨trivial, frames.1.cons within, frames.2⟩
  · cases stepped; exact ⟨(frames.1.cons within).reverse, frames.2⟩
  · cases stepped; exact ⟨frames.1.insert within, frames.2⟩
  · cases stepped; exact ⟨frames.1.insert within, frames.2⟩
  · contradiction

theorem ReaderState.step_within {state next : ReaderState} {token : Token}
    (within : state.Within limit) (plain : token.Plain)
    (stepped : state.step limit token = some next) : next.Within limit := by
  have here := within.expects
  unfold step at stepped
  split at stepped
  · exact beginValue_within within.enclosing plain stepped
  · next expected =>
      cases stepped
      rw [expected] at here
      refine ⟨?_, ?_⟩
      · simpa [Expects.Within] using here
      · obtain ⟨_, enclosing⟩ := state
        cases enclosing with
        | nil => trivial
        | cons frame outer => exact within.enclosing.2
  · exact beginValue_within within.enclosing plain stepped
  · next expected => cases stepped; rw [expected] at here; exact ⟨here, within.enclosing⟩
  · next expected => cases stepped; rw [expected] at here; exact ⟨here, within.enclosing⟩
  · next expected => cases stepped; rw [expected] at here; exact ⟨here, within.enclosing⟩
  · next expected =>
      cases stepped
      rw [expected] at here
      exact ⟨trivial, here, within.enclosing⟩
  · next expected =>
      rw [expected] at here
      exact afterValue_within here within.enclosing stepped
  · contradiction

theorem ReaderState.start_within : ReaderState.start.Within limit :=
  ⟨trivial, trivial⟩

-- A run of the reader never goes beyond the limit.
theorem ReaderState.run_within {tokens : List Token} {state final : ReaderState}
    (within : state.Within limit) (plain : ∀ token ∈ tokens, token.Plain)
    (ran : tokens.foldlM (step limit) state = some final) : final.Within limit := by
  induction tokens generalizing state with
  | nil => cases ran; exact within
  | cons token rest ih =>
      obtain ⟨first, plain⟩ := List.forall_mem_cons.mp plain
      obtain ⟨next, stepped, ran⟩ := Option.bind_eq_some_iff.mp ran
      exact ih (step_within within first stepped) plain ran

-- No value nests more arrays and objects than the reader allows.
theorem depth_le_of_parse? {text : String} {value : Json} (read : parse? text = some value) :
    value.depth ≤ maximumDepth := by
  obtain ⟨tokens, plain, ran⟩ := exists_run_of_parse? read
  exact (ReaderState.run_within ReaderState.start_within plain ran).expects

end Reading

section Tokens
variable {limit : Nat}

mutual

def tokens : Json → List Token
  | .arr items => .openBracket :: itemTokens items
  | .obj members => .openBrace :: memberTokens members
  | .str text => [.text text]
  | scalar => [.scalar scalar]

def itemTokens : List Json → List Token
  | [] => [.closeBracket]
  | [item] => item.tokens ++ [.closeBracket]
  | item :: rest => item.tokens ++ .comma :: itemTokens rest

def memberTokens : List (String × Json) → List Token
  | [] => [.closeBrace]
  | [(name, value)] => .text name :: .colon :: value.tokens ++ [.closeBrace]
  | (name, value) :: rest => .text name :: .colon :: value.tokens ++ .comma :: memberTokens rest

end

theorem itemTokens_cons_cons (item next : Json) (rest : List Json) :
    itemTokens (item :: next :: rest) = item.tokens ++ .comma :: itemTokens (next :: rest) :=
  rfl

theorem memberTokens_cons_cons (name : String) (value : Json) (next : String × Json) (rest : Members) :
    memberTokens ((name, value) :: next :: rest) =
      .text name :: .colon :: value.tokens ++ .comma :: memberTokens (next :: rest) :=
  rfl

def ReaderState.Runs (limit : Nat) (state : ReaderState) (tokens : List Token) (final : ReaderState) :
    Prop :=
  tokens.foldlM (step limit) state = some final

namespace ReaderState

variable {state next final : ReaderState} {enclosing : List Frame}

theorem Runs.nil : state.Runs limit [] state :=
  rfl

theorem Runs.cons {token : Token} {rest : List Token} (stepped : state.step limit token = some next)
    (ran : next.Runs limit rest final) : state.Runs limit (token :: rest) final := by
  rw [Runs, List.foldlM_cons, stepped]
  exact ran

theorem Runs.append {first second : List Token} (ran : state.Runs limit first next)
    (ranOn : next.Runs limit second final) : state.Runs limit (first ++ second) final := by
  rw [Runs, List.foldlM_append, ran]
  exact ranOn

theorem step_openBracket (free : enclosing.length + 1 ≤ limit) :
    step limit ⟨.value, enclosing⟩ .openBracket = some ⟨.itemOrClose, .items [] :: enclosing⟩ :=
  if_pos free

theorem step_openBrace (free : enclosing.length + 1 ≤ limit) :
    step limit ⟨.value, enclosing⟩ .openBrace = some ⟨.keyOrClose, enclosing⟩ :=
  if_pos free

-- A value does not begin with a closing bracket.
theorem Runs.itemOrClose {item : Json} {rest : List Json}
    (ran : Runs limit ⟨.value, enclosing⟩ (itemTokens (item :: rest)) final) :
    Runs limit ⟨.itemOrClose, enclosing⟩ (itemTokens (item :: rest)) final := by
  cases rest <;> cases item <;> exact ran

-- The first name of an object is read like the others.
theorem Runs.keyOrClose {member : String × Json} {rest : List (String × Json)}
    (ran : Runs limit ⟨.key [], enclosing⟩ (memberTokens (member :: rest)) final) :
    Runs limit ⟨.keyOrClose, enclosing⟩ (memberTokens (member :: rest)) final := by
  cases rest <;> exact ran

end ReaderState

open ReaderState (Runs)

/-- The reader takes the tokens of a value for the value, where there is room for it. -/
def ReadsBack (limit : Nat) (value : Json) : Prop :=
  ∀ enclosing : List Frame, Within limit enclosing.length value →
    Runs limit ⟨.value, enclosing⟩ value.tokens ⟨.separator value, enclosing⟩

-- Items that have been read already are kept in reverse.
theorem runs_itemTokens {item : Json} {rest : List Json} {outer : List Frame}
    (each : ∀ other ∈ item :: rest, ReadsBack limit other)
    (within : ∀ other ∈ item :: rest, Within limit (outer.length + 1) other) (reversed : List Json) :
    Runs limit ⟨.value, .items reversed :: outer⟩ (itemTokens (item :: rest))
      ⟨.separator (.arr (reversed.reverse ++ item :: rest)), outer⟩ := by
  induction rest generalizing item reversed with
  | nil =>
      have first := each item List.mem_cons_self (.items reversed :: outer) (within item List.mem_cons_self)
      have closes : ReaderState.step limit ⟨.separator item, .items reversed :: outer⟩ .closeBracket =
          some ⟨.separator (.arr (reversed.reverse ++ [item])), outer⟩ := by
        rw [← List.reverse_cons]
        rfl
      rw [itemTokens]
      exact first.append (.cons closes .nil)
  | cons next rest ih =>
      obtain ⟨here, each⟩ := List.forall_mem_cons.mp each
      obtain ⟨room, within⟩ := List.forall_mem_cons.mp within
      have first := here (.items reversed :: outer) room
      have others := ih each within (item :: reversed)
      rw [List.reverse_cons, List.append_assoc] at others
      rw [itemTokens_cons_cons]
      exact first.append (.cons rfl others)

theorem runs_memberTokens {member : String × Json} {rest : Members} {enclosing : List Frame}
    (each : ∀ other ∈ member :: rest, ReadsBack limit other.2)
    (within : ∀ other ∈ member :: rest, Within limit (enclosing.length + 1) other.2) (soFar : Members) :
    Runs limit ⟨.key soFar, enclosing⟩ (memberTokens (member :: rest))
      ⟨.separator (.obj (Ordered.insertAll soFar (member :: rest))), enclosing⟩ := by
  induction rest generalizing member soFar with
  | nil =>
      obtain ⟨name, value⟩ := member
      have first := each _ List.mem_cons_self (.members soFar name :: enclosing)
        (within _ List.mem_cons_self)
      have closes : ReaderState.step limit ⟨.separator value, .members soFar name :: enclosing⟩
          .closeBrace = some ⟨.separator (.obj (Ordered.insert soFar name value)), enclosing⟩ := rfl
      rw [memberTokens]
      exact .cons rfl (.cons rfl (first.append (.cons closes .nil)))
  | cons next rest ih =>
      obtain ⟨name, value⟩ := member
      obtain ⟨here, each⟩ := List.forall_mem_cons.mp each
      obtain ⟨room, within⟩ := List.forall_mem_cons.mp within
      have first := here (.members soFar name :: enclosing) room
      have continues : ReaderState.step limit ⟨.separator value, .members soFar name :: enclosing⟩
          .comma = some ⟨.key (Ordered.insert soFar name value), enclosing⟩ := rfl
      have others := ih each within (Ordered.insert soFar name value)
      rw [memberTokens_cons_cons]
      exact .cons rfl (.cons rfl (first.append (.cons continues others)))

theorem readsBack_of_proper (value : Json) : value.Proper → ReadsBack limit value := by
  induction value using induction_parts with
  | scalar value noItems noMembers =>
      intro _ enclosing _
      cases value with
      | arr items => exact absurd rfl (noItems items)
      | obj members => exact absurd rfl (noMembers members)
      | null | bool | int | float | str => rfl
  | arr items ih =>
      intro proper enclosing within
      obtain ⟨free, within⟩ := within_arr.mp within
      refine .cons (ReaderState.step_openBracket free) ?_
      cases items with
      | nil => exact .cons rfl .nil
      | cons item rest =>
          have each := fun other member => ih other member (properItems_iff.mp proper other member)
          exact (runs_itemTokens each within []).itemOrClose
  | obj members ih =>
      intro ⟨distinct, proper⟩ enclosing within
      obtain ⟨free, within⟩ := within_obj.mp within
      refine .cons (ReaderState.step_openBrace free) ?_
      cases members with
      | nil => exact .cons rfl .nil
      | cons member rest =>
          have each := fun other present => ih other present (properMembers_iff.mp proper other present)
          have ran := runs_memberTokens each within []
          rw [Ordered.insertAll_nil _ distinct] at ran
          exact ran.keyOrClose

theorem plain_itemTokens {items : List Json}
    (each : ∀ item ∈ items, ∀ token ∈ item.tokens, token.Plain) :
    ∀ token ∈ itemTokens items, token.Plain := by
  induction items with
  | nil => exact List.forall_mem_singleton.mpr trivial
  | cons item rest ih =>
      obtain ⟨first, each⟩ := List.forall_mem_cons.mp each
      cases rest with
      | nil => exact List.forall_mem_append.mpr ⟨first, List.forall_mem_singleton.mpr trivial⟩
      | cons next rest =>
          exact List.forall_mem_append.mpr ⟨first, List.forall_mem_cons.mpr ⟨trivial, ih each⟩⟩

theorem plain_memberTokens {members : Members}
    (each : ∀ member ∈ members, ∀ token ∈ member.2.tokens, token.Plain) :
    ∀ token ∈ memberTokens members, token.Plain := by
  induction members with
  | nil => exact List.forall_mem_singleton.mpr trivial
  | cons member rest ih =>
      obtain ⟨first, each⟩ := List.forall_mem_cons.mp each
      cases rest with
      | nil =>
          refine List.forall_mem_cons.mpr ⟨trivial, List.forall_mem_cons.mpr ⟨trivial, ?_⟩⟩
          exact List.forall_mem_append.mpr ⟨first, List.forall_mem_singleton.mpr trivial⟩
      | cons next rest =>
          refine List.forall_mem_cons.mpr ⟨trivial, List.forall_mem_cons.mpr ⟨trivial, ?_⟩⟩
          exact List.forall_mem_append.mpr ⟨first, List.forall_mem_cons.mpr ⟨trivial, ih each⟩⟩

theorem plain_tokens (value : Json) : ∀ token ∈ value.tokens, token.Plain := by
  induction value using induction_parts with
  | scalar value noItems noMembers =>
      cases value with
      | arr items => exact absurd rfl (noItems items)
      | obj members => exact absurd rfl (noMembers members)
      | null | bool | int | float | str => exact List.forall_mem_singleton.mpr trivial
  | arr items ih => exact List.forall_mem_cons.mpr ⟨trivial, plain_itemTokens ih⟩
  | obj members ih => exact List.forall_mem_cons.mpr ⟨trivial, plain_memberTokens ih⟩

theorem tokensAfter_text {seen : List Token} {text after : List Char} {value : String}
    (read : readText [] text = some (value, after)) :
    tokensAfter seen ('"' :: text) = tokensAfter (.text value :: seen) after := by
  rw [tokensAfter]
  split
  · next failed => cases failed.symm.trans read
  · next found => cases found.symm.trans read; rfl

-- What is written is read again exactly when it does not nest too many arrays and objects.
theorem ofTokens?_tokens {value : Json} (proper : value.Proper) :
    ofTokens? limit value.tokens = some value ↔ value.depth ≤ limit := by
  rw [ofTokens?_eq_some]
  constructor
  · intro ran
    exact (ReaderState.run_within ReaderState.start_within (plain_tokens value) ran).expects
  · intro within
    exact readsBack_of_proper value proper [] within

end Tokens

end Toggles.Json
