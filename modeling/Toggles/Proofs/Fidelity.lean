import Toggles.Proofs.FlattenedForm
import Toggles.Proofs.Writing

/-! Features are kept as they stand in a document.

A feature of a document in nested form is written again with the members that it was
decoded from. Only what says nothing is different: a missing state is written out, and
parameters or children that are null are left out.
-/

set_option autoImplicit false

namespace Toggles.Document

open Json (Members Reordered)
open Definition (reservedNames mem_reservedNames notMem_reservedNames)

section Normalizing

/-- What has to be said of a feature that says nothing about its state. -/
def missingState (members : Members) : Members :=
  if Ordered.contains members "enabled" then [] else [("enabled", .bool false)]

mutual

/-- A feature in nested form that is written as it is kept, with all features under it: a
missing state is written out, and parameters or children that are null are left out. -/
def normalized : Json → Json
  | .obj members => .obj (missingState members ++ normalizedMembers members)
  | value => value

def normalizedMembers : List (String × Json) → Members
  | [] => []
  | (name, value) :: rest =>
      match normalizedMember? name value with
      | some kept => (name, kept) :: normalizedMembers rest
      | none => normalizedMembers rest

def normalizedMember? (name : String) : Json → Option Json
  | .null => if name = "params" ∨ name = "children" then none else some .null
  | .obj members => some (.obj (if name = "children" then normalizedEach members else members))
  | value => some value

def normalizedEach : List (String × Json) → Members
  | [] => []
  | (name, value) :: rest => (name, normalized value) :: normalizedEach rest

end

variable {members : Members} {name : String} {value : Json}

theorem normalizedEach_eq_map (members : Members) :
    normalizedEach members = members.map fun member => (member.1, normalized member.2) := by
  induction members with
  | nil => rfl
  | cons member rest ih => rw [normalizedEach, ih, List.map_cons]

theorem normalizedMember?_of_unreserved (unreserved : name ∉ reservedNames) (value : Json) :
    normalizedMember? name value = some value := by
  have apart := notMem_reservedNames.mp unreserved
  cases value <;> simp [normalizedMember?, apart]

theorem normalizedMember?_enabled (value : Json) :
    normalizedMember? "enabled" value = some value := by
  cases value <;> rfl

theorem keys_normalizedMembers_sublist (members : Members) :
    (Ordered.keys (normalizedMembers members)).Sublist (Ordered.keys members) := by
  induction members with
  | nil => exact .slnil
  | cons member rest ih =>
      obtain ⟨name, value⟩ := member
      rw [normalizedMembers]
      cases normalizedMember? name value with
      | none => exact ih.cons name
      | some kept => exact ih.cons_cons name

theorem get?_normalizedMembers (distinct : Ordered.Distinct members) (name : String) :
    Ordered.get? (normalizedMembers members) name =
      (Ordered.get? members name).bind (normalizedMember? name) := by
  induction members with
  | nil => rfl
  | cons member rest ih =>
      obtain ⟨key, value⟩ := member
      obtain ⟨fresh, distinct⟩ := Ordered.distinct_cons.mp distinct
      rw [normalizedMembers, Ordered.get?]
      by_cases same : key = name
      · subst same
        have absent : Ordered.get? rest key = none := Ordered.get?_eq_none.mpr fresh
        cases kept : normalizedMember? key value <;> simp [Ordered.get?, ih distinct, absent, kept]
      · cases normalizedMember? key value <;> simp [Ordered.get?, ih distinct, same]

theorem distinct_normalized (distinct : Ordered.Distinct members) :
    Ordered.Distinct (missingState members ++ normalizedMembers members) := by
  have kept : Ordered.Distinct (normalizedMembers members) :=
    List.Nodup.sublist (keys_normalizedMembers_sublist members) distinct
  rw [missingState]
  split
  · exact kept
  · next absent =>
      refine Ordered.distinct_cons.mpr ⟨fun member => absent ?_, kept⟩
      exact Ordered.contains_iff.mpr ((keys_normalizedMembers_sublist members).subset member)

theorem get?_normalized (distinct : Ordered.Distinct members) (name : String) :
    Ordered.get? (missingState members ++ normalizedMembers members) name =
      if name = "enabled" then some ((Ordered.get? members "enabled").getD (.bool false))
      else (Ordered.get? members name).bind (normalizedMember? name) := by
  rw [missingState, Ordered.contains]
  by_cases state : name = "enabled"
  · subst state
    cases given : Ordered.get? members "enabled" with
    | none => rfl
    | some value => simp [get?_normalizedMembers distinct, given, normalizedMember?_enabled]
  · rw [if_neg state, ← get?_normalizedMembers distinct]
    split
    · rfl
    · exact if_neg (Ne.symm state)

end Normalizing

section Related
variable {α β γ δ : Type} {related : α → β → Prop} {left : Option α} {right : Option β}

theorem rel_imp {weaker : α → β → Prop} (both : Option.Rel related left right)
    (implies : ∀ x y, related x y → weaker x y) : Option.Rel weaker left right := by
  cases both with
  | none => exact .none
  | some holds => exact .some (implies _ _ holds)

theorem rel_bind {next : γ → δ → Prop} {f : α → Option γ} {g : β → Option δ}
    (both : Option.Rel related left right)
    (each : ∀ x y, related x y → Option.Rel next (f x) (g y)) :
    Option.Rel next (left.bind f) (right.bind g) := by
  cases both with
  | none => exact .none
  | some holds => exact each _ _ holds

end Related

section Decoded
variable {members object : Members} {features : Features} {feature : Feature}

/-- A feature is what the object that a value is has been decoded to. -/
def Feature.StandsFor (feature : Feature) (value : Json) : Prop :=
  ∃ object : Members, value = .obj object ∧ (Json.obj object).Proper ∧
    Feature.blank.DecodedOver object feature

theorem standsFor_of_decodeFeature {value : Json} (proper : value.Proper)
    (decoded : decodeFeature value = .ok feature) : feature.StandsFor value := by
  cases value with
  | obj object =>
      rw [decodeFeature, decodeInto_eq_ok proper.1] at decoded
      exact ⟨object, rfl, proper, decoded⟩
  | null | bool | int | float | str | arr => simp [decodeFeature, Json.mismatch] at decoded

-- Features are decoded from the members of their names.
theorem get?_decodeFeatures (proper : Json.ProperMembers members)
    (decoded : decodeFeatures members = .ok features) (name : String) :
    Option.Rel Feature.StandsFor (Ordered.get? features name) (Ordered.get? members name) := by
  induction members generalizing features with
  | nil =>
      rw [decodeFeatures] at decoded
      cases decoded
      exact .none
  | cons member rest ih =>
      rw [decodeFeatures] at decoded
      obtain ⟨first, read, decoded⟩ := bind_eq_ok.mp decoded
      obtain ⟨others, readRest, same⟩ := bind_eq_ok.mp decoded
      cases same
      simp only [Ordered.get?]
      split
      · exact .some (standsFor_of_decodeFeature proper.1 read)
      · exact ih proper.2 readRest

theorem standsFor_of_mem (proper : (Json.obj members).Proper)
    (decoded : decodeFeatures members = .ok features) {entry : String × Feature}
    (member : entry ∈ features) :
    ∃ value, Ordered.get? members entry.1 = some value ∧ entry.2.StandsFor value := by
  have distinct := (decodeFeatures_proper members proper.1 proper.2 decoded).1.here.distinct
  have related := get?_decodeFeatures proper.2 decoded entry.1
  rw [Ordered.get?_of_mem distinct member] at related
  cases found : Ordered.get? members entry.1 with
  | none => rw [found] at related; contradiction
  | some value =>
      rw [found, Option.rel_some_some] at related
      exact ⟨value, rfl, related⟩

def childMembers (object : Members) : Members :=
  (objectAt? object "children").getD []

theorem childMembers_proper (proper : (Json.obj object).Proper) :
    (Json.obj (childMembers object)).Proper := by
  rw [childMembers]
  cases found : objectAt? object "children" with
  | none => exact properObject_nil
  | some children => exact objectAt?_proper proper found

theorem Feature.DecodedOver.childFeatures (decoded : Feature.blank.DecodedOver object feature) :
    decodeFeatures (childMembers object) = .ok feature.childFeatures := by
  rw [childMembers, objectAt?, Feature.childFeatures]
  rcases children_of_taken decoded.children with
    ⟨none, missing | null⟩ | ⟨children, under, given, read, some⟩
  · rw [none, missing]
    exact decodeFeatures.eq_1
  · rw [none, null]
    exact decodeFeatures.eq_1
  · rw [some, given]
    exact read

theorem Feature.DecodedOver.extra_eq (decoded : Feature.blank.DecodedOver object feature)
    (distinct : Ordered.Distinct object) : feature.extra = unreservedMembers object :=
  decoded.extra.trans (Ordered.insertAll_nil _ (distinct.filter _))

theorem Feature.DecodedOver.soundExtra (decoded : Feature.blank.DecodedOver object feature)
    (distinct : Ordered.Distinct object) : feature.SoundExtra := by
  have extra := decoded.extra_eq distinct
  refine ⟨extra ▸ distinct.filter _, fun name member => ?_⟩
  rw [extra] at member
  obtain ⟨value, member⟩ := Ordered.mem_keys.mp member
  exact of_decide_eq_true (List.mem_filter.mp member).2

-- What is decoded is sound on every level.
theorem sound_of_standsFor (feature : Feature) : ∀ value, feature.StandsFor value →
    feature.SoundExtra ∧ SoundLevels feature.childFeatures := by
  induction feature using Feature.induction_children with
  | step feature ih =>
      rintro _ ⟨object, rfl, proper, decoded⟩
      refine ⟨decoded.soundExtra proper.1, everyLevel_of_each fun entry member => ?_⟩
      obtain ⟨value, -, stands⟩ :=
        standsFor_of_mem (childMembers_proper proper) decoded.childFeatures member
      exact ih entry member value stands

theorem soundLevels_of_decodeFeatures (proper : (Json.obj members).Proper)
    (decoded : decodeFeatures members = .ok features) : SoundLevels features := by
  refine everyLevel_of_each fun entry member => ?_
  obtain ⟨value, -, stands⟩ := standsFor_of_mem proper decoded member
  exact sound_of_standsFor entry.2 value stands

end Decoded

section Kept
variable {members object : Members} {features : Features} {feature : Feature}

theorem get?_membersOf (features : Features) (name : String) :
    Ordered.get? (membersOf features) name = (Ordered.get? features name).map Feature.toJson := by
  rw [membersOf_eq_map]
  exact Ordered.get?_map (fun _ feature => Feature.toJson feature) features name

theorem get?_normalizedEach (members : Members) (name : String) :
    Ordered.get? (normalizedEach members) name = (Ordered.get? members name).map normalized := by
  rw [normalizedEach_eq_map]
  exact Ordered.get?_map (fun _ value => normalized value) members name

theorem keys_membersOf (features : Features) :
    Ordered.keys (membersOf features) = Ordered.keys features := by
  simp [membersOf_eq_map, Ordered.keys]

theorem keys_normalizedEach (members : Members) :
    Ordered.keys (normalizedEach members) = Ordered.keys members := by
  simp [normalizedEach_eq_map, Ordered.keys]

-- Features that are kept one by one are kept together.
theorem reordered_membersOf (proper : (Json.obj members).Proper)
    (decoded : decodeFeatures members = .ok features)
    (each : ∀ entry ∈ features, ∀ value, entry.2.StandsFor value →
      Reordered entry.2.toJson (normalized value)) :
    Reordered (.obj (membersOf features)) (.obj (normalizedEach members)) := by
  have keys := (decodeFeatures_proper members proper.1 proper.2 decoded).2
  refine .object ?_ fun name left right foundLeft foundRight => ?_
  · rw [keys_membersOf, keys_normalizedEach, keys]
  · rw [get?_membersOf] at foundLeft
    rw [get?_normalizedEach] at foundRight
    obtain ⟨feature, found, rfl⟩ := Option.map_eq_some_iff.mp foundLeft
    obtain ⟨value, present, rfl⟩ := Option.map_eq_some_iff.mp foundRight
    have stands := get?_decodeFeatures proper.2 decoded name
    rw [found, present, Option.rel_some_some] at stands
    exact each _ (Ordered.mem_of_get? found) value stands

theorem enabled_kept {member : Option Json} {enabled : Bool}
    (taken : Taken Json.decodeBool member false enabled) :
    member.getD (.bool false) = .bool enabled := by
  rcases enabled_of_taken taken with ⟨rfl, rfl⟩ | rfl <;> rfl

theorem params_kept {member : Option Json} {params : Option Members}
    (taken : Taken (Json.decodeOptional Json.decodeMembers) member none params) :
    member.bind (normalizedMember? "params") = params.map .obj := by
  rcases params_of_taken taken with ⟨rfl, rfl | rfl⟩ | ⟨object, rfl, rfl⟩ <;> rfl

theorem children_kept (decoded : Feature.blank.DecodedOver object feature)
    (under : Reordered (.obj (membersOf feature.childFeatures))
      (.obj (normalizedEach (childMembers object)))) :
    Option.Rel Reordered (feature.children.map fun children => .obj (membersOf children))
      ((Ordered.get? object "children").bind (normalizedMember? "children")) := by
  rw [childMembers, objectAt?, Feature.childFeatures] at under
  rcases children_of_taken decoded.children with
    ⟨none, missing | null⟩ | ⟨children, features, given, -, some⟩
  · rw [none, missing]
    exact .none
  · rw [none, null]
    exact .none
  · rw [some, given] at under ⊢
    exact .some under

theorem extra_kept (decoded : Feature.blank.DecodedOver object feature)
    (distinct : Ordered.Distinct object) {name : String} (unreserved : name ∉ reservedNames) :
    Ordered.get? feature.extra name = Ordered.get? object name := by
  rw [decoded.extra_eq distinct]
  exact (Ordered.get?_filter (fun key => decide (key ∉ reservedNames)) object name).trans
    (if_pos (decide_eq_true unreserved))

-- Under every name a feature is written with what it was decoded from.
theorem rel_members (proper : (Json.obj object).Proper)
    (decoded : Feature.blank.DecodedOver object feature)
    (under : Reordered (.obj (membersOf feature.childFeatures))
      (.obj (normalizedEach (childMembers object)))) (name : String) :
    Option.Rel Reordered (Ordered.get? feature.members name)
      (Ordered.get? (missingState object ++ normalizedMembers object) name) := by
  have sound := decoded.soundExtra proper.1
  rw [sound.get?_members, get?_normalized proper.1, Feature.stateMember?]
  by_cases state : name ∈ reservedNames
  · rw [sound.get?_eq_none state, Option.or_none]
    rcases mem_reservedNames.mp state with rfl | rfl | rfl
    · rw [if_pos rfl, if_pos rfl, enabled_kept decoded.enabled]
      exact .some (.same _)
    · rw [if_neg (by decide), if_pos rfl, if_neg (by decide), params_kept decoded.params]
      cases feature.params with
      | none => exact .none
      | some params => exact .some (.same _)
    · exact children_kept decoded under
  · have apart := notMem_reservedNames.mp state
    rw [if_neg apart.1, if_neg apart.1, if_neg apart.2.1, if_neg apart.2.2, Option.none_or,
      extra_kept decoded proper.1 state]
    cases Ordered.get? object name with
    | none => exact .none
    | some value =>
        rw [Option.bind_some, normalizedMember?_of_unreserved state]
        exact .some (.same value)

theorem reordered_toJson (feature : Feature) : ∀ value, feature.StandsFor value →
    Reordered feature.toJson (normalized value) := by
  induction feature using Feature.induction_children with
  | step feature ih =>
      rintro _ ⟨object, rfl, proper, decoded⟩
      have under := reordered_membersOf (childMembers_proper proper) decoded.childFeatures ih
      have distinct := (decoded.soundExtra proper.1).distinct_members
      exact .of_get? distinct (distinct_normalized proper.1) (rel_members proper decoded under)

end Kept

section Walks

theorem memberAlong?_children (object : Members) (name : String) (rest : List String) :
    (Json.obj object).memberAlong? ("children" :: name :: rest) =
      (Json.obj (childMembers object)).memberAlong? (name :: rest) := by
  rw [Json.memberAlong?_cons, childMembers, objectAt?, Json.member?]
  cases Ordered.get? object "children" with
  | none => rfl
  | some value => cases value <;> rfl

-- A way down leads to a feature exactly when the walk through the objects of the children
-- leads to a value, and it is the value that the feature has been decoded from.
theorem follow?_decodeFeatures {names : List String} (nonempty : names ≠ []) {members : Members}
    {features : Features} (proper : (Json.obj members).Proper)
    (decoded : decodeFeatures members = .ok features) :
    Option.Rel Feature.StandsFor (follow? features names)
      ((Json.obj members).memberAlong? (names.intersperse "children")) := by
  induction names generalizing members features with
  | nil => contradiction
  | cons name rest ih =>
      have first := get?_decodeFeatures proper.2 decoded name
      cases rest with
      | nil =>
          have single (members : Members) : (Json.obj members).memberAlong? [name] =
              Ordered.get? members name :=
            Option.bind_fun_some _
          rwa [List.intersperse_singleton, single, follow?]
      | cons next rest =>
          obtain ⟨tail, spread⟩ : ∃ tail, (next :: rest).intersperse "children" = next :: tail := by
            cases rest <;> exact ⟨_, rfl⟩
          rw [List.intersperse_cons_cons, spread, Json.memberAlong?_cons, Json.member?,
            follow?_cons _ _ (List.cons_ne_nil next rest)]
          refine rel_bind first ?_
          rintro feature _ ⟨object, rfl, proper, decoded⟩
          have below := ih (List.cons_ne_nil next rest) (childMembers_proper proper)
            decoded.childFeatures
          rwa [memberAlong?_children, ← spread]

end Walks

/-- A path leads to a feature of a document in nested form exactly when the document has a
value behind its names with `children` between them, and the feature is written as this
value is when all that says nothing is left out. The document that is written is read again
as the same document. -/
theorem feature?_ofNested {value : Json} {document : Document} (proper : value.Proper)
    (read : ofNested value = .ok document) :
    (∀ names : List String, names ≠ [] → (∀ name ∈ names, '.' ∉ name.toList) →
      Option.Rel (fun feature member => Reordered feature.toJson (normalized member))
        (document.feature? (".".intercalate names))
        (value.memberAlong? ("features" :: names.intersperse "children"))) ∧
    ofNested document.toJson = .ok document := by
  obtain ⟨members, features, rfl, found, decoded⟩ := ofNested_eq_ok.mp read
  have given : (Json.obj features).Proper := proper.2.get? found
  have readFeatures : decodeFeatures features = .ok document.features := by
    have taken := ((decode_eq_ok proper.1).mp decoded).features
    rwa [found] at taken
  refine ⟨fun names nonempty dotless => ?_, ?_⟩
  · have walk := follow?_decodeFeatures nonempty given readFeatures
    rw [feature?, pathNames_intercalate nonempty dotless, Json.memberAlong?_cons, Json.member?,
      found, Option.bind_some]
    exact rel_imp walk reordered_toJson
  · exact ofNested_toJson (soundLevels_of_decodeFeatures given readFeatures)

def sampleKept : Json :=
  .obj [("name", .str "enterprise"), ("features", .obj [
    ("search", .obj [
      ("owner", .obj [("team", .str "core")]),
      ("params", .null),
      ("children", .obj [
        ("ranking", .obj [
          ("params", .obj [("depth", .int 2)]),
          ("children", .null),
          ("enabled", .bool true)])])])])]

/-- The children that are null are left out, and the state is written first. -/
theorem feature?_ofNested_sample : sampleKept.Proper ∧ ∃ document feature,
    ofNested sampleKept = .ok document ∧ document.feature? "search.ranking" = some feature ∧
      Reordered feature.toJson
        (.obj [("params", .obj [("depth", .int 2)]), ("enabled", .bool true)]) ∧
      ofNested document.toJson = .ok document := by
  have proper : sampleKept.Proper := by decide
  obtain ⟨document, read⟩ : ∃ document, ofNested sampleKept = .ok document := ⟨_, rfl⟩
  obtain ⟨kept, again⟩ := feature?_ofNested proper read
  have ranking := kept ["search", "ranking"] (by decide) (by decide)
  obtain ⟨feature, found⟩ : ∃ feature, document.feature? "search.ranking" = some feature := by
    cases read
    exact ⟨_, rfl⟩
  refine ⟨proper, document, feature, read, found, ?_, again⟩
  change document.feature? (".".intercalate ["search", "ranking"]) = some feature at found
  have present : sampleKept.memberAlong? ("features" :: ["search", "ranking"].intersperse "children") =
      some (.obj [("params", .obj [("depth", .int 2)]), ("children", .null),
        ("enabled", .bool true)]) := rfl
  rw [found, present, Option.rel_some_some] at ranking
  exact ranking

end Toggles.Document
