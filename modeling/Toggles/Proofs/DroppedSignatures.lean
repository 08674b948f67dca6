import Toggles.Proofs.RoundTrip
import Toggles.Proofs.Signatures

/-! Signatures in the bodies of interfaces are invisible.

Written into a body, at any depth and with documentation of their own, they change nothing, as
long as there is nesting left to read their types and their brackets are closed.
-/

set_option autoImplicit false

namespace Toggles.Declaration

/-- The bodies of the interfaces in the rest of a source, at a depth of brackets: the tokens from
the opening brace on, and those behind the closing one. -/
def bodiesAfter (depth : Nat) (tokens : List Located) : List (List Located × List Located) :=
  match tokens with
  | [] => []
  | first :: rest =>
      if opensGroup first.token then bodiesAfter (depth + 1) rest
      else if closesGroup first.token then bodiesAfter (depth - 1) rest
      else if first.token = .word "interface" && depth == 0 && startsWithAnyWord rest then
        match readInterface rest with
        | .ok declared =>
            (bodyOnward 0 rest.tail, declared.rest) :: bodiesAfter depth declared.rest
        | .error _ => []
      else bodiesAfter depth rest
termination_by tokens.length
decreasing_by
  all_goals simp
  have := declared.within
  omega

/-- So many tokens are behind a place in the body of an interface. -/
def InBodies (depth : Nat) (tokens : List Located) (behind : Nat) : Prop :=
  ∃ body ∈ bodiesAfter depth tokens, body.2.length < behind ∧ behind < body.1.length

def BodiesWithin (units : Nat) (tokens : List Located) : Prop :=
  ∀ body ∈ bodiesAfter 0 tokens, ∃ members, Reads ((Level.ofNesting units).body body.1) members body.2

section Bodies
variable {insertion : Insertion} {deep : Prop} {depth : Nat} {tokens others rest : List Located}

-- An interface is its name, and its members behind the opening brace.
theorem length_lt_of_bodyOnward {first : Located} {behind : List Located}
    (within : behind.length < (bodyOnward 0 rest).length) : behind.length < (first :: rest).length :=
  Nat.lt_succ_of_lt (Nat.lt_of_lt_of_le within (length_bodyOnward_le 0 rest))

theorem readInterface_named {name : String} {position : Nat} {doc : Option String} :
    readInterface (⟨.word name, position, doc⟩ :: rest) =
      if (bodyOnward 0 rest).isEmpty then
        refuse "`\x7b` opening the interface body" (bodyOnward 0 rest)
      else topLevel.body (bodyOnward 0 rest) >>= fun body =>
        .ok ⟨⟨name, body.value⟩, body.rest, length_lt_of_bodyOnward body.within⟩ :=
  rfl

theorem exists_body {declared : Reading Located Interface tokens.length}
    (read : readInterface tokens = .ok declared) : ∃ name position doc rest,
      tokens = ⟨.word name, position, doc⟩ :: rest ∧
      ∃ members, Reads (topLevel.body (bodyOnward 0 rest)) members declared.rest := by
  rcases tokens with _ | ⟨⟨token, position, doc⟩, rest⟩
  · cases read
  · cases token with
    | word name =>
        refine ⟨name, position, doc, rest, rfl, ?_⟩
        rw [readInterface_named] at read
        split at read
        · cases read
        · obtain ⟨body, readBody, same⟩ := bind_eq_ok.mp read
          cases same
          exact ⟨body.value, body.within, readBody⟩
    | quoted | template | number | mark | symbol => cases read

theorem bodiesAfter_declares {first : Located} {declared : Reading Located Interface rest.length}
    (opens : ¬opensGroup first.token = true) (closes : ¬closesGroup first.token = true)
    (keyword : (decide (first.token = .word "interface") && depth == 0 && startsWithAnyWord rest) = true)
    (read : readInterface rest = .ok declared) : bodiesAfter depth (first :: rest) =
      (bodyOnward 0 rest.tail, declared.rest) :: bodiesAfter depth declared.rest := by
  rw [bodiesAfter, if_neg opens, if_neg closes, if_pos keyword]
  split
  · next same => cases read.symm.trans same; rfl
  · next same => cases read.symm.trans same

theorem length_le_of_mem_bodiesAfter {body : List Located × List Located}
    (member : body ∈ bodiesAfter depth tokens) : body.1.length ≤ tokens.length := by
  induction depth, tokens using bodiesAfter.induct with
  | case1 depth => rw [bodiesAfter] at member; contradiction
  | case2 depth first rest opens ih =>
      rw [bodiesAfter, if_pos opens] at member
      exact Nat.le_succ_of_le (ih member)
  | case3 depth first rest opens closes ih =>
      rw [bodiesAfter, if_neg opens, if_pos closes] at member
      exact Nat.le_succ_of_le (ih member)
  | case4 depth first rest opens closes keyword declared read ih =>
      rw [bodiesAfter_declares opens closes keyword read] at member
      rcases List.mem_cons.mp member with rfl | member
      · have bound := length_bodyOnward_le 0 rest.tail
        exact Nat.le_succ_of_le (Nat.le_trans bound (length_tail_le rest))
      · exact Nat.le_trans (ih member) (Nat.le_succ_of_le (Nat.le_of_lt declared.within))
  | case5 depth first rest opens closes keyword refusal read =>
      rw [bodiesAfter, if_neg opens, if_neg closes, if_pos keyword] at member
      split at member
      · next same => cases read.symm.trans same
      · contradiction
  | case6 depth first rest opens closes other ih =>
      rw [bodiesAfter, if_neg opens, if_neg closes, if_neg other] at member
      exact Nat.le_succ_of_le (ih member)

theorem InBodies.lt {behind : Nat} (inBodies : InBodies depth tokens behind) :
    behind < tokens.length := by
  obtain ⟨body, member, -, before⟩ := inBodies
  exact Nat.lt_of_lt_of_le before (length_le_of_mem_bodiesAfter member)

-- In front of the body of an interface nothing is inserted.
theorem bodyOnward_interspersed {angles : Nat} {opens : Bool}
    (none : ∀ behind, (bodyOnward angles tokens).length ≤ behind → behind ≤ tokens.length →
      ¬insertion.place behind) (interspersed : Interspersed insertion opens tokens others) :
    Interspersed insertion false (bodyOnward angles tokens) (bodyOnward angles others) := by
  induction interspersed generalizing angles with
  | nil => exact .nil
  | token behind ih =>
      rw [bodyOnward] at none
      rw [bodyOnward, bodyOnward]
      split
      · exact .token behind
      next other =>
      rw [if_neg other] at none
      split
      · next opening =>
          rw [if_pos opening] at none
          exact ih fun behind first last => none behind first (Nat.le_succ_of_le last)
      next plain =>
      rw [if_neg plain] at none
      split
      · next closing =>
          rw [if_pos closing] at none
          exact ih fun behind first last => none behind first (Nat.le_succ_of_le last)
      · next inside =>
          rw [if_neg inside] at none
          exact ih fun behind first last => none behind first (Nat.le_succ_of_le last)
  | @item item tokens others place here behind ih =>
      exact absurd place (none _ (length_bodyOnward_le angles tokens) (Nat.le_refl _))

theorem readInterface_survives
    (none : ∀ behind, (bodyOnward 0 tokens.tail).length ≤ behind → behind ≤ tokens.tail.length →
      ¬insertion.place behind)
    (body : ∀ {startOther}, Interspersed insertion false (bodyOnward 0 tokens.tail) startOther →
      Survives insertion deep (topLevel.body (bodyOnward 0 tokens.tail)) (topLevel.body startOther))
    (interspersed : Interspersed insertion false tokens others) :
    Survives insertion deep (readInterface tokens) (readInterface others) := by
  cases interspersed with
  | nil => exact .refused _ _
  | @token _ token _ _ _ _ _ behind =>
      cases token with
      | word name =>
          have start := bodyOnward_interspersed none behind
          rw [readInterface_named, readInterface_named]
          refine .ite (by rw [start.isEmpty]; rfl) (fun _ => .refused _ _) fun _ => ?_
          exact (body start).bind fun _ _ _ _ _ behind => .ok behind
      | quoted | template | number | mark | symbol => exact .refused _ _

-- Where nothing is inserted the next token is the same.
theorem Interspersed.cons {first : Located} {opens : Bool}
    (interspersed : Interspersed insertion opens (first :: rest) others)
    (none : ¬insertion.place (first :: rest).length) : ∃ position behind,
      others = ⟨first.token, position, first.doc⟩ :: behind ∧
      Interspersed insertion first.token.opensMember rest behind := by
  generalize same : first :: rest = tokens at interspersed none
  cases interspersed with
  | nil => cases same
  | token behind => cases same; exact ⟨_, _, rfl, behind⟩
  | item place => exact absurd place none

def Insertion.Inside (insertion : Insertion) (depth : Nat) (tokens : List Located) : Prop :=
  ∀ behind ≤ tokens.length, insertion.place behind → InBodies depth tokens behind

theorem Insertion.Inside.not_place (inside : insertion.Inside depth tokens) :
    ¬insertion.place tokens.length :=
  fun place => absurd (inside _ (Nat.le_refl _) place).lt (Nat.lt_irrefl _)

theorem Insertion.Inside.tail {first : Located} {next : Nat}
    (inside : insertion.Inside depth (first :: rest))
    (same : bodiesAfter depth (first :: rest) = bodiesAfter next rest) : insertion.Inside next rest := by
  intro behind within place
  have here := inside behind (Nat.le_succ_of_le within) place
  rwa [InBodies, same] at here

section Declared
variable {first : Located} {start after : List Located}

theorem Insertion.Inside.header (inside : insertion.Inside depth (first :: rest))
    (same : bodiesAfter depth (first :: rest) = (start, after) :: bodiesAfter depth after)
    (shorter : after.length < start.length) (behind : Nat) (beyond : start.length ≤ behind)
    (within : behind ≤ rest.length) : ¬insertion.place behind := by
  intro place
  obtain ⟨body, member, -, before⟩ := inside behind (Nat.le_succ_of_le within) place
  rw [same] at member
  rcases List.mem_cons.mp member with rfl | member
  · exact absurd before (Nat.not_lt_of_le beyond)
  · have bound := length_le_of_mem_bodiesAfter member
    omega

theorem Insertion.Inside.behind (inside : insertion.Inside depth (first :: rest))
    (same : bodiesAfter depth (first :: rest) = (start, after) :: bodiesAfter depth after)
    (shorter : after.length ≤ rest.length) : insertion.Inside depth after := by
  intro behind within place
  obtain ⟨body, member, past, before⟩ := inside behind (by rw [List.length_cons]; omega) place
  rw [same] at member
  rcases List.mem_cons.mp member with rfl | member
  · exact absurd past (Nat.not_lt_of_le within)
  · exact ⟨body, member, past, before⟩

theorem keyword_interspersed (behind : Interspersed insertion first.token.opensMember rest others) :
    (decide (first.token = .word "interface") && depth == 0 && startsWithAnyWord others) =
      (decide (first.token = .word "interface") && depth == 0 && startsWithAnyWord rest) := by
  by_cases isWord : first.token = .word "interface"
  · rw [isWord] at behind
    rw [Interspersed.startsWithAnyWord behind]
  · simp [isWord]

end Declared

-- What is read outside of the bodies of interfaces is what was read there.
theorem interfacesAfter_interspersed {seen declared : List Interface} {begins : Bool}
    (inside : insertion.Inside depth tokens)
    (bodies : ∀ body ∈ bodiesAfter depth tokens, ∀ {startOther},
      Interspersed insertion false body.1 startOther →
      Survives insertion deep (topLevel.body body.1) (topLevel.body startOther))
    (interspersed : Interspersed insertion begins tokens others)
    (read : interfacesAfter seen depth tokens = .ok declared) :
    interfacesAfter seen depth others = .ok declared ∨
      (deep ∧ ∃ found, interfacesAfter seen depth others = .error (.tooDeep found)) := by
  induction seen, depth, tokens using interfacesAfter.induct generalizing others begins with
  | case1 seen depth =>
      cases interspersed with
      | nil => exact .inl read
      | item place => exact absurd place inside.not_place
  | case2 seen depth first rest opens ih =>
      have same : bodiesAfter depth (first :: rest) = bodiesAfter (depth + 1) rest := by
        rw [bodiesAfter, if_pos opens]
      obtain ⟨position, others, rfl, behind⟩ := interspersed.cons inside.not_place
      rw [interfacesAfter, if_pos opens] at read ⊢
      exact ih (inside.tail same) (same ▸ bodies) behind read
  | case3 seen depth first rest opens closes ih =>
      have same : bodiesAfter depth (first :: rest) = bodiesAfter (depth - 1) rest := by
        rw [bodiesAfter, if_neg opens, if_pos closes]
      obtain ⟨position, others, rfl, behind⟩ := interspersed.cons inside.not_place
      rw [interfacesAfter, if_neg opens, if_pos closes] at read ⊢
      exact ih (inside.tail same) (same ▸ bodies) behind read
  | case4 seen depth first rest opens closes keyword ih =>
      obtain ⟨position, others, rfl, behind⟩ := interspersed.cons inside.not_place
      rw [interfacesAfter, if_neg opens, if_neg closes, if_pos keyword] at read
      obtain ⟨declaration, readDeclaration, read⟩ := bind_eq_ok.mp read
      have same := bodiesAfter_declares opens closes keyword readDeclaration
      obtain ⟨name, _, _, header, rfl, members, shorter, -⟩ := exists_body readDeclaration
      have isWord := of_decide_eq_true (Bool.and_eq_true_iff.mp (Bool.and_eq_true_iff.mp keyword).1).1
      have none := fun behind bound within =>
        inside.header same shorter behind bound (Nat.le_succ_of_le within)
      have survives := readInterface_survives none (bodies _ (same ▸ List.mem_cons_self))
        (isWord ▸ behind)
      rw [interfacesAfter, if_neg opens, if_neg closes, keyword_interspersed behind, if_pos keyword]
      rw [readDeclaration] at survives
      generalize readInterface others = outcome at survives
      cases survives with
      | @ok value after _ within _ behind =>
          exact ih ⟨value, after, within⟩ (inside.behind same (Nat.le_of_lt within))
            (fun body member => bodies body (same ▸ List.mem_cons_of_mem _ member)) behind read
      | tooDeep allowed => exact .inr ⟨allowed, _, rfl⟩
  | case5 seen depth first rest opens closes passed ih =>
      have same : bodiesAfter depth (first :: rest) = bodiesAfter depth rest := by
        rw [bodiesAfter, if_neg opens, if_neg closes, if_neg passed]
      obtain ⟨position, others, rfl, behind⟩ := interspersed.cons inside.not_place
      rw [interfacesAfter, if_neg opens, if_neg closes, if_neg passed] at read
      rw [interfacesAfter, if_neg opens, if_neg closes, keyword_interspersed behind, if_neg passed]
      exact ih (inside.tail same) (same ▸ bodies) behind read

end Bodies

section Sources
variable {source other : String} {stream streamOther : TokenStream} {file : SourceFile}
  {units need : Nat}

-- A source with signatures in it declares the same, unless units of nesting are missing where
-- they may be.
theorem parse_interspersed (deep : Prop) (tokenized : tokenize source = .ok stream)
    (tokenizedOther : tokenize other = .ok streamOther)
    (parsed : SourceFile.parse source = .ok file)
    (inserted : Interspersed (droppedSignatures need (InBodies 0 stream.tokens)) false stream.tokens
      streamOther.tokens)
    (bodies : ∀ body ∈ bodiesAfter 0 stream.tokens, ∀ {startOther},
      Interspersed (droppedSignatures need (InBodies 0 stream.tokens)) false body.1 startOther →
      Survives (droppedSignatures need (InBodies 0 stream.tokens)) deep (topLevel.body body.1)
        (topLevel.body startOther)) :
    SourceFile.parse other = .ok file ∨ (deep ∧ ∃ position, SourceFile.parse other =
      .error (.nestingTooDeep maximumNesting (maximumNesting + 1) position)) := by
  obtain ⟨again, same, read⟩ := interfaces_of_parse parsed
  cases tokenized.symm.trans same
  have inside : (droppedSignatures need (InBodies 0 stream.tokens)).Inside 0 stream.tokens :=
    fun _ _ place => place
  refine (interfacesAfter_interspersed inside bodies inserted read).imp (fun readOther => ?_)
    fun ⟨allowed, found, refused⟩ => ⟨allowed, ?_⟩
  · exact bind_eq_ok.mpr ⟨streamOther, tokenizedOther, ofTokens_eq_ok readOther⟩
  · rw [SourceFile.parse, tokenizedOther]
    change ∃ position, SourceFile.ofTokens streamOther = _
    rw [SourceFile.ofTokens, refused]
    exact ⟨_, rfl⟩

/-- A source with index, call and construct signatures and methods inserted into the bodies of its
interfaces declares what it declared: the members that it had, with their own names, types and
documentation. Only nesting may be missing, which is not so where the bodies and the types of
the signatures need no more of it together than there is. -/
theorem SourceFile.parse_droppedSignatures (tokenized : tokenize source = .ok stream)
    (tokenizedOther : tokenize other = .ok streamOther)
    (parsed : SourceFile.parse source = .ok file)
    (inserted : Interspersed (droppedSignatures need (InBodies 0 stream.tokens)) false stream.tokens
      streamOther.tokens) :
    (SourceFile.parse other = .ok file ∨ ∃ position, SourceFile.parse other =
      .error (.nestingTooDeep maximumNesting (maximumNesting + 1) position)) ∧
    ∀ units, BodiesWithin units stream.tokens → units + need ≤ maximumNesting →
      SourceFile.parse other = .ok file := by
  constructor
  · have allowed : True ∨ maximumNesting + need ≤ maximumNesting := .inl trivial
    refine (parse_interspersed True tokenized tokenizedOther parsed inserted ?_).imp_right And.right
    exact fun _ _ _ => (carrying_droppedSignatures allowed).body
  · intro units within fits
    refine (parse_interspersed False tokenized tokenizedOther parsed inserted ?_).resolve_right And.left
    intro body member startOther start
    obtain ⟨members, read⟩ := within body member
    obtain ⟨shorter, same⟩ := Level.body_more (Nat.le_of_add_right_le fits) read
    obtain ⟨shorterInner, sameInner⟩ := read
    have fits : False ∨ units + need ≤ maximumNesting := .inr fits
    have survives := (carrying_droppedSignatures fits).body start
    rw [sameInner] at survives
    rw [topLevel, same]
    exact survives

def plainSource : String := "interface A\x7bx:\x7by:B;\x7d;\x7d"

def plainBody : List Located :=
  [⟨.mark .openBrace, 11, none⟩, ⟨.word "x", 12, none⟩, ⟨.mark .colon, 13, none⟩,
    ⟨.mark .openBrace, 14, none⟩, ⟨.word "y", 15, none⟩, ⟨.mark .colon, 16, none⟩,
    ⟨.word "B", 17, none⟩, ⟨.mark .semicolon, 18, none⟩, ⟨.mark .closeBrace, 19, none⟩,
    ⟨.mark .semicolon, 20, none⟩, ⟨.mark .closeBrace, 21, none⟩]

def plainStream : TokenStream :=
  ⟨⟨.word "interface", 0, none⟩ :: ⟨.word "A", 10, none⟩ :: plainBody, 22, none⟩

def plainMembers : List Member :=
  [⟨"x", false, none, .object [⟨"y", false, none, .reference "B" []⟩]⟩]

def signedSource : String :=
  "interface A\x7breadonly[k]:C;x:\x7by:B;/** d */m?<T>():D;\x7d;\x7d"

def signedIndex : List Located :=
  [⟨.word "readonly", 12, none⟩, ⟨.mark .openBracket, 20, none⟩, ⟨.word "k", 21, none⟩,
    ⟨.mark .closeBracket, 22, none⟩, ⟨.mark .colon, 23, none⟩, ⟨.word "C", 24, none⟩,
    ⟨.mark .semicolon, 25, none⟩]

def signedMethod : List Located :=
  [⟨.word "m", 41, some " d "⟩, ⟨.mark .question, 42, none⟩, ⟨.mark .openAngle, 43, none⟩,
    ⟨.word "T", 44, none⟩, ⟨.mark .closeAngle, 45, none⟩, ⟨.mark .openParen, 46, none⟩,
    ⟨.mark .closeParen, 47, none⟩, ⟨.mark .colon, 48, none⟩, ⟨.word "D", 49, none⟩,
    ⟨.mark .semicolon, 50, none⟩]

def signedStream : TokenStream :=
  ⟨⟨.word "interface", 0, none⟩ :: ⟨.word "A", 10, none⟩ :: ⟨.mark .openBrace, 11, none⟩ ::
    (signedIndex ++ ⟨.word "x", 26, none⟩ :: ⟨.mark .colon, 27, none⟩ ::
      ⟨.mark .openBrace, 28, none⟩ :: ⟨.word "y", 29, none⟩ :: ⟨.mark .colon, 30, none⟩ ::
      ⟨.word "B", 31, none⟩ :: ⟨.mark .semicolon, 32, none⟩ ::
      (signedMethod ++ [⟨.mark .closeBrace, 51, none⟩, ⟨.mark .semicolon, 52, none⟩,
        ⟨.mark .closeBrace, 53, none⟩])), 54, none⟩

theorem reads_plainBody : Reads ((Level.ofNesting 4).body plainBody) plainMembers [] := by
  refine ⟨by decide, ?_⟩
  with_unfolding_all rfl

theorem bodiesAfter_plain : bodiesAfter 0 plainStream.tokens = [(plainBody, [])] := by
  with_unfolding_all rfl

theorem isDropped_signedIndex : IsDropped 1 signedIndex := by
  have isIndex : IsGroup .openBracket .closeBracket
      (⟨.mark .openBracket, 20, none⟩ :: ([⟨.word "k", 21, none⟩] ++
        [⟨.mark .closeBracket, 22, none⟩])) := .group rfl rfl rfl
  have isResult : IsResult 1 ⟨.mark .semicolon, 25, none⟩
      [⟨.mark .colon, 23, none⟩, ⟨.word "C", 24, none⟩] :=
    .typed rfl ⟨by decide, by with_unfolding_all rfl⟩
  have isReadonly : (Located.mk (.word "readonly") 12 none).token = .word "readonly" := rfl
  refine ⟨?_, _, _, ?_, ?_, .readonlyIndex isReadonly isIndex isResult⟩
  · intro opening closing pair
    cases opening <;> cases pair <;> rfl
  · rfl
  · rfl

theorem isDropped_signedMethod : IsDropped 1 signedMethod := by
  have isTypes : IsGroup .openAngle .closeAngle
      (⟨.mark .openAngle, 43, none⟩ :: ([⟨.word "T", 44, none⟩] ++
        [⟨.mark .closeAngle, 45, none⟩])) := .group rfl rfl rfl
  have isGroup : IsGroup .openParen .closeParen
      (⟨.mark .openParen, 46, none⟩ :: ([] ++ [⟨.mark .closeParen, 47, none⟩])) :=
    .group rfl rfl rfl
  have isResult : IsResult 1 ⟨.mark .semicolon, 50, none⟩
      [⟨.mark .colon, 48, none⟩, ⟨.word "D", 49, none⟩] :=
    .typed rfl ⟨by decide, by with_unfolding_all rfl⟩
  have isName : (Located.mk (.word "m") 41 (some " d ")).token.isName = true := rfl
  have isQuestion : (Located.mk (.mark .question) 42 none).token = .mark .question := rfl
  refine ⟨?_, _, _, ?_, ?_,
    .optionalMethod isName isQuestion (.call (.inr isTypes) isGroup isResult)⟩
  · intro opening closing pair
    cases opening <;> cases pair <;> rfl
  · rfl
  · rfl

theorem SourceFile.parse_droppedSignatures_sample :
    tokenize plainSource = .ok plainStream ∧ tokenize signedSource = .ok signedStream ∧
      SourceFile.parse plainSource = .ok ⟨[⟨"A", plainMembers⟩]⟩ ∧
      Interspersed (droppedSignatures 1 (InBodies 0 plainStream.tokens)) false plainStream.tokens
        signedStream.tokens ∧
      BodiesWithin 4 plainStream.tokens ∧
      SourceFile.parse signedSource = .ok ⟨[⟨"A", plainMembers⟩]⟩ := by
  have tokenized : tokenize plainSource = .ok plainStream := by decide +kernel
  have tokenizedSigned : tokenize signedSource = .ok signedStream := by decide +kernel
  have parsed : SourceFile.parse plainSource = .ok ⟨[⟨"A", plainMembers⟩]⟩ := by
    rw [SourceFile.parse, tokenized]
    refine ofTokens_eq_ok ?_
    with_unfolding_all rfl
  have place : ∀ behind, 0 < behind → behind < 11 → InBodies 0 plainStream.tokens behind := by
    intro behind first last
    exact ⟨(plainBody, []), bodiesAfter_plain ▸ List.mem_cons_self, first, last⟩
  have inserted : Interspersed (droppedSignatures 1 (InBodies 0 plainStream.tokens)) false
      plainStream.tokens signedStream.tokens := by
    refine .token (.token (.token (.item (place _ (by decide) (by decide)) isDropped_signedIndex ?_)))
    refine .token (.token (.token (.token (.token (.token (.token ?_))))))
    refine .item (place _ (by decide) (by decide)) isDropped_signedMethod ?_
    exact .token (.token (.token .nil))
  have within : BodiesWithin 4 plainStream.tokens := by
    intro body member
    rw [bodiesAfter_plain] at member
    cases List.mem_singleton.mp member
    exact ⟨_, reads_plainBody⟩
  exact ⟨tokenized, tokenizedSigned, parsed, inserted, within,
    (SourceFile.parse_droppedSignatures tokenized tokenizedSigned parsed inserted).2 4 within
      (by decide)⟩

/-- An inline object in so many parentheses that no nesting is left for a type in it. -/
def deepSource (signature : String) : String :=
  "interface A\x7bx:" ++ String.ofList (List.replicate 61 '(') ++ "\x7by;" ++ signature ++ "\x7d" ++
    String.ofList (List.replicate 61 ')') ++ ";\x7d"

/-- Parentheses are looked for beyond the members that they are in. -/
def overhangingSource (signature : String) : String :=
  "interface A\x7bp:(a[(]);" ++ signature ++ "q:b[)];r:c[)=>d];\x7d"

/-- An inline object that is passed over with the type parameters it is in. -/
def constrainedSource (signature : String) : String :=
  "interface A\x7bm<T extends\x7ba:B;" ++ signature ++ "\x7d>():C;\x7d"

-- Sources cannot be compared, but why they are refused can be.
theorem parse_eq_error {source : String} {error : SourceError}
    (refused : (match SourceFile.parse source with
      | .ok _ => none
      | .error error => some error) = some error) : SourceFile.parse source = .error error := by
  split at refused
  · contradiction
  · next same => rw [same, Option.some.inj refused]

theorem exists_parse {source : String} (accepted : (SourceFile.parse source).toOption.isSome = true) :
    ∃ file, SourceFile.parse source = .ok file := by
  cases parsed : SourceFile.parse source with
  | ok file => exact ⟨file, rfl⟩
  | error => rw [parsed] at accepted; contradiction

/-- Signatures that are dropped elsewhere make sources unreadable: in the first one the nesting is
used up, in the others the brackets in the type of the signature are not closed. -/
theorem refused_of_signature :
    (∃ file, SourceFile.parse "interface A\x7bm():B;m():x[(];m():x[>];\x7d" = .ok file) ∧
    (∃ file, SourceFile.parse (deepSource "") = .ok file) ∧
    SourceFile.parse (deepSource "m():B;") = .error (.nestingTooDeep 64 65 82) ∧
    (∃ file, SourceFile.parse (overhangingSource "") = .ok file) ∧
    SourceFile.parse (overhangingSource "m():x[(];") =
      .error (.unexpectedToken "property name" "]" 45) ∧
    (∃ file, SourceFile.parse (constrainedSource "") = .ok file) ∧
    SourceFile.parse (constrainedSource "m():x[>];") =
      .error (.unexpectedToken "opening bracket" "]" 35) :=
  ⟨exists_parse (by decide +kernel), exists_parse (by decide +kernel),
    parse_eq_error (by decide +kernel), exists_parse (by decide +kernel),
    parse_eq_error (by decide +kernel), exists_parse (by decide +kernel),
    parse_eq_error (by decide +kernel)⟩

end Sources

end Toggles.Declaration
