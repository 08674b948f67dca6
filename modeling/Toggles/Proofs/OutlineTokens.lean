import Mathlib.Data.List.Forall2
import Toggles.Proofs.Defaults
import Toggles.Proofs.QuotedText

/-! The tokens of the declaration of a version type.

The declaration is a list of lines, and no token goes on from one of them to the next, so its tokens
are those of its lines. A title stands in a comment up to the end of its first line. What stands
behind that line is no longer in the comment and is read like the lines around it.
-/

set_option autoImplicit false

namespace Toggles.Declaration

open Definition (isWord propertyKey)

/-- A text is read as some tokens without documentation, wherever it stands. -/
def CutsInto (text : List Char) (tokens : List Token) : Prop :=
  ∀ seen position, ∃ stream, tokensAfter seen none position text = .ok stream ∧
    stream.tokens.map Located.content =
      seen.reverse.map Located.content ++ tokens.map (·, none) ∧
    stream.trailingDoc = none

/-- What a text is read as on its own: its tokens, and the documentation at its end. -/
def contentOf? (text : List Char) : Option (List (Token × Option String) × Option String) :=
  match tokensAfter [] none 0 text with
  | .ok stream => some (stream.tokens.map Located.content, stream.trailingDoc)
  | .error _ => none

def behindLine (text : List Char) : List Char :=
  (text.dropWhile (· != '\n')).tail

section Lines
variable {text inside more : List Char} {tokens others : List Token} {token : Token}
  {seen : List Located} {pending : Option String} {position : Nat} {stream : TokenStream}

theorem trailingDoc_moved (read : tokensAfter seen pending position text = .ok stream)
    (otherSeen : List Located) (otherPosition : Nat) :
    ∃ other, tokensAfter otherSeen pending otherPosition text = .ok other ∧
      other.trailingDoc = stream.trailingDoc := by
  induction seen, pending, position, text using tokensAfter.induct generalizing otherSeen otherPosition with
  | case1 seen pending position =>
      cases tokensAfter_nil.symm.trans read
      exact ⟨_, tokensAfter_nil, rfl⟩
  | case2 seen pending position c rest unclosed cuts =>
      cases (tokensAfter_unclosed cuts).symm.trans read
  | case3 seen pending position c rest result cuts _ kind ih
  | case4 seen pending position c rest result cuts _ body kind ih
  | case5 seen pending position c rest result cuts _ token kind ih =>
      rw [tokensAfter_cons cuts, kind] at read
      rw [tokensAfter_cons cuts, kind]
      exact ih read _ _

-- A text that is complete on its own is read in the same way wherever it stands.
theorem cutsInto_of_contentOf? (read : contentOf? text = some (tokens.map (·, none), none)) :
    CutsInto text tokens := by
  intro seen position
  unfold contentOf? at read
  split at read
  · next stream done =>
      obtain ⟨content, trailing⟩ := Prod.mk.inj (Option.some.inj read)
      obtain ⟨other, given, moved, there, here, behind, -, same⟩ :=
        tokensAfter_moved done seen none position
      obtain ⟨_, again, alike⟩ := trailingDoc_moved done seen position
      cases there.symm.trans again
      rw [List.reverse_nil, List.nil_append] at here
      refine ⟨other, there, ?_, alike.trans trailing⟩
      rw [behind, List.map_append, same rfl, ← here, content]
  · cases read

theorem cutsInto_nil : CutsInto [] [] :=
  cutsInto_of_contentOf? (by simp [contentOf?, tokensAfter_nil])

theorem CutsInto.eq_nil (cuts : CutsInto [] tokens) : tokens = [] := by
  obtain ⟨stream, read, content, -⟩ := cuts [] 0
  cases tokensAfter_nil.symm.trans read
  simpa using content

theorem CutsInto.space (cuts : CutsInto text tokens) : CutsInto (' ' :: text) tokens := by
  intro seen position
  rw [tokensAfter_space]
  exact cuts seen (position + 1)

-- A token that is cut off in front of a text.
theorem CutsInto.cons {front : List Char} (cutOff : ∀ seen position, ∃ stop,
      tokensAfter seen none position (front ++ text) =
        tokensAfter (⟨token, position, none⟩ :: seen) none stop text)
    (cuts : CutsInto text tokens) : CutsInto (front ++ text) (token :: tokens) := by
  intro seen position
  obtain ⟨stop, reads⟩ := cutOff seen position
  obtain ⟨stream, read, content, trailing⟩ := cuts (⟨token, position, none⟩ :: seen) stop
  refine ⟨stream, reads.trans read, ?_, trailing⟩
  simp [content, Located.content]

theorem cutsInto_comment (inLine : '\n' ∉ inside) : CutsInto ('/' :: '/' :: inside) [] := by
  intro seen position
  have atEnd : ∀ c ∈ ([] : List Char).head?, c = '\n' := nofun
  obtain ⟨size, cuts⟩ := cut_line inLine atEnd
  rw [List.append_nil] at cuts
  exact ⟨_, (tokensAfter_blank cuts).trans tokensAfter_nil, by simp, rfl⟩

theorem CutsInto.append (cuts : CutsInto text tokens) (behind : CutsInto more others) :
    CutsInto (text ++ '\n' :: more) (tokens ++ others) := by
  intro seen position
  obtain ⟨stream, read, content, trailing⟩ := cuts seen position
  obtain ⟨last, readBehind, contentBehind, trailingBehind⟩ :=
    behind stream.tokens.reverse (stream.stop + 1)
  refine ⟨last, ?_, ?_, trailingBehind⟩
  · rw [tokensAfter_append read, trailing, tokensAfter_newline, readBehind]
  · simp [contentBehind, content]

-- By the lines: each of them is complete, so the next one begins anew.
theorem cutsInto_lines {lines : List String} {tokensOfLines : List (List Token)}
    (each : List.Forall₂ (fun line tokens => CutsInto line.toList tokens) lines tokensOfLines) :
    CutsInto (lines.flatMap fun line => line.toList ++ ['\n']) tokensOfLines.flatten := by
  induction each with
  | nil => exact cutsInto_nil
  | cons first _ ih => simpa using first.append ih

theorem dropWhile_line (inLine : '\n' ∉ text) : text.dropWhile (· != '\n') = [] := by
  simp only [List.dropWhile_eq_nil_iff, bne_iff_ne]
  rintro c member rfl
  exact inLine member

theorem behindLine_of_inLine (inLine : '\n' ∉ text) : behindLine text = [] := by
  rw [behindLine, dropWhile_line inLine, List.tail_nil]

-- A comment ends with the first line of what is written into it.
theorem CutsInto.remark {title : List Char} (behind : CutsInto (behindLine title) tokens) :
    CutsInto ('/' :: '/' :: ' ' :: title) tokens := by
  have first : '\n' ∉ ' ' :: title.takeWhile (· != '\n') := by
    simp only [List.mem_cons, not_or]
    exact ⟨by decide, fun member => by simpa using List.mem_takeWhile_imp member⟩
  have whole := List.takeWhile_append_dropWhile (p := (· != '\n')) (l := title)
  cases rest : title.dropWhile (· != '\n') with
  | nil =>
      rw [behindLine, rest, List.tail_nil] at behind
      rw [rest, List.append_nil] at whole
      rw [whole] at first
      rw [behind.eq_nil]
      exact cutsInto_comment first
  | cons c below =>
      have newline : c = '\n' := by
        have ends := List.head?_dropWhile_not (· != '\n') title
        simpa [rest] using ends
      subst newline
      rw [behindLine, rest, List.tail_cons] at behind
      rw [rest] at whole
      rw [← whole]
      exact (cutsInto_comment first).append behind

end Lines

/-- The token of a name: a word if it can be one, else a string literal. -/
def keyToken (name : String) : Token :=
  if isWord name.toList then .word name else .quoted name

theorem map_misread {name : String} (plain : '\x08' ∉ name.toList ∧ '\x0c' ∉ name.toList) :
    String.ofList (name.toList.map misread) = name := by
  have same : name.toList.map misread = name.toList.map id := by
    refine List.map_congr_left fun c member => misread_eq_self.mpr ⟨?_, ?_⟩
    · rintro rfl
      exact plain.1 member
    · rintro rfl
      exact plain.2 member
  rw [same, List.map_id, String.ofList_toList]

-- The name of a property is read as one token, whether or not it stands between quotation marks.
theorem CutsInto.key {name : String} {text : List Char} {tokens : List Token}
    (plain : '\x08' ∉ name.toList ∧ '\x0c' ∉ name.toList) (cuts : CutsInto (':' :: text) tokens) :
    CutsInto ((propertyKey name).toList ++ ':' :: text) (keyToken name :: tokens) := by
  unfold propertyKey keyToken
  split
  · next word =>
      have legible : (Token.word name).Legible (':' :: text) := by
        refine ⟨word, ?_⟩
        rintro c ⟨⟩
        decide +kernel
      refine cuts.cons fun seen position => ?_
      obtain ⟨c, rest, size, same, cuts⟩ := cuts_legible legible
      rw [Token.text] at same
      exact ⟨position + size, by rw [same, tokensAfter_token cuts]⟩
  · have chars : (Json.str name).compact.toList =
        '"' :: (name.toList.flatMap Json.escapeChar ++ ['"']) := by
      rw [Json.compact, String.toList_ofList]
      rfl
    refine cuts.cons fun seen position => ?_
    have read := (literalBody_quoted name.toList).tokensAfter_quoted (.inl rfl) seen none position
      (':' :: text)
    rw [decodeText_quoted, map_misread plain] at read
    rw [chars, List.cons_append, List.append_assoc, List.singleton_append]
    exact ⟨_, read⟩

end Toggles.Declaration

namespace Toggles.Definition

open Declaration

def shownTitle (entry : String × Feature) : String :=
  entry.2.metadata.title.getD entry.1

def featureTokens (name : String) : List Token :=
  [keyToken name, .mark .colon, .mark .openBrace, .word "enabled", .mark .colon, .word "boolean",
    .mark .semicolon, .mark .closeBrace, .mark .semicolon]

/-- The tokens of the declaration of a version type, with some more in front of each feature. -/
def outlineTokens (tree : Tree) (before : String × Feature → List Token) : List Token :=
  [.word "export", .word "type", .word "IVersion", .mark .equals, .mark .openBrace,
    .word "name", .mark .colon, .word "string", .mark .semicolon,
    .word "description", .mark .question, .mark .colon, .word "string", .mark .semicolon,
    .word "features", .mark .colon, .mark .openBrace] ++
  tree.flatMap (fun entry => before entry ++ featureTokens entry.1) ++
  [.mark .closeBrace, .mark .semicolon, .mark .closeBrace, .mark .semicolon]

/-- A source is read as some tokens without documentation, unless it is refused for its size. -/
structure ReadsAs (source : String) (tokens : List Token) : Prop where
  tooLarge : maximumSourceSize < source.utf8ByteSize →
    tokenize source = .error (.inputTooLarge maximumSourceSize source.utf8ByteSize)
  reads : source.utf8ByteSize ≤ maximumSourceSize → ∃ stream, tokenize source = .ok stream ∧
    stream.tokens.map Located.content = tokens.map (·, none) ∧ stream.trailingDoc = none

theorem readsAs_of_cutsInto {source : String} {tokens : List Token}
    (cuts : CutsInto source.toList tokens) : ReadsAs source tokens where
  tooLarge large := by rw [tokenize, if_pos large]
  reads fits := by
    obtain ⟨stream, read, content, trailing⟩ := cuts [] 0
    exact ⟨stream, tokenize_of_tokensAfter fits read, by simpa using content, trailing⟩

section Outlines
variable {tree : Tree} {entry : String × Feature}

theorem featureSchemasOf_versionSchema (tree : Tree) : featureSchemasOf tree.versionSchema =
    tree.map fun entry => (entry.1, entry.2.schema entry.1) :=
  featureSchemas_eq_map tree

theorem titleOf_schema (entry : String × Feature) :
    titleOf entry.1 (entry.2.schema entry.1) = shownTitle entry := by
  obtain ⟨name, metadata, children⟩ := entry
  rw [Feature.schema]
  rfl

theorem cutsInto_featureLines (plain : '\x08' ∉ entry.1.toList ∧ '\x0c' ∉ entry.1.toList)
    {before : List Token} (behind : CutsInto (behindLine (shownTitle entry).toList) before) :
    List.Forall₂ (fun line tokens => CutsInto line.toList tokens)
      (featureLines (entry.1, entry.2.schema entry.1))
      [before, [keyToken entry.1, .mark .colon, .mark .openBrace], [],
        [.word "enabled", .mark .colon, .word "boolean", .mark .semicolon],
        [.mark .closeBrace, .mark .semicolon]] := by
  have opens : CutsInto ": \x7b".toList [.mark .colon, .mark .openBrace] :=
    cutsInto_of_contentOf? (by decide +kernel)
  refine .cons ?_ (.cons ?_ (.cons ?_ (.cons ?_ (.cons ?_ .nil))))
  · rw [titleOf_schema, String.toList_append]
    exact behind.remark.space.space.space.space
  · rw [String.toList_append, String.toList_append]
    exact (opens.key plain).space.space.space.space
  · exact cutsInto_of_contentOf? (by decide +kernel)
  · exact cutsInto_of_contentOf? (by decide +kernel)
  · exact cutsInto_of_contentOf? (by decide +kernel)

-- By the lines in front of the features, those of each feature, and those behind them.
theorem cutsInto_typeDefinitions
    (names : ∀ entry ∈ tree, '\x08' ∉ entry.1.toList ∧ '\x0c' ∉ entry.1.toList)
    {before : String × Feature → List Token}
    (behind : ∀ entry ∈ tree, CutsInto (behindLine (shownTitle entry).toList) (before entry)) :
    CutsInto (typeDefinitions tree.versionSchema).toList (outlineTokens tree before) := by
  have opening : List.Forall₂ (fun line tokens => CutsInto (String.toList line) tokens)
      ["export type IVersion = \x7b", "  // Version name", "  name: string;",
        "  // Version description", "  description?: string;", "  // Feature list",
        "  features: \x7b"]
      [[.word "export", .word "type", .word "IVersion", .mark .equals, .mark .openBrace], [],
        [.word "name", .mark .colon, .word "string", .mark .semicolon], [],
        [.word "description", .mark .question, .mark .colon, .word "string", .mark .semicolon], [],
        [.word "features", .mark .colon, .mark .openBrace]] := by
    simp only [List.forall₂_cons, List.forall₂_nil_left_iff, and_true]
    refine ⟨?_, ?_, ?_, ?_, ?_, ?_, ?_⟩ <;> exact cutsInto_of_contentOf? (by decide +kernel)
  have closing : List.Forall₂ (fun line tokens => CutsInto (String.toList line) tokens)
      ["  \x7d;", "\x7d;"]
      [[.mark .closeBrace, .mark .semicolon], [.mark .closeBrace, .mark .semicolon]] := by
    simp only [List.forall₂_cons, List.forall₂_nil_left_iff, and_true]
    constructor <;> exact cutsInto_of_contentOf? (by decide +kernel)
  have features : List.Forall₂ (fun line tokens => CutsInto (String.toList line) tokens)
      (tree.flatMap fun entry => featureLines (entry.1, entry.2.schema entry.1))
      (tree.flatMap fun entry =>
        [before entry, [keyToken entry.1, .mark .colon, .mark .openBrace], [],
          [.word "enabled", .mark .colon, .word "boolean", .mark .semicolon],
          [.mark .closeBrace, .mark .semicolon]]) := by
    clear opening closing
    induction tree with
    | nil => exact .nil
    | cons entry rest ih =>
        obtain ⟨plain, names⟩ := List.forall_mem_cons.mp names
        obtain ⟨first, behind⟩ := List.forall_mem_cons.mp behind
        rw [List.flatMap_cons, List.flatMap_cons]
        exact List.rel_append (cutsInto_featureLines plain first) (ih names behind)
  have whole := cutsInto_lines (List.rel_append (List.rel_append opening features) closing)
  have text : (typeDefinitions tree.versionSchema).toList =
      (typeDefinitionLines tree.versionSchema).flatMap fun line => line.toList ++ ['\n'] := by
    simp [typeDefinitions, List.flatMap_def, Function.comp_def]
  rw [text, typeDefinitionLines, featureSchemasOf_versionSchema, List.flatMap_map]
  simpa [outlineTokens, featureTokens, List.flatMap_def, List.flatten_flatten, Function.comp_def]
    using whole

end Outlines

/-- The declaration of a version type is read, unless it is too large, as the tokens of its features
in order, whatever their names are but for backspace and form feed. A title of one line has no token
in it. Of any other title the first line is passed over, and what stands behind that line is read in
front of the feature as if it were written there. -/
theorem tokenize_typeDefinitions (tree : Tree)
    (names : ∀ entry ∈ tree, '\x08' ∉ entry.1.toList ∧ '\x0c' ∉ entry.1.toList) :
    ((∀ entry ∈ tree, '\n' ∉ (shownTitle entry).toList) →
      ReadsAs (typeDefinitions tree.versionSchema) (outlineTokens tree fun _ => [])) ∧
    ∀ before : String × Feature → List Token,
      (∀ entry ∈ tree, CutsInto (behindLine (shownTitle entry).toList) (before entry)) →
      ReadsAs (typeDefinitions tree.versionSchema) (outlineTokens tree before) := by
  refine ⟨fun titles => ?_, fun before behind => ?_⟩
  · refine readsAs_of_cutsInto (cutsInto_typeDefinitions names fun entry member => ?_)
    rw [behindLine_of_inLine (titles entry member)]
    exact cutsInto_nil
  · exact readsAs_of_cutsInto (cutsInto_typeDefinitions names behind)

def Feature.titled (title : Option String) : Feature :=
  ⟨{ Metadata.blank with title }, []⟩

/-- Features with titles that look like the end of a comment and like another property, and with
names that need quotation marks. -/
def disguisedTree : Tree :=
  [("search", .titled (some "*/ x: \x7b // \"")), ("a \"b\"\n\u00e9", .titled (some "\r/*\u2028")),
    ("1st", .titled none)]

def splitTree : Tree :=
  [("a", .titled (some "A\nb"))]

theorem names_splitTree :
    ∀ entry ∈ splitTree, '\x08' ∉ entry.1.toList ∧ '\x0c' ∉ entry.1.toList := by
  decide +kernel

theorem behind_splitTree :
    ∀ entry ∈ splitTree, CutsInto (behindLine (shownTitle entry).toList) [.word "b"] := by
  simp only [splitTree, List.forall_mem_singleton]
  exact cutsInto_of_contentOf? (by decide +kernel)

theorem tokenize_disguisedTree :
    (∀ entry ∈ disguisedTree, '\x08' ∉ entry.1.toList ∧ '\x0c' ∉ entry.1.toList) ∧
    (∀ entry ∈ disguisedTree, '\n' ∉ (shownTitle entry).toList) ∧
    (∃ stream, tokenize (typeDefinitions disguisedTree.versionSchema) = .ok stream ∧
      stream.tokens.map Located.content = (outlineTokens disguisedTree fun _ => []).map (·, none)) ∧
    (∀ entry ∈ splitTree, '\x08' ∉ entry.1.toList ∧ '\x0c' ∉ entry.1.toList) ∧
    (∀ entry ∈ splitTree, CutsInto (behindLine (shownTitle entry).toList) [.word "b"]) ∧
    ReadsAs (typeDefinitions splitTree.versionSchema) (outlineTokens splitTree fun _ => [.word "b"]) := by
  have names : ∀ entry ∈ disguisedTree, '\x08' ∉ entry.1.toList ∧ '\x0c' ∉ entry.1.toList := by
    decide +kernel
  have titles : ∀ entry ∈ disguisedTree, '\n' ∉ (shownTitle entry).toList := by decide +kernel
  have fits : (typeDefinitions disguisedTree.versionSchema).utf8ByteSize ≤ maximumSourceSize := by
    decide +kernel
  obtain ⟨stream, read, content, -⟩ :=
    ((tokenize_typeDefinitions disguisedTree names).1 titles).reads fits
  exact ⟨names, titles, ⟨stream, read, content⟩, names_splitTree, behind_splitTree,
    (tokenize_typeDefinitions splitTree names_splitTree).2 _ behind_splitTree⟩

/-- The second line of a title is a token of the declaration. -/
theorem tokenize_splitTree :
    (match tokenize (typeDefinitions splitTree.versionSchema) with
      | .ok stream => stream.tokens.map Located.token
      | .error _ => []) = outlineTokens splitTree (fun _ => [.word "b"]) ∧
    outlineTokens splitTree (fun _ => [.word "b"]) ≠ outlineTokens splitTree fun _ => [] := by
  have fits : (typeDefinitions splitTree.versionSchema).utf8ByteSize ≤ maximumSourceSize := by
    decide +kernel
  obtain ⟨stream, read, content, -⟩ :=
    (readsAs_of_cutsInto (cutsInto_typeDefinitions names_splitTree behind_splitTree)).reads fits
  have tokens := congrArg (List.map Prod.fst) content
  simp only [List.map_map, Function.comp_def, Located.content, List.map_id'] at tokens
  rw [read]
  exact ⟨tokens, by decide⟩

end Toggles.Definition
