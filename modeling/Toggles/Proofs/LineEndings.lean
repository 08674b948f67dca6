import Toggles.Declaration.Schema
import Toggles.Proofs.Replacement

/-! Line endings make no difference.

A source may have its lines ended by a line feed or by a carriage return and a line feed. The
carriage return is white space between tokens, the end of a line comment, or a character of a
template or of a block comment. Templates have no meaning, and the lines of a documentation
comment are the same with either ending, so both sources have the same artifact.
-/

set_option autoImplicit false

namespace Toggles.Declaration

open Text (isBlank lines linesAfter)

def returned (text : List Char) : List Char :=
  text.flatMap fun c => if c = '\n' then ['\r', '\n'] else [c]

def Lexeme.isStringLiteral : Lexeme → Bool
  | .token (.quoted _) => true
  | _ => false

def withReturns (source : String) : String :=
  String.ofList (returned source.toList)

section Texts
variable {c : Char} {text rest : List Char}

theorem returned_newline : returned ('\n' :: rest) = '\r' :: '\n' :: returned rest := by
  simp [returned]

theorem returned_other (other : c ≠ '\n') : returned (c :: rest) = c :: returned rest := by
  simp [returned, other]

theorem returned_append (first second : List Char) :
    returned (first ++ second) = returned first ++ returned second :=
  List.flatMap_append

theorem returned_of_notMem (inLine : '\n' ∉ text) : returned text = text := by
  induction text with
  | nil => rfl
  | cons c rest ih =>
      simp only [List.mem_cons, not_or] at inLine
      rw [returned_other (Ne.symm inLine.1), ih inLine.2]

theorem head?_returned {d : Char} (first : d ∈ (returned rest).head?) :
    d = '\r' ∨ d ∈ rest.head? := by
  cases rest with
  | nil => cases first
  | cons c rest =>
      by_cases newline : c = '\n'
      · subst newline
        rw [returned_newline] at first
        cases first
        exact .inl rfl
      · rw [returned_other newline] at first
        exact .inr first

theorem take_returned {first second : Char} (noReturn : first ≠ '\r' ∧ second ≠ '\r')
    (starts : (returned text).take 2 = [first, second]) : text.take 2 = [first, second] := by
  rcases text with _ | ⟨c, rest⟩
  · cases starts
  · by_cases newline : c = '\n'
    · subst newline
      rw [returned_newline] at starts
      cases starts
      exact (noReturn.1 rfl).elim
    · rw [returned_other newline] at starts
      rcases rest with _ | ⟨d, rest⟩
      · cases starts
      · by_cases newline : d = '\n'
        · subst newline
          rw [returned_newline] at starts
          cases starts
          exact (noReturn.2 rfl).elim
        · rw [returned_other newline] at starts
          cases starts
          rfl

theorem unclosed_returned (unclosed : ¬['*', '/'] <:+: text) : ¬['*', '/'] <:+: returned text := by
  induction text with
  | nil => exact unclosed
  | cons c rest ih =>
      have ih := ih fun within => unclosed (List.infix_cons within)
      by_cases newline : c = '\n'
      · subst newline
        rw [returned_newline]
        simpa [List.infix_cons_iff] using ih
      · rw [returned_other newline, List.infix_cons_iff]
        rintro (⟨more, starts⟩ | within)
        · have two : (returned (c :: rest)).take 2 = ['*', '/'] := by
            rw [returned_other newline, ← starts]
            rfl
          have same := take_returned (by decide) two
          exact unclosed ⟨[], (c :: rest).drop 2, by rw [← same]; exact List.take_append_drop 2 _⟩
        · exact ih within

theorem splitTemplate_returned {seen body : List Char}
    (split : splitTemplate seen text = some (body, rest)) :
    ∃ inside, body = seen.reverse ++ inside ∧ ∀ other, splitTemplate other (returned text) =
      some (other.reverse ++ returned inside, returned rest) := by
  fun_induction splitTemplate seen text with
  | case1 => contradiction
  | case2 seen after =>
      cases split
      exact ⟨[], by simp, fun other => by simp [splitTemplate, returned]⟩
  | case3 seen escaped after ih =>
      obtain ⟨inside, rfl, read⟩ := ih split
      refine ⟨'\\' :: escaped :: inside, by simp, fun other => ?_⟩
      have backslash (text : List Char) : returned ('\\' :: text) = '\\' :: returned text :=
        returned_other (by decide)
      rw [backslash, backslash]
      by_cases newline : escaped = '\n'
      · subst newline
        rw [returned_newline, returned_newline, splitTemplate, splitTemplate, read]
        · simp
        all_goals simp
      · rw [returned_other newline, returned_other newline, splitTemplate, read]
        simp
  | case4 seen c after other unescaped ih =>
      obtain ⟨inside, rfl, read⟩ := ih split
      refine ⟨c :: inside, by simp, fun before => ?_⟩
      by_cases newline : c = '\n'
      · subst newline
        rw [returned_newline, returned_newline, splitTemplate, splitTemplate, read]
        · simp
        all_goals simp
      · have plain : c ≠ '\\' := by
          rintro rfl
          cases after with
          | nil => simp [splitTemplate] at split
          | cons d after => exact unescaped d after rfl rfl
        rw [returned_other newline, returned_other newline, splitTemplate.eq_4 _ _ _ other, read]
        · simp
        · exact fun _ _ backslash => (plain backslash).elim

-- A line feed in a literal follows a backslash.
theorem newline_of_splitText {quote : Char} {seen body : List Char}
    (split : splitText quote seen text = some (body, rest)) :
    ∃ inside, body = seen.reverse ++ inside ∧ ('\n' ∈ inside → ['\\', '\n'] <:+: text) := by
  fun_induction splitText quote seen text with
  | case1 | case3 | case4 => contradiction
  | case2 seen after =>
      cases split
      exact ⟨[], by simp, fun member => (List.not_mem_nil member).elim⟩
  | case5 seen escaped after other plain ih =>
      obtain ⟨inside, rfl, newline⟩ := ih split
      refine ⟨'\\' :: escaped :: inside, by simp, fun member => ?_⟩
      by_cases same : escaped = '\n'
      · exact ⟨[], after, by simp [same]⟩
      · have later : '\n' ∈ inside := by simpa [Ne.symm same] using member
        exact List.infix_cons (List.infix_cons (newline later))
  | case6 seen c after other plain unescaped ih =>
      obtain ⟨inside, rfl, newline⟩ := ih split
      refine ⟨c :: inside, by simp, fun member => ?_⟩
      have later : '\n' ∈ inside := by simpa [Ne.symm plain] using member
      exact List.infix_cons (newline later)

theorem dropReturn_return (reversed : List Char) (noReturn : '\r' ∉ reversed) :
    Text.dropReturn ('\r' :: reversed) = Text.dropReturn reversed := by
  rcases reversed with _ | ⟨c, reversed⟩
  · rfl
  · simp only [List.mem_cons, not_or] at noReturn
    unfold Text.dropReturn
    split
    · next same => cases same; split <;> simp_all
    · next none => exact (none _ rfl).elim

-- The lines of a text are the same with either ending.
theorem linesAfter_returned {reversed : List Char} (noReturn : '\r' ∉ reversed)
    (noReturns : '\r' ∉ text) : linesAfter reversed (returned text) = linesAfter reversed text := by
  induction text generalizing reversed with
  | nil => rfl
  | cons c rest ih =>
      simp only [List.mem_cons, not_or] at noReturns
      by_cases newline : c = '\n'
      · subst newline
        simp [returned_newline, linesAfter, dropReturn_return reversed noReturn,
          ih List.not_mem_nil noReturns.2]
      · rw [returned_other newline, linesAfter, linesAfter, if_neg newline, if_neg newline]
        refine ih ?_ noReturns.2
        simp only [List.mem_cons, not_or]
        exact ⟨noReturns.1, noReturn⟩

end Texts

section Lexemes

def ReturnedDoc (doc other : String) : Prop :=
  '\r' ∉ doc.toList ∧ other = withReturns doc

variable {c : Char} {text front rest : List Char} {lexeme : Lexeme} {related : String → String → Prop}

theorem takes_blank (takes : Takes c front lexeme rest) (blank : isBlank c = true) :
    front = [] ∧ lexeme = .blank := by
  obtain ⟨size, cuts⟩ := cut_of_takes takes
  rw [cut, if_pos blank] at cuts
  simp only [Except.ok.injEq, Cut.mk.injEq] at cuts
  exact ⟨by simpa using cuts.2.2, cuts.1.symm⟩

theorem Lexes.of_blank {parts : List Fragment} (lexes : Lexes (c :: rest) parts)
    (blank : isBlank c = true) : ∃ behind, parts = ⟨.blank, [c]⟩ :: behind ∧ Lexes rest behind := by
  generalize whole : c :: rest = text at lexes
  cases lexes with
  | nil => cases whole
  | cons takes lexes =>
      cases (List.cons.inj whole).1
      obtain ⟨rfl, rfl⟩ := takes_blank takes blank
      cases (List.cons.inj whole).2
      exact ⟨_, rfl, lexes⟩

theorem Alike.of_blankOther {lexemes others : List Lexeme}
    (alike : Alike related lexemes (.blank :: others)) : Alike related lexemes others := by
  generalize same : Lexeme.blank :: others = whole at alike
  induction alike with
  | blank behind ih => exact .blank (ih same)
  | blankOther behind ih => cases same; exact behind
  | nil | doc | remark | token => cases same

theorem ends_returned {part : Char → Bool} (noReturn : part '\r' = false)
    (ends : ∀ d ∈ rest.head?, part d = false) : ∀ d ∈ (returned rest).head?, part d = false := by
  intro d first
  rcases head?_returned first with rfl | first
  · exact noReturn
  · exact ends d first

theorem returned_run {part : Char → Bool} {run : List Char} (noNewline : part '\n' = false)
    (parts : ∀ d ∈ run, part d = true) : returned run = run := by
  refine returned_of_notMem fun member => ?_
  simp [parts _ member] at noNewline

/-- One lexeme may stand for another one where the lines are returned. -/
def StandsFor (other lexeme : Lexeme) : Prop :=
  ∀ lexemes others, Alike ReturnedDoc lexemes others →
    Alike ReturnedDoc (lexeme :: lexemes) (other :: others)

theorem standsFor_token (token : Token) : StandsFor (.token token) (.token token) :=
  fun _ _ alike => .token (.refl token) alike

theorem standsFor_comment {body : List Char} (noReturn : '\r' ∉ body) :
    StandsFor (.comment (returned body)) (.comment body) := by
  intro lexemes others alike
  by_cases star : body.head? = some '*'
  · obtain ⟨doc, rfl⟩ := List.head?_eq_some_iff.mp star
    have docs : ReturnedDoc (String.ofList doc) (withReturns (String.ofList doc)) :=
      ⟨by simp_all, rfl⟩
    rw [returned_other (by decide)]
    simpa [withReturns] using Alike.doc docs alike
  · refine .remark star (fun first => ?_) alike
    rcases head?_returned first with same | first
    · exact absurd same (by decide)
    · exact star first

-- A token or a comment goes over its line breaks in the same way with either ending.
theorem Takes.returned (takes : Takes c front lexeme rest) (filled : lexeme ≠ .blank)
    (noReturn : '\r' ∉ front)
    (unbroken : lexeme.isStringLiteral = true → ¬['\\', '\n'] <:+: c :: front) :
    ∃ other, Takes c (Declaration.returned front) other (Declaration.returned rest) ∧
      StandsFor other lexeme := by
  cases takes with
  | blank | line => exact (filled rfl).elim
  | @comment body _ slash unclosed =>
      have around : Declaration.returned ('*' :: body ++ ['*', '/']) =
          '*' :: Declaration.returned body ++ ['*', '/'] := by
        rw [List.cons_append, returned_other (by decide), returned_append]
        rfl
      rw [around]
      exact ⟨_, .comment slash (unclosed_returned unclosed), standsFor_comment (by simp_all)⟩
  | @quoted body _ quote split =>
      obtain ⟨_, rfl, newline⟩ := newline_of_splitText split
      have inLine : '\n' ∉ body ++ [c] := by
        intro member
        rcases List.mem_append.mp member with inside | last
        · exact unbroken rfl (List.infix_cons (newline inside))
        · rcases quote with rfl | rfl <;> cases List.mem_singleton.mp last
      rw [returned_of_notMem inLine]
      exact ⟨_, .quoted quote split, standsFor_token _⟩
  | @template body _ quote split =>
      obtain ⟨_, rfl, read⟩ := splitTemplate_returned split
      subst quote
      have around : Declaration.returned (body ++ ['\x60']) = Declaration.returned body ++ ['\x60'] :=
        returned_append body ['\x60']
      have read := read []
      rw [around] at read ⊢
      exact ⟨_, .template rfl read, fun _ _ => .token trivial⟩
  | number digit parts ends =>
      rw [returned_run (by decide) parts]
      exact ⟨_, .number digit parts (ends_returned (by decide) ends), standsFor_token _⟩
  | word start parts ends =>
      rw [returned_run (by decide +kernel) parts]
      exact ⟨_, .word start parts (ends_returned (by decide +kernel) ends), standsFor_token _⟩
  | ellipsis dot => exact ⟨_, .ellipsis dot, standsFor_token _⟩
  | arrow equals => exact ⟨_, .arrow equals, standsFor_token _⟩
  | lone lone slash dot equals =>
      refine ⟨_, .lone lone (fun isSlash d first => ?_) (fun isDot twice => ?_)
        (fun isEquals d first => ?_), standsFor_token _⟩
      · rcases head?_returned first with rfl | first
        · decide
        · exact slash isSlash d first
      · exact dot isDot (take_returned (by decide) twice)
      · rcases head?_returned first with rfl | first
        · decide
        · exact equals isEquals d first

-- White space and line comments are such with either ending.
theorem Takes.blank_returned {others : List Fragment} {lexemes : List Lexeme}
    (takes : Takes c front .blank rest) (lexes : Lexes (Declaration.returned rest) others)
    (alike : Alike ReturnedDoc lexemes (others.map Fragment.lexeme)) :
    ∃ parts, Lexes (Declaration.returned (c :: front ++ rest)) parts ∧
      Alike ReturnedDoc (.blank :: lexemes) (parts.map Fragment.lexeme) := by
  have returnIsBlank : isBlank '\r' = true := by decide
  have newlineIsBlank : isBlank '\n' = true := by decide
  cases takes with
  | blank blank =>
      by_cases newline : c = '\n'
      · subst newline
        have written := Lexes.cons (.blank returnIsBlank) (.cons (.blank newlineIsBlank) lexes)
        exact ⟨⟨_, _⟩ :: ⟨_, _⟩ :: others, by simpa [returned_newline] using written,
          .blank (.blankOther (.blankOther alike))⟩
      · have written := Lexes.cons (.blank blank) lexes
        exact ⟨⟨_, _⟩ :: others, by simpa [returned_other newline] using written,
          .blank (.blankOther alike)⟩
  | @line inside _ slash inLine ends =>
      have around : Declaration.returned (c :: '/' :: inside) = c :: '/' :: inside :=
        returned_of_notMem (by simpa [slash] using inLine)
      rw [returned_append, around]
      cases rest with
      | nil =>
          exact ⟨⟨_, _⟩ :: others, .cons (.line slash inLine (by simp [Declaration.returned])) lexes,
            .blank (.blankOther alike)⟩
      | cons d rest =>
          -- The carriage return before the end of the comment is part of the comment.
          cases ends d rfl
          rw [returned_newline] at lexes ⊢
          obtain ⟨others, rfl, afterReturn⟩ := lexes.of_blank returnIsBlank
          have inLine : '\n' ∉ inside ++ ['\r'] := by simpa using inLine
          have written := Lexes.cons (.line slash inLine (by simp)) afterReturn
          exact ⟨⟨_, _⟩ :: others, by simpa using written, .blank (.blankOther alike.of_blankOther)⟩

-- With returned lines a text has the same lexemes, but for white space and for the ends of the
-- lines in its comments and templates.
theorem Lexes.returned {parts : List Fragment} (lexes : Lexes text parts) (noReturn : '\r' ∉ text)
    (unbroken : ∀ fragment ∈ parts, fragment.lexeme.isStringLiteral = true →
      ¬['\\', '\n'] <:+: fragment.text) :
    ∃ others, Lexes (Declaration.returned text) others ∧
      Alike ReturnedDoc (parts.map Fragment.lexeme) (others.map Fragment.lexeme) := by
  induction lexes with
  | nil => exact ⟨[], .nil, .nil⟩
  | @cons c front rest lexeme behind takes lexes ih =>
      simp only [List.mem_append, List.mem_cons, not_or] at noReturn
      obtain ⟨⟨-, noReturnFront⟩, noReturnRest⟩ := noReturn
      obtain ⟨unbrokenHere, unbrokenBehind⟩ := List.forall_mem_cons.mp unbroken
      obtain ⟨others, lexesOther, alike⟩ := ih noReturnRest unbrokenBehind
      by_cases blank : lexeme = .blank
      · subst blank
        exact takes.blank_returned lexesOther alike
      · have newline : c ≠ '\n' := by
          rintro rfl
          exact blank (takes_blank takes (by decide)).2
        obtain ⟨other, takesOther, stands⟩ := takes.returned blank noReturnFront unbrokenHere
        rw [List.cons_append, returned_other newline, returned_append]
        exact ⟨⟨other, _⟩ :: others, .cons takesOther lexesOther, stands _ _ alike⟩

end Lexemes

section Schemas
variable {change : String → String}

theorem annotate_map (same : ∀ doc, Doc.Comment.parse (change doc) = .parse doc)
    (schema : Json.Members) (doc : Option String) :
    annotate schema (doc.map change) = annotate schema doc := by
  cases doc with
  | none => rfl
  | some doc => rw [Option.map_some, annotate, annotate, same]

mutual

theorem typeSchema_redocument (same : ∀ doc, Doc.Comment.parse (change doc) = .parse doc) :
    (type : TypeExpr) → typeSchema (type.redocument change) = typeSchema type
  | .keyword _ | .literal _ | .tuple _ | .uninterpreted => rfl
  | .array item => by
      rw [TypeExpr.redocument, typeSchema, typeSchema, typeSchema_redocument same item]
  | .union members => by
      rw [TypeExpr.redocument, redocumentEach_eq_map, typeSchema, typeSchema,
        mapM_literal?_redocument, typeSchemas_redocument same members]
  | .object members => by
      rw [TypeExpr.redocument, redocumentMembers_eq_map, typeSchema, typeSchema,
        propertySchemas_redocument same members, requiredNames_redocument]
  | .reference name [item] => by
      rw [TypeExpr.redocument, redocumentEach_eq_map, List.map_cons, List.map_nil, typeSchema,
        typeSchema, typeSchema_redocument same item]
  | .reference name [] | .reference name (_ :: _ :: _) => rfl

theorem typeSchemas_redocument (same : ∀ doc, Doc.Comment.parse (change doc) = .parse doc) :
    (types : List TypeExpr) → typeSchemas (types.map (TypeExpr.redocument change)) = typeSchemas types
  | [] => rfl
  | type :: types => by
      rw [List.map_cons, typeSchemas, typeSchemas, typeSchema_redocument same type,
        typeSchemas_redocument same types]

theorem propertySchemas_redocument
    (same : ∀ doc, Doc.Comment.parse (change doc) = .parse doc) :
    (members : List (Property TypeExpr)) →
      propertySchemas (members.map (Property.redocument change)) = propertySchemas members
  | [] => rfl
  | ⟨name, optional, doc, type⟩ :: members => by
      rw [List.map_cons, Property.redocument, propertySchemas, propertySchemas,
        typeSchema_redocument same type, annotate_map same, propertySchemas_redocument same members]

end

-- Documentation that is read alike gives the same schema.
theorem schema_redocument (same : ∀ doc, Doc.Comment.parse (change doc) = .parse doc)
    (declared : Interface) :
    (declared.redocument change).schema = declared.schema := by
  rw [Interface.schema, Interface.schema, Interface.redocument, propertySchemas_redocument same,
    requiredNames_redocument]

end Schemas

section Sources
variable {source root : String} {artifact : Json}

def returnedDoc (doc : String) : String :=
  if '\r' ∈ doc.toList then doc else withReturns doc

theorem parse_returnedDoc (doc : String) : Doc.Comment.parse (returnedDoc doc) = .parse doc := by
  unfold returnedDoc
  split
  · rfl
  · next noReturn =>
      rw [Doc.Comment.parse, Doc.Comment.parse, withReturns, String.toList_ofList, lines, lines,
        linesAfter_returned List.not_mem_nil noReturn]

theorem eq_returnedDoc (doc other : String) (returned : ReturnedDoc doc other) :
    other = returnedDoc doc := by
  rw [returnedDoc, if_neg returned.1, returned.2]

-- With returned lines a source is compiled to the same artifact.
theorem compile_withReturns (noReturn : '\r' ∉ source.toList)
    (unbroken : ∀ fragment ∈ fragments source.toList, fragment.lexeme.isStringLiteral = true →
      ¬['\\', '\n'] <:+: fragment.text)
    (size : (withReturns source).utf8ByteSize ≤ maximumSourceSize)
    (compiled : compile source root = .ok artifact) :
    compile (withReturns source) root = .ok artifact := by
  obtain ⟨file, declared, parsed, found, rfl⟩ := compile_eq_ok_iff.mp compiled
  obtain ⟨stream, tokenized, -⟩ := interfaces_of_parse parsed
  have lexes := lexes_of_tokensAfter (tokensAfter_of_tokenize tokenized)
  obtain ⟨others, lexesOther, alike⟩ := lexes.returned noReturn unbroken
  rw [← String.toList_ofList (l := returned source.toList)] at lexesOther
  obtain ⟨streamOther, tokenizedOther, alike⟩ := tokenize_alike tokenized lexesOther alike size
  refine compile_eq_ok_iff.mpr ⟨_, _, parse_redocumented parsed tokenized tokenizedOther
    (redocumented_of_alike eq_returnedDoc alike), ?_, schema_redocument parse_returnedDoc declared⟩
  rw [interface?_redocument, found, Option.map_some]

end Sources

end Toggles.Declaration
