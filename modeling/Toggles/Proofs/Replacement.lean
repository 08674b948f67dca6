import Toggles.Declaration.Schema
import Toggles.Proofs.Fragments
import Toggles.Proofs.RoundTrip

/-! A source with other documentation comments.

The documentation comments of a source are its fragments that begin with two stars. Other bodies
in their places give the same tokens with other documentation, and so the same declarations with
other documentation.
-/

set_option autoImplicit false

namespace Toggles.Declaration

def Lexeme.doc? : Lexeme → Option String
  | .comment ('*' :: doc) => some (String.ofList doc)
  | _ => none

/-- The text of fragments with other documentation: for the number and the body of each
documentation comment another body, the fragments being read from a number on. -/
def replaced (replacement : Nat → String → String) (number : Nat) : List Fragment → List Char
  | [] => []
  | fragment :: rest =>
      match fragment.lexeme.doc? with
      | some doc =>
          commentText (some (replacement number doc)) ++ replaced replacement (number + 1) rest
      | none => fragment.text ++ replaced replacement number rest

def redocument (replacement : Nat → String → String) (source : String) : String :=
  String.ofList (replaced replacement 0 (fragments source.toList))

section Fragments
variable {c : Char} {text front rest other : List Char} {lexeme : Lexeme}
  {replacement : Nat → String → String} {related : String → String → Prop}

theorem head?_of_take {first second : List Char} (alike : second.take 2 = first.take 2) :
    second.head? = first.head? := by
  simpa [List.head?_take] using congrArg List.head? alike

-- What a lexeme takes depends on two characters behind it at most.
theorem Takes.before (takes : Takes c front lexeme rest) (alike : other.take 2 = rest.take 2) :
    Takes c front lexeme other := by
  have first := head?_of_take alike
  cases takes with
  | blank blank => exact .blank blank
  | line slash inLine ends => exact .line slash inLine (first ▸ ends)
  | comment slash unclosed => exact .comment slash unclosed
  | quoted quote split => exact .quoted quote split
  | template quote split => exact .template quote split
  | number digit parts ends => exact .number digit parts (first ▸ ends)
  | word start parts ends => exact .word start parts (first ▸ ends)
  | ellipsis dot => exact .ellipsis dot
  | arrow equals => exact .arrow equals
  | lone lone slash dot equals => exact .lone lone (first ▸ slash) (alike ▸ dot) (first ▸ equals)

theorem commentBody_of_unclosed {doc : List Char} (unclosed : ¬['*', '/'] <:+: '*' :: doc) :
    CommentBody (String.ofList doc) where
  first same := by
    rw [String.toList_ofList] at same
    cases doc with
    | nil => cases same
    | cons slash doc =>
        cases same
        exact unclosed ⟨[], doc, rfl⟩
  unclosed within := by
    rw [String.toList_ofList] at within
    exact unclosed (List.infix_cons within)

theorem Lexeme.eq_of_doc? {doc : String} (given : lexeme.doc? = some doc) :
    lexeme = .comment ('*' :: doc.toList) := by
  unfold Lexeme.doc? at given
  split at given
  · cases given
    rw [String.toList_ofList]
  · contradiction

theorem takes_comment {doc : String} (body : CommentBody doc) :
    Takes '/' ('*' :: '*' :: doc.toList ++ ['*', '/']) (.comment ('*' :: doc.toList)) rest :=
  .comment rfl body.unclosed_star

theorem take_append_alike (front : List Char) (alike : other.take 2 = rest.take 2) :
    (front ++ other).take 2 = (front ++ rest).take 2 := by
  have fewer : 2 - front.length = min (2 - front.length) 2 := by omega
  rw [List.take_append, List.take_append, fewer, ← List.take_take, ← List.take_take, alike]

-- The text of a documentation comment begins like any other one.
theorem take_replaced {parts : List Fragment} (lexes : Lexes text parts) (number : Nat) :
    (replaced replacement number parts).take 2 = text.take 2 := by
  induction lexes generalizing number with
  | nil => rfl
  | @cons c front rest lexeme behind takes lexes ih =>
      unfold replaced
      split
      · next doc given =>
          cases Lexeme.eq_of_doc? given
          cases takes with
          | comment slash => rw [slash]; rfl
      · exact take_append_alike (c :: front) (ih number)

-- With other documentation a text has the same lexemes, but for their documentation.
theorem Lexes.replaced {parts : List Fragment} (lexes : Lexes text parts)
    (bodies : ∀ number doc, CommentBody doc → CommentBody (replacement number doc))
    (relates : ∀ number doc, related doc (replacement number doc)) (number : Nat) :
    ∃ others, Lexes (Declaration.replaced replacement number parts) others ∧
      Alike related (parts.map Fragment.lexeme) (others.map Fragment.lexeme) := by
  induction lexes generalizing number with
  | nil => exact ⟨[], .nil, .nil⟩
  | @cons c front rest lexeme behind takes lexes ih =>
      unfold Declaration.replaced
      split
      · next doc given =>
          obtain ⟨others, lexesOther, alike⟩ := ih (number + 1)
          cases Lexeme.eq_of_doc? given
          cases takes with
          | comment slash unclosed =>
              have body := bodies number _ (commentBody_of_unclosed unclosed)
              rw [String.ofList_toList] at body
              have written := Lexes.cons (takes_comment body) lexesOther
              exact ⟨⟨_, _⟩ :: others, by simpa [commentText] using written,
                .doc (relates number doc) alike⟩
      · next none =>
          obtain ⟨others, lexesOther, alike⟩ := ih number
          refine ⟨_, .cons (takes.before (take_replaced lexes number)) lexesOther, ?_⟩
          cases lexeme with
          | blank => exact .blank (.blankOther alike)
          | comment body =>
              have plain : body.head? ≠ some '*' := by
                intro star
                cases body with
                | nil => cases star
                | cons c doc => cases star; cases none
              exact .remark plain plain alike
          | token token => exact .token (.refl token) alike

theorem replaced_self {parts : List Fragment} (lexes : Lexes text parts) (number : Nat) :
    Declaration.replaced (fun _ doc => doc) number parts = text := by
  induction lexes generalizing number with
  | nil => rfl
  | @cons c front rest lexeme behind takes lexes ih =>
      unfold Declaration.replaced
      split
      · next doc given =>
          rw [ih]
          cases Lexeme.eq_of_doc? given
          cases takes with
          | comment slash => simp [commentText, slash]
      · rw [ih]

end Fragments

section Sources
variable {source other : String} {stream streamOther : TokenStream} {file : SourceFile}
  {change : String → String} {replacement : Nat → String → String}

/-- A source in which each documentation comment is put in its own place stays as it is. -/
theorem redocument_self (tokenized : tokenize source = .ok stream) :
    redocument (fun _ doc => doc) source = source := by
  rw [redocument, replaced_self (lexes_of_tokensAfter (tokensAfter_of_tokenize tokenized)),
    String.ofList_toList]

theorem tokenize_redocument (related : String → String → Prop)
    (tokenized : tokenize source = .ok stream)
    (bodies : ∀ number doc, CommentBody doc → CommentBody (replacement number doc))
    (relates : ∀ number doc, related doc (replacement number doc))
    (size : (redocument replacement source).utf8ByteSize ≤ maximumSourceSize) :
    ∃ other, tokenize (redocument replacement source) = .ok other ∧
      List.Forall₂ (fun located other => AlikeContent related located.content other.content)
        stream.tokens other.tokens := by
  obtain ⟨others, lexes, alike⟩ :=
    (lexes_of_tokensAfter (tokensAfter_of_tokenize tokenized)).replaced bodies relates 0
  exact tokenize_alike tokenized (by rwa [redocument, String.toList_ofList]) alike size

theorem parse_of_tokens {interfaces : List Interface} (tokenized : tokenize source = .ok stream)
    (read : (interfacesAfter [] 0 stream.tokens).toOption = some interfaces) :
    SourceFile.parse source = .ok ⟨interfaces⟩ := by
  refine bind_eq_ok.mpr ⟨stream, tokenized, ofTokens_eq_ok ?_⟩
  cases given : interfacesAfter [] 0 stream.tokens with
  | ok same => rw [given] at read; cases read; rfl
  | error => rw [given] at read; cases read

theorem toOption_of_parse (parsed : SourceFile.parse source = .ok file)
    (tokenized : tokenize source = .ok stream) :
    (interfacesAfter [] 0 stream.tokens).toOption = some file.interfaces := by
  obtain ⟨again, same, read⟩ := interfaces_of_parse parsed
  cases tokenized.symm.trans same
  rw [read]
  rfl

-- Tokens with other documentation declare the same with other documentation.
theorem parse_redocumented (parsed : SourceFile.parse source = .ok file)
    (tokenized : tokenize source = .ok stream) (tokenizedOther : tokenize other = .ok streamOther)
    (redocumented : Redocumented change stream.tokens streamOther.tokens) :
    SourceFile.parse other = .ok (file.redocument change) := by
  refine parse_of_tokens tokenizedOther ?_
  have same := toOption_interfacesAfter redocumented [] 0
  rwa [toOption_of_parse parsed tokenized] at same

-- Sources whose tokens become the same where their documentation is changed declare what
-- becomes the same.
theorem parse_of_common {tokens : List Located} (parsed : SourceFile.parse source = .ok file)
    (tokenized : tokenize source = .ok stream) (tokenizedOther : tokenize other = .ok streamOther)
    (first : Redocumented change stream.tokens tokens)
    (second : Redocumented change streamOther.tokens tokens) :
    ∃ fileOther, SourceFile.parse other = .ok fileOther ∧
      fileOther.redocument change = file.redocument change := by
  have here := toOption_interfacesAfter first [] 0
  have there := toOption_interfacesAfter second [] 0
  rw [toOption_of_parse parsed tokenized] at here
  obtain ⟨interfaces, read, same⟩ := Option.map_eq_some_iff.mp (there.symm.trans here)
  exact ⟨⟨interfaces⟩, parse_of_tokens tokenizedOther read, congrArg SourceFile.mk same⟩

end Sources

section Declarations
variable (change : String → String)

theorem literal?_redocument (type : TypeExpr) :
    literal? (type.redocument change) = literal? type := by
  cases type <;> rfl

theorem requiredNames_redocument (members : List Member) :
    requiredNames (members.map (Property.redocument change)) = requiredNames members := by
  simp [requiredNames, List.filter_map, Property.redocument, Function.comp_def]

theorem mapM_literal?_redocument (types : List TypeExpr) :
    (types.map (TypeExpr.redocument change)).mapM literal? = types.mapM literal? := by
  induction types with
  | nil => rfl
  | cons type rest ih => simp [ih, literal?_redocument]

theorem interface?_redocument (file : SourceFile) (root : String) :
    (file.redocument change).interface? root =
      (file.interface? root).map (Interface.redocument change) := by
  rw [SourceFile.interface?, SourceFile.interface?, SourceFile.redocument, ← List.map_reverse,
    List.find?_map]
  rfl

theorem compile_eq_ok_iff {source root : String} {artifact : Json} :
    compile source root = .ok artifact ↔ ∃ file declared, SourceFile.parse source = .ok file ∧
      file.interface? root = some declared ∧ declared.schema = artifact := by
  unfold compile
  constructor
  · intro compiled
    split at compiled
    · contradiction
    next file parsed =>
    split at compiled
    · next declared found =>
        cases compiled
        exact ⟨file, declared, parsed, found, rfl⟩
    · contradiction
  · rintro ⟨file, declared, parsed, found, rfl⟩
    simp only [parsed, found]

theorem size_of_compile {source root : String} {artifact : Json}
    (compiled : compile source root = .ok artifact) : source.utf8ByteSize ≤ maximumSourceSize := by
  obtain ⟨file, declared, parsed, -⟩ := compile_eq_ok_iff.mp compiled
  obtain ⟨stream, tokenized, -⟩ := interfaces_of_parse parsed
  unfold tokenize at tokenized
  split at tokenized
  · contradiction
  · next size => exact Nat.not_lt.mp size

end Declarations

end Toggles.Declaration
