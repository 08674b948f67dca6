import Toggles.Declaration.Source
import Toggles.Doc.TagValue

/-! Schemas of declared interfaces.

Each type has a schema of its shape, and the documentation of a property is added
to the schema of its type. An annotation that the shape has already given keeps
its place.
-/

set_option autoImplicit false

namespace Toggles.Declaration

open Json (Members)

def dialect : String := "http://json-schema.org/draft-07/schema#"

def defaultRoot : String := "IFeature"

def typed (kind : String) : Members :=
  [("type", .str kind)]

def keywordSchema : Keyword → Members
  | .any => []
  | keyword => typed keyword.name

/-- The schema of a choice between literals, typed by the first of them. -/
def literalSchema (first : Literal) (others : List Literal) : Members :=
  typed first.primitive ++ [("enum", .arr ((first :: others).map Literal.toJson))]

def arraySchema (items : Members) : Members :=
  typed "array" ++ [("items", .obj items)]

def objectSchema (properties : List (String × Json)) (required : List String) : Members :=
  typed "object" ++
    [("properties", .obj (Ordered.ofList properties)),
      ("required", .arr (required.eraseDups.map .str))]

def annotations (comment : Doc.Comment) : Members :=
  let descriptions := (comment.tagsNamed "enumDescription").map fun tag =>
    Json.str ((tag.text.map Doc.enumDescription).getD "")
  [comment.title.map fun title => ("title", .str title),
    comment.description.map fun description => ("description", .str description),
    (comment.tag? "default").map fun text => ("default", Doc.defaultValue text),
    ((comment.tag? "min").bind Doc.numberValue?).map fun minimum => ("minimum", minimum),
    ((comment.tag? "max").bind Doc.numberValue?).map fun maximum => ("maximum", maximum),
    (comment.tag? "enum").map fun text => ("enum", .arr (Doc.enumValues text)),
    if descriptions.isEmpty then none else some ("enumDescriptions", .arr descriptions)
  ].filterMap id

def annotate (schema : Members) (doc : Option String) : Members :=
  match doc with
  | none => schema
  | some body => Ordered.insertAll schema (annotations (.parse body))

def literal? : TypeExpr → Option Literal
  | .literal value => some value
  | _ => none

def requiredNames (members : List Member) : List String :=
  (members.filter fun member => !member.optional).map (·.name)

def isArrayName (name : String) : Bool :=
  name == "Array" || name == "ReadonlyArray"

mutual

def typeSchema : TypeExpr → Members
  | .keyword keyword => keywordSchema keyword
  | .literal literal => literalSchema literal []
  | .array item => arraySchema (typeSchema item)
  | .union members =>
      match members.mapM literal? with
      | some (first :: others) => literalSchema first others
      | _ => [("anyOf", .arr (typeSchemas members))]
  | .object members => objectSchema (propertySchemas members) (requiredNames members)
  | .reference name [item] =>
      if isArrayName name then arraySchema (typeSchema item) else typed "object"
  | .reference _ _ => typed "object"
  | .tuple _ | .uninterpreted => []

def typeSchemas : List TypeExpr → List Json
  | [] => []
  | type :: types => .obj (typeSchema type) :: typeSchemas types

def propertySchemas : List Member → List (String × Json)
  | [] => []
  | ⟨name, _, doc, type⟩ :: members =>
      (name, .obj (annotate (typeSchema type) doc)) :: propertySchemas members

end

def Interface.schema (declared : Interface) : Json :=
  .obj (("$schema", .str dialect) ::
    objectSchema (propertySchemas declared.members) (requiredNames declared.members) ++
      [("title", .str declared.name)])

inductive CompileError where
  | source (error : SourceError)
  | definitionNotFound (name : String)
  deriving DecidableEq, Repr

def CompileError.message : CompileError → String
  | .source error => error.message
  | .definitionNotFound name => name ++ " interface not found"

def compile (source root : String) : Except CompileError Json :=
  match SourceFile.parse source with
  | .error error => .error (.source error)
  | .ok file =>
      match file.interface? root with
      | some declared => .ok declared.schema
      | none => .error (.definitionNotFound root)

end Toggles.Declaration
