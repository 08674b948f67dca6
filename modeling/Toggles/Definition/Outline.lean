import Toggles.Declaration.Lexeme
import Toggles.Definition.Schema

/-! A declaration of the version type with its features at the top level. -/

set_option autoImplicit false

namespace Toggles.Definition

open Declaration (isWordStart isWordPart)
open Json (Members)

/-- A name that can stand without quotation marks. -/
def isWord : List Char → Bool
  | [] => false
  | first :: rest => isWordStart first && rest.all isWordPart

def propertyKey (name : String) : String :=
  if isWord name.toList then name else (Json.str name).compact

def titleOf (name : String) (schema : Json) : String :=
  ((schema.member? "title").bind Json.asString?).getD name

def featureLines (entry : String × Json) : List String :=
  ["    // " ++ titleOf entry.1 entry.2,
    "    " ++ propertyKey entry.1 ++ ": \x7b",
    "      // Whether the feature is enabled",
    "      enabled: boolean;",
    "    \x7d;"]

def featureSchemasOf (schema : Json) : Members :=
  ((do (← (← schema.member? "properties").member? "features").member? "properties").bind
    Json.asObject?).getD []

def typeDefinitionLines (schema : Json) : List String :=
  ["export type IVersion = \x7b",
    "  // Version name",
    "  name: string;",
    "  // Version description",
    "  description?: string;",
    "  // Feature list",
    "  features: \x7b"] ++ (featureSchemasOf schema).flatMap featureLines ++ ["  \x7d;", "\x7d;"]

def typeDefinitions (schema : Json) : String :=
  String.join ((typeDefinitionLines schema).map (· ++ "\n"))

end Toggles.Definition
