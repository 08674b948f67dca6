import Toggles.Json.Basic

/-! Interface declarations.

The tree covers what a feature definition needs. A type that is accepted but has
no counterpart in a schema is uninterpreted.
-/

set_option autoImplicit false

namespace Toggles.Declaration

open Numeric (Binary64)

inductive Keyword where
  | string
  | number
  | boolean
  | null
  | object
  | any
  deriving DecidableEq, Repr

namespace Keyword

def name : Keyword → String
  | .string => "string"
  | .number => "number"
  | .boolean => "boolean"
  | .null => "null"
  | .object => "object"
  | .any => "any"

/-- The words that stand for any value. -/
def wildcards : List String :=
  ["any", "unknown", "never", "void", "undefined", "bigint", "symbol"]

def ofWord? (word : String) : Option Keyword :=
  if word ∈ wildcards then some .any
  else [string, number, boolean, null, object].find? fun keyword => keyword.name = word

end Keyword

/-- A type with a single value. -/
inductive Literal where
  | string (value : String)
  | integer (value : Int)
  | decimal (value : Binary64)
  | boolean (value : Bool)
  deriving DecidableEq, Repr

namespace Literal

def primitive : Literal → String
  | .string _ => "string"
  | .integer _ | .decimal _ => "number"
  | .boolean _ => "boolean"

def toJson : Literal → Json
  | .string value => .str value
  | .integer value => .int value
  | .decimal value => .float value
  | .boolean value => .bool value

end Literal

structure Property (Kind : Type) where
  name : String
  optional : Bool
  doc : Option String
  type : Kind
  deriving DecidableEq, Repr

inductive TypeExpr where
  | keyword (value : Keyword)
  | literal (value : Literal)
  | array (item : TypeExpr)
  | union (members : List TypeExpr)
  | object (members : List (Property TypeExpr))
  | reference (name : String) (arguments : List TypeExpr)
  | tuple (items : List TypeExpr)
  | uninterpreted
  deriving Repr, Inhabited

abbrev Member := Property TypeExpr

structure Interface where
  name : String
  members : List Member
  deriving Repr

structure SourceFile where
  interfaces : List Interface
  deriving Repr

/-- The interface of a name. Where a name is declared again the last declaration
counts. -/
def SourceFile.interface? (file : SourceFile) (name : String) : Option Interface :=
  file.interfaces.reverse.find? fun declared => declared.name = name

end Toggles.Declaration
