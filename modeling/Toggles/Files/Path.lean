import Toggles.Text.Size
import Toggles.Text.Split

/-! Paths of files and folders, with a slash between names.

A path is kept as it is written, because messages show it so. An empty name and a
single dot lead nowhere and are passed over.
-/

set_option autoImplicit false

namespace Toggles

structure Path where
  text : String
  deriving DecidableEq, Repr, Inhabited

namespace Path

def isEmpty (path : Path) : Bool :=
  path.text.isEmpty

def isAbsolute (path : Path) : Bool :=
  path.text.toList.head? == some '/'

/-- A slash at the end says that a folder is meant. -/
def endsWithSlash (path : Path) : Bool :=
  path.text.toList.getLast? == some '/'

def parts (path : Path) : List String :=
  (Text.splitAt '/' path.text.toList).map String.ofList

/-- Names that lead nowhere. -/
def isIdle (part : String) : Bool :=
  part == "" || part == "."

/-- Drop idle parts from the end, but never the first part. -/
def dropIdleEnd : List String → List String
  | [] => []
  | first :: rest => first :: (rest.reverse.dropWhile isIdle).reverse

def ofParts (parts : List String) : Path :=
  ⟨String.intercalate "/" parts⟩

/-- The folder in which the path lies. A single name lies in the folder without a
name; the empty path and the root lie nowhere. -/
def parent? (path : Path) : Option Path :=
  match dropIdleEnd path.parts with
  | [] | [""] => none
  | [_] => some ⟨""⟩
  | parts =>
      match dropIdleEnd parts.dropLast with
      | [""] => some ⟨"/"⟩
      | parts => some (ofParts parts)

def enclosing (path : Path) : List Path :=
  let parts := path.parts
  let ends := (List.range parts.length).filter fun place => !isIdle (parts.getD place "")
  ends.reverse.map fun place => ofParts (parts.take (place + 1))

def join (folder : Path) (name : String) : Path :=
  if folder.isEmpty then ⟨name⟩
  else if folder.endsWithSlash then ⟨folder.text ++ name⟩
  else ⟨folder.text ++ "/" ++ name⟩

end Path

/-- The name of a file or folder within its folder, in bytes. Most names are texts, but
they need not be. -/
abbrev FileName := List UInt8

namespace FileName

def ofText (text : String) : FileName :=
  text.toUTF8.data.toList

def text? (name : FileName) : Option String :=
  String.fromUTF8? ⟨name.toArray⟩

def dot : UInt8 := 0x2e

/-- A name cut at its last dot. A dot at the beginning does not count. -/
def splitExtension (name : FileName) : FileName × Option FileName :=
  match name.reverse.dropWhile (· != dot) with
  | [] | [_] => (name, none)
  | _ :: before => (before.reverse, some (name.reverse.takeWhile (· != dot)).reverse)

end FileName

end Toggles
