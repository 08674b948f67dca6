/-! Lines of a text.

A line ends at a line feed, and a carriage return before it belongs to the ending.
A text that ends with a line feed has no empty line after it.
-/

set_option autoImplicit false

namespace Toggles.Text

def dropReturn (reversed : List Char) : List Char :=
  match reversed with
  | '\r' :: rest => rest.reverse
  | _ => reversed.reverse

def linesAfter (reversed : List Char) : List Char → List (List Char)
  | [] => if reversed.isEmpty then [] else [reversed.reverse]
  | c :: rest =>
      if c = '\n' then dropReturn reversed :: linesAfter [] rest
      else linesAfter (c :: reversed) rest

def lines (text : List Char) : List (List Char) :=
  linesAfter [] text

def joinLines : List (List Char) → List Char
  | [] => []
  | [line] => line
  | line :: rest => line ++ '\n' :: joinLines rest

end Toggles.Text
