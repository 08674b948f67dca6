/-! Cutting a text at a separator. -/

set_option autoImplicit false

namespace Toggles.Text

/-- The parts between the occurrences of a character; there is always one more
than there are occurrences. -/
def splitAt (separator : Char) : List Char → List (List Char)
  | [] => [[]]
  | c :: rest =>
      match splitAt separator rest with
      | [] => [[c]]
      | part :: parts => if c = separator then [] :: part :: parts else (c :: part) :: parts

end Toggles.Text
