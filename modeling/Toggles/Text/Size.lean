/-! The size of a text in bytes of UTF-8. -/

set_option autoImplicit false

namespace Toggles.Text

def utf8Size (text : List Char) : Nat :=
  text.foldl (fun size c => size + c.utf8Size) 0

end Toggles.Text
