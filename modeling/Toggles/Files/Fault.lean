/-! Why an operation on a file fails. -/

set_option autoImplicit false

namespace Toggles

inductive Fault where
  | missing
  | present
  | notFolder
  | isFolder
  | nameTooLong
  | nulByte
  | other (text : String)
  deriving DecidableEq, Repr

def Fault.message : Fault → String
  | .missing => "No such file or directory (os error 2)"
  | .present => "File exists (os error 17)"
  | .notFolder => "Not a directory (os error 20)"
  | .isFolder => "Is a directory (os error 21)"
  | .nameTooLong => "File name too long (os error 36)"
  | .nulByte => "file name contained an unexpected NUL byte"
  | .other text => text

end Toggles
