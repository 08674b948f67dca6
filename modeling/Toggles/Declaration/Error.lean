/-! Why a declaration source is refused. Positions are byte offsets. -/

set_option autoImplicit false

namespace Toggles.Declaration

inductive SourceError where
  | inputTooLarge (maximum actual : Nat)
  | unterminatedComment (position : Nat)
  | unterminatedString (position : Nat)
  | unexpectedToken (expected found : String) (position : Nat)
  | invalidNumber (raw : String) (position : Nat)
  | nestingTooDeep (maximum actual position : Nat)
  deriving DecidableEq, Repr

def SourceError.message : SourceError → String
  | .inputTooLarge maximum actual =>
      "typed source exceeds size limit: " ++ toString actual ++ " bytes (max " ++
        toString maximum ++ ")"
  | .unterminatedComment position => "unterminated comment starting at " ++ toString position
  | .unterminatedString position =>
      "unterminated string literal starting at " ++ toString position
  | .unexpectedToken expected found position =>
      "unexpected token `" ++ found ++ "` at " ++ toString position ++ ", expected " ++ expected
  | .invalidNumber raw position => "invalid number `" ++ raw ++ "` at " ++ toString position
  | .nestingTooDeep maximum actual position =>
      "type nesting exceeds limit: depth " ++ toString actual ++ " (max " ++ toString maximum ++
        ") at " ++ toString position

end Toggles.Declaration
