/-! Tokens of declaration source. -/

set_option autoImplicit false

namespace Toggles.Declaration

inductive Mark where
  | openBrace
  | closeBrace
  | openParen
  | closeParen
  | openBracket
  | closeBracket
  | openAngle
  | closeAngle
  | colon
  | semicolon
  | comma
  | question
  | pipe
  | ampersand
  | equals
  | arrow
  | dot
  | ellipsis
  | minus
  deriving DecidableEq, Repr

def Mark.text : Mark → String
  | .openBrace => "\x7b"
  | .closeBrace => "\x7d"
  | .openParen => "("
  | .closeParen => ")"
  | .openBracket => "["
  | .closeBracket => "]"
  | .openAngle => "<"
  | .closeAngle => ">"
  | .colon => ":"
  | .semicolon => ";"
  | .comma => ","
  | .question => "?"
  | .pipe => "|"
  | .ampersand => "&"
  | .equals => "="
  | .arrow => "=>"
  | .dot => "."
  | .ellipsis => "..."
  | .minus => "-"

def Mark.ofChar? : Char → Option Mark
  | '{' => some .openBrace
  | '}' => some .closeBrace
  | '(' => some .openParen
  | ')' => some .closeParen
  | '[' => some .openBracket
  | ']' => some .closeBracket
  | '<' => some .openAngle
  | '>' => some .closeAngle
  | ':' => some .colon
  | ';' => some .semicolon
  | ',' => some .comma
  | '?' => some .question
  | '|' => some .pipe
  | '&' => some .ampersand
  | '=' => some .equals
  | '.' => some .dot
  | '-' => some .minus
  | _ => none

/-- A token. String literals are decoded; template literals and numbers are kept
as they are written. A symbol is a character that has no meaning here. -/
inductive Token where
  | word (name : String)
  | quoted (value : String)
  | template (raw : String)
  | number (raw : String)
  | mark (value : Mark)
  | symbol (value : Char)
  deriving DecidableEq, Repr

def Token.describe : Token → String
  | .word name => name
  | .quoted value => "\"" ++ value ++ "\""
  | .template raw => "`" ++ raw ++ "`"
  | .number raw => raw
  | .mark value => value.text
  | .symbol value => value.toString

def endOfInput : String :=
  "end of input"

/-- A token with its byte offset and the body of the last documentation comment
between it and the token before. -/
structure Located where
  token : Token
  position : Nat
  doc : Option String
  deriving DecidableEq, Repr

/-- The tokens of a source. What follows the last token is the end of the source,
which may have documentation of its own. -/
structure TokenStream where
  tokens : List Located
  stop : Nat
  trailingDoc : Option String
  deriving DecidableEq, Repr

end Toggles.Declaration
