import RubySyntax.Text.Span
import RubySyntax.Token.Kind
import RubySyntax.Token.Spacing

namespace RubySyntax

/-- A token. Its text is the source under its span; a delimited literal's span
leaves the delimiters out, a label's text its colon, and a heredoc's text is
its body. -/
structure Token where
  kind : Token.Kind
  text : String
  span : Text.Span
  spacing : Token.Spacing := .unspaced
  /-- The option letters after a regular expression. -/
  suffix : String := ""
deriving DecidableEq, Repr

namespace Token

def isTerminal (token : Token) : Bool := token.kind.isTerminal

/-- How a message names the token. -/
def display (token : Token) : String :=
  match token.kind with
  | .endOfFile => "end of input"
  | .newLine => "newline"
  | kind => kind.spelling?.getD token.text

end Token

end RubySyntax
