import RubySyntax.Diagnostic.Message
import RubySyntax.Text.CharClass
import RubySyntax.Token.Kind

namespace RubySyntax

open Text (isSpace)

/-- The characters of one token, in the order in which they stand in the input.
Only the body lies under the token's span. -/
structure Lexeme where
  kind : Token.Kind
  /-- A delimiter in front of the span. -/
  opening : List Char := []
  body : List Char
  /-- A delimiter behind the span. -/
  closing : List Char := []
  /-- Option letters behind the closing delimiter. -/
  options : List Char := []
  /-- The text of the token. -/
  text : List Char := body
deriving DecidableEq, Repr

namespace Lexeme

def chars (lexeme : Lexeme) : List Char :=
  lexeme.opening ++ lexeme.body ++ lexeme.closing ++ lexeme.options

/-- A reading that fails at `body`, after characters that are left out of the
span of the fault. -/
structure Fault where
  opening : List Char := []
  body : List Char
  message : Diagnostic.Message
  args : List String := []

abbrev Reading := Except Fault Lexeme

/-- What came before the token. -/
structure Context where
  /-- The kind of the previous token. -/
  last : Option Token.Kind
  /-- Whether white space stands between the previous token and this one. -/
  spaced : Bool
deriving DecidableEq, Repr

namespace Context

/-- The previous token leaves an operand to come. -/
def expectsOperand (context : Context) : Bool := context.last.all fun kind => !kind.endsValue

/-- An identifier, white space, then a character glued to what follows it: the
identifier is a method and an argument begins. -/
def isCommandArgument (context : Context) (input : List Char) : Bool :=
  context.last == some .identifier && context.spaced && input[1]?.any fun c => !isSpace c

def startsOperand (context : Context) (input : List Char) : Bool :=
  context.expectsOperand || context.isCommandArgument input

/-- After `def` and after a dot an operator character is a method name. -/
def namesMethod (context : Context) : Bool :=
  context.last == some (.keyword .defKw) || context.last == some (.punct .dot) ||
    context.last == some (.punct .safeDot)

/-- After a dot a reserved word is a method name. -/
def isAfterDot (context : Context) : Bool :=
  context.last == some (.punct .dot) || context.last == some (.punct .safeDot)

/-- A value ends directly before the character. -/
def isGluedToValue (context : Context) : Bool :=
  context.last.any (fun kind => kind.endsValue) && !context.spaced

end Context

end Lexeme

end RubySyntax
