import RubySyntax.Grammar.Level
import RubySyntax.Number.Decimal
import RubySyntax.Text.Trim

namespace RubySyntax.Grammar.Parser

open RubySyntax.Tree (Node)

/-- A node that stands for the current token alone. -/
def leaf (node : Node) : Parser Node := do
  discard advance
  return node

/-- An integer within the range of its type. -/
def integer : Parser Node := do
  let token ← current
  match Number.integerOf token.text.toList with
  | .ok value => leaf (.integer value)
  | .error .tooLarge => fail .integerTooLarge [token.text]
  | .error .malformed => fail .invalidNumber [token.text]

def float : Parser Node := do
  let token ← current
  match Number.floatOf? token.text.toList with
  | some value => leaf (.float value)
  | none => fail .invalidNumber [token.text]

def wordList (text : String) : Node :=
  .array ((Text.words text.toList).map fun word => .string (String.ofList word))

def literal (kind : Token.LiteralKind) : Parser Node := do
  match kind with
  | .integer => integer
  | .float => float
  | .string => return .string (← advance).text
  | .template => return .template (← advance).text
  | .symbol => return .symbol (← advance).text
  | .subshell => return .subshell (← advance).text
  | .character =>
    match (← current).text.toList with
    | c :: _ => leaf (.character c)
    | [] => unexpected
  | .regex =>
    let token ← advance
    return .regex token.text token.suffix
  | .wordList => return wordList (← advance).text

def withoutSigil (sigil : Char) (text : String) : String :=
  String.ofList (text.toList.dropWhile (· == sigil))

end RubySyntax.Grammar.Parser
