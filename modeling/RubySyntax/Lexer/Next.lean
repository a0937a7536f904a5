import RubySyntax.Lexer.Trivia

/-! Tokens one after the other. The last one is the end of the input, or the
token of unknown kind that stands for a lexical fault. -/
namespace RubySyntax.Lexer

/-- Reads the token at the cursor, or the end of the input. -/
def readToken (lexer : Lexer) : Token × Lexer :=
  match Lexeme.read lexer.context lexer.scanner.offset lexer.pending lexer.scanner.ahead with
  | .ok (lexeme, pending) => { lexer with pending }.cut lexeme
  | .error fault => lexer.fail fault

/-- The next token; none once the terminal token has been read. -/
def next (lexer : Lexer) : Option Token × Lexer :=
  if lexer.halted then (none, lexer)
  else
    match lexer.skipTrivia false with
    | (some newLine, lexer) =>
      let (token, lexer) := lexer.finish newLine
      (some token, lexer)
    | (none, lexer) =>
      let (token, lexer) := lexer.readToken
      let (token, lexer) := lexer.finish token
      (some token, lexer)

/-- At most `count` tokens, and the state after them. -/
def take : Nat → Lexer → List Token × Lexer
  | 0, lexer => ([], lexer)
  | count + 1, lexer =>
    match lexer.next with
    | (none, lexer) => ([], lexer)
    | (some token, lexer) =>
      let (tokens, lexer) := take count lexer
      (token :: tokens, lexer)

/-- All tokens up to the terminal one. Each of the others takes at least one
character. -/
def toEnd (lexer : Lexer) : List Token × Lexer := lexer.take (lexer.scanner.ahead.length + 1)

end RubySyntax.Lexer

namespace RubySyntax

/-- The tokens of a source, the terminal one included, and the fault that ended
them early, if one did. -/
def scan (source : String) : List Token × Option Diagnostic.Report :=
  let (tokens, lexer) := (Lexer.ofSource source).toEnd
  (tokens, lexer.report)

/-- The tokens of a source without a lexical fault. -/
def tokenize (source : String) : Except Diagnostic.Report (List Token) :=
  match scan source with
  | (_, some report) => .error report
  | (tokens, none) => .ok tokens

end RubySyntax
