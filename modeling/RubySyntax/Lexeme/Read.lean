import RubySyntax.Lexeme.Heredoc
import RubySyntax.Lexeme.Literal
import RubySyntax.Lexeme.Number
import RubySyntax.Lexeme.Symbol

/-! The choice of a reading: the first character decides, together with what
came before the token where one character can begin several kinds of token. -/
namespace RubySyntax.Lexeme

open Text

/-- An operator or other punctuation, the longest that fits. -/
def operator (input : List Char) : Reading :=
  if input.head? == some ';' then .ok { kind := .semicolon, body := [';'] }
  else
    match Token.Punct.read? input with
    | some p => .ok { kind := .punct p, body := p.spelling.toList }
    | none =>
      let body := input.take 1
      .error { body, message := .unexpectedCharacter, args := [String.ofList body] }

/-- The token at the front of an input that begins with `c` and opens no heredoc. -/
def readFrom (context : Context) (c : Char) (input : List Char) : Reading :=
  if isDigit c then .ok (number input)
  else if c = '\'' then quoted .string c input
  else if c = '"' then quoted .template c input
  else if c = '`' && !context.namesMethod then quoted .subshell c input
  else if c = '@' || c = '$' then sigilVariable input
  else if symbolFollows context input then symbol input
  else if c = '?' && !context.namesMethod && characterFollows context input then character input
  else if c = '%' && !context.namesMethod && percentFollows context input then percent input
  else if c = '/' && !context.namesMethod && context.startsOperand input then regex input
  else if isIdentifierStart c then .ok (name context input)
  else operator input

/-- The token at the front of the input, which begins at `offset`, and the body
that is read ahead for it. -/
def read (context : Context) (offset : Nat) (pending : Option Pending) (input : List Char) :
    Except Fault (Lexeme × Option Pending) :=
  if !context.namesMethod && heredocFollows context input then
    (heredoc offset pending input).map fun (lexeme, pending) => (lexeme, some pending)
  else
    match input with
    | [] => .ok ({ kind := .endOfFile, body := [] }, pending)
    | c :: _ => (readFrom context c input).map fun lexeme => (lexeme, pending)

end RubySyntax.Lexeme
