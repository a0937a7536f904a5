import RubySyntax.Lexeme.Delimited

namespace RubySyntax.Lexeme

open Text

/-- A quoted text, whose quote is the first character of the input. -/
def quoted (kind : Token.LiteralKind) (quote : Char) (input : List Char) : Reading :=
  let message := if quote = '`' then .unterminatedSubshell else .unterminatedString
  literal kind [quote] (.quoted quote) message [] (input.drop 1)

def regex (input : List Char) : Reading :=
  (literal .regex ['/'] (.regex false) .unterminatedRegex [] (input.drop 1)).map (withOptions input)

/-- What the letter after a percent sign makes of the literal, and whether it
has interpolated regions. Without a letter it is a template. -/
def percentKind : Option Char → Option (Token.LiteralKind × Bool)
  | none | some 'Q' => some (.template, true)
  | some 'q' => some (.string, false)
  | some 'w' => some (.wordList, false)
  | some 'W' => some (.wordList, true)
  | some 'r' => some (.regex, true)
  | some 'x' => some (.subshell, true)
  | some _ => none

/-- Whether a percent sign begins a literal: a bracket follows, or a letter and
a delimiter. -/
def percentFollows (context : Context) (input : List Char) : Bool :=
  context.startsOperand input &&
    match input[1]?, input[2]? with
    | some c, after =>
      ['(', '[', '{', '<'].contains c ||
        (c.isAlpha && after.any fun opener => (closingDelimiter opener).isSome)
    | none, _ => false

def percentLetter (input : List Char) : Option Char := input[1]?.filter Char.isAlpha

def percent (input : List Char) : Reading :=
  let letter := percentLetter input
  let opening := '%' :: letter.toList
  let unknown : Fault :=
    { body := opening, message := .unknownPercentLiteral, args := [String.ofList letter.toList] }
  match percentKind letter with
  | none => .error unknown
  | some (kind, interpolates) =>
    match input.drop opening.length with
    | [] => .error unknown
    | opener :: rest =>
      match closingDelimiter opener with
      | none => .error { unknown with body := opening ++ [opener] }
      | some closer =>
        let nested := if opener = closer then none else some opener
        let reading :=
          literal kind (opening ++ [opener]) (.body nested closer interpolates 0)
            .unterminatedPercentLiteral [String.ofList [closer]] rest
        if kind = .regex then reading.map (withOptions input) else reading

/-- Whether a question mark begins a single character: a visible one, and not
the beginning of a name. -/
def characterFollows (context : Context) (input : List Char) : Bool :=
  context.startsOperand input &&
    input[1]?.any fun c =>
      isPrintable c && !(isIdentifierPart c && input[2]?.any isIdentifierPart)

def character (input : List Char) : Reading :=
  let body := (input.drop 1).take 1
  if body.any isPrintable then .ok { kind := .literal .character, opening := ['?'], body }
  else .error { opening := ['?'], body, message := .invalidCharacterLiteral }

end RubySyntax.Lexeme
