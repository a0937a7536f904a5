import RubySyntax.Lexeme.Delimited
import RubySyntax.Lexeme.Name

namespace RubySyntax.Lexeme

open Text

/-- Operators that name a method, each before its own beginnings. -/
def operatorSymbols : List (List Char) :=
  ["[]=", "<=>", "===", "[]", "==", "=~", "!=", "!~", "**", "+@", "-@", "<<", ">>", "<=", ">=",
   "!", "+", "-", "*", "/", "%", "<", ">", "&", "|", "^", "~"].map String.toList

/-- Where an operator symbol may end: before white space, a comma, a closing
bracket, a semicolon, or at the end of the input. -/
def endsOperatorSymbol (input : List Char) : Bool :=
  input.head?.all fun c => isSpace c || [',', ')', ']', '}', ';'].contains c

/-- Whether a colon begins a symbol. Behind a value that it touches it belongs
to a conditional or to a pair. -/
def symbolFollows (context : Context) (input : List Char) : Bool :=
  match input with
  | ':' :: c :: rest =>
    if c = ':' || context.isGluedToValue then false
    else if c = '"' || c = '\'' || c = '@' || c = '$' || isIdentifierStart c then true
    else
      operatorSymbols.any fun operator =>
        operator.isPrefixOf (c :: rest) && endsOperatorSymbol ((c :: rest).drop operator.length)
  | _ => false

/-- A name of a symbol, whose marks may stand anywhere in it; an equals sign
ends the name of a setter unless it begins an operator. -/
def symbolName (input : List Char) : List Char :=
  let stem := input.takeWhile fun c => isIdentifierPart c || c == '!' || c == '?'
  match input.drop stem.length with
  | '=' :: rest =>
    if rest.head?.any fun c => c == '=' || c == '~' || c == '>' then stem else stem ++ ['=']
  | _ => stem

/-- A symbol, whose colon is the first character of the input. -/
def symbol (input : List Char) : Reading :=
  let rest := input.drop 1
  match rest with
  | [] => .ok { kind := .literal .symbol, opening := [':'], body := [] }
  | c :: tail =>
    if c = '"' || c = '\'' then
      literal .symbol [':', c] (.quoted c) .unterminatedSymbol [] tail
    else if c = '@' then
      let sigil := atSigns rest
      let name := (rest.drop sigil.length).takeWhile isIdentifierPart
      if name.isEmpty then
        .error { opening := [':'], body := sigil, message := .invalidVariableName
                 args := [String.ofList sigil] }
      else .ok { kind := .literal .symbol, opening := [':'], body := sigil ++ name }
    else if c = '$' then globalVariable (.literal .symbol) [':'] tail
    else if isIdentifierStart c then
      .ok { kind := .literal .symbol, opening := [':'], body := symbolName rest }
    else
      let operator := operatorSymbols.find? fun operator => operator.isPrefixOf rest
      .ok { kind := .literal .symbol, opening := [':'], body := operator.getD [] }

end RubySyntax.Lexeme
