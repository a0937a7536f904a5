import RubySyntax.Lexeme.Basic

namespace RubySyntax.Lexeme

open Text

/-- The mark that ends the name of a predicate or of a destructive method; in
`a!=b` the two characters are an operator. -/
def nameMark : List Char → List Char
  | mark :: rest =>
    if (mark = '?' || mark = '!') && rest.head? != some '=' then [mark] else []
  | [] => []

/-- Whether a single colon follows, as behind a key. -/
def colonFollows (input : List Char) : Bool :=
  input.head? == some ':' && input[1]? != some ':'

/-- The characters of a name, its mark included; the name of a constant has none. -/
def nameText (input : List Char) : List Char :=
  let stem := input.takeWhile isIdentifierPart
  if input.head?.any isConstantStart then stem else stem ++ nameMark (input.drop stem.length)

/-- What a name that is no label stands for. -/
def nameKind (context : Context) (text : List Char) : Token.Kind :=
  match if context.isAfterDot then none else Token.Keyword.ofSpelling? (String.ofList text) with
  | some keyword => .keyword keyword
  | none => if text.head?.any isConstantStart then .constant else .identifier

/-- A name, whose first character is known to begin one. After the question
mark of a conditional a colon does not make it a label. -/
def name (context : Context) (input : List Char) : Lexeme :=
  let text := nameText input
  if colonFollows (input.drop text.length) && context.last != some (.punct .question) then
    { kind := .label, body := text ++ [':'], text }
  else { kind := nameKind context text, body := text }

/-- The name of a global variable without its sigil: an ordinary name or one of
the special characters. -/
def globalName (input : List Char) : List Char :=
  let ordinary := input.takeWhile isIdentifierPart
  if ordinary.isEmpty then (input.take 1).filter fun c => specialGlobals.contains c else ordinary

/-- A global variable after its sigil, with `before` dropped in front of it. -/
def globalVariable (kind : Token.Kind) (before : List Char) (input : List Char) : Reading :=
  let name := globalName input
  if name.isEmpty then
    .error { opening := before, body := ['$'], message := .invalidGlobalName }
  else .ok { kind, opening := before, body := '$' :: name }

/-- One at sign for the variables of an instance, two for those of a class. -/
def atSigns (input : List Char) : List Char :=
  if input[1]? == some '@' then ['@', '@'] else ['@']

/-- A variable behind its sigil. -/
def sigilVariable (input : List Char) : Reading :=
  if input.head? == some '$' then globalVariable .globalVariable [] (input.drop 1)
  else
    let sigil := atSigns input
    let rest := input.drop sigil.length
    if rest.head?.any isIdentifierStart then
      .ok { kind := if sigil.length == 2 then .classVariable else .instanceVariable
            body := sigil ++ rest.takeWhile isIdentifierPart }
    else
      .error { body := sigil, message := .invalidVariableName, args := [String.ofList sigil] }

end RubySyntax.Lexeme
