import RubySyntax.Grammar.Level

namespace RubySyntax.Grammar.Parser

open RubySyntax.Tree (Node HashPair)
open Token (Kind Punct)

inductive Argument
  | positional (value : Node)
  | keyed (pair : HashPair Node)

namespace Argument

def positional? : Argument → Option Node
  | positional value => some value
  | keyed _ => none

def keyed? : Argument → Option (HashPair Node)
  | positional _ => none
  | keyed pair => some pair

/-- The arguments that are passed: the positional ones, and a hash of the keyed
ones if there are any. -/
def passed (arguments : List Argument) : List Node :=
  let pairs := arguments.filterMap keyed?
  arguments.filterMap positional? ++ if pairs.isEmpty then [] else [.hash pairs]

end Argument

/-- The value of a key; it may stand on a line further down. -/
def keyedValue (nest : Nest) (key : Node) : Parser (HashPair Node) := do
  skipNewLines
  return ⟨key, ← nest .expression⟩

/-- One argument: a label and its value, a block passed on, or an expression
that may be the key of a pair. -/
def argument (nest : Nest) : Parser Argument := do
  match ← kind with
  | .label => return .keyed (← keyedValue nest (.symbol (← advance).text))
  | .punct .ampersand =>
    discard advance
    return .positional (.methodCall (← nest .ternary) "to_proc" [])
  | _ =>
    let value ← splatOrExpression nest
    if ← eat Punct.hashArrow then return .keyed (← keyedValue nest value)
    return .positional value

/-- Arguments without brackets, up to the last one that no comma follows. -/
def openArguments (nest : Nest) : Parser (List Node) :=
  Argument.passed <$> commaSeparated (argument nest)

/-- Arguments up to `close`, which is consumed; line breaks between them and a
comma behind the last one say nothing. -/
def closedArguments (nest : Nest) (close : Punct) : Parser (List Node) := do
  let arguments ← withNoDo false <| list do
    skipNewLines
    if ← isAt close then return .stop
    let argument ← argument nest
    skipNewLines
    if ← eatComma then return .more argument
    return .last argument
  discard (expect close)
  return Argument.passed arguments

end RubySyntax.Grammar.Parser
