import RubySyntax.Grammar.Level
import RubySyntax.Grammar.Target

namespace RubySyntax.Grammar.Parser

open RubySyntax.Tree (Node)
open Token (Kind Punct Keyword)

/-- A condition, turned around for `unless` and `until`. -/
def guarding (negated : Bool) (condition : Node) : Node :=
  if negated then .unary .negation condition else condition

/-- A target of a list, taken only if a list accepts it. -/
def acceptTarget (node : Node) : Parser Node := do
  unless isListTarget node do fail .cannotAssign [node.describe]
  return listTarget node

def target (nest : Nest) : Parser Node := do
  if ← eat Punct.asterisk then acceptTarget (.splat (← nest .postfixed))
  else acceptTarget (← nest .postfixed)

/-- An assignment to a list of targets, the first of which has been read. -/
def multipleAssignment (nest : Nest) (first : Node) : Parser Node := do
  let first ← acceptTarget first
  let targets ← commaFollowed (target nest)
  unless ← eat Punct.assign do fail .multipleAssignmentWithoutEquals
  skipNewLines
  let value ← splatOrExpression nest
  let values ← commaFollowed (splatOrExpression nest)
  return .assignment (.array (first :: targets))
    (if values.isEmpty then value else .array (value :: values))

/-- A statement without its modifiers. -/
def plainStatement (nest : Nest) : Parser Node := do
  if ← eat Punct.asterisk then
    let target := Node.splat (← nest .postfixed)
    if (← isAt Punct.comma) || (← isAt Punct.assign) then
      return ← multipleAssignment nest target
    return target
  let expression ← nest .expression
  if (← isAt Punct.comma) && isListTarget expression then
    return ← multipleAssignment nest expression
  return expression

def modifier (nest : Nest) (statement : Node) : Parser (Option Node) := do
  match ← kind with
  | .keyword .ifKw | .keyword .unlessKw =>
    let negated := (← advance).kind == .keyword .unlessKw
    return some (.conditional (guarding negated (← nest .expression)) [statement] [])
  | .keyword .whileKw | .keyword .untilKw =>
    let negated := (← advance).kind == .keyword .untilKw
    return some (.loop (guarding negated (← nest .expression)) [statement])
  | .keyword .rescueKw =>
    discard advance
    return some (.rescueModifier statement (← nest .expression))
  | _ => return none

def statement (nest : Nest) : Parser Node := do
  chain (modifier nest) (← plainStatement nest)

/-- Statements up to the end of the input or a token of one of the kinds `ends`,
which is left for the construct around them. -/
def statements (nest : Nest) (ends : List Kind) : Parser (List Node) :=
  list do
    skipSeparators
    if (← kind) == .endOfFile || ends.contains (← kind) then return .stop
    let node ← statement nest
    let kind ← kind
    if kind.isSeparator then return .more node
    if kind == .endOfFile || ends.contains kind then return .last node
    unexpected

end RubySyntax.Grammar.Parser
