import RubySyntax.Grammar.Call

namespace RubySyntax.Grammar.Parser

open RubySyntax.Tree (Node Payload RescueClause SwitchCase)
open Token (Kind Keyword)

def bodyEnd : List Kind := [.keyword .endKw]

def branchEnd : List Kind := [.keyword .elsifKw, .keyword .elseKw, .keyword .endKw]

def caseEnd : List Kind := [.keyword .whenKw, .keyword .elseKw, .keyword .endKw]

def guardedEnd : List Kind :=
  [.keyword .rescueKw, .keyword .elseKw, .keyword .ensureKw, .keyword .endKw]

/-- The condition of a construct, up to the word that may close it; a `do`
belongs to the construct. -/
def condition (nest : Nest) (closing : Keyword) : Parser Node := do
  let condition ← withNoDo true (nest .expression)
  discard (eat closing)
  return condition

/-- The body behind `else`, empty where there is none. -/
def elseBody (nest : Nest) : Parser (List Node) := do
  if ← eat Keyword.elseKw then statements nest bodyEnd else return []

/-- The last branch of a conditional that has several. -/
def always (body : List Node) : Node := .conditional (.boolean true) body []

/-- The branches behind the first. Where there are any, the last one is taken
always; it is empty unless an `else` gives it a body. -/
def otherBranches (nest : Nest) : Parser (List Node) := do
  let branches ← list do
    unless ← eat Keyword.elsifKw do return .stop
    let condition ← condition nest .thenKw
    return .more (Node.conditional condition (← statements nest branchEnd) [])
  if ← eat Keyword.elseKw then return branches ++ [always (← statements nest bodyEnd)]
  return if branches.isEmpty then [] else branches ++ [always []]

def conditional (nest : Nest) : Parser Node := do
  let negated := (← advance).kind == .keyword .unlessKw
  let condition ← condition nest .thenKw
  let body ← statements nest branchEnd
  let otherwise ← otherBranches nest
  discard (expect Keyword.endKw)
  return .conditional (guarding negated condition) body otherwise

def loop (nest : Nest) : Parser Node := do
  let negated := (← advance).kind == .keyword .untilKw
  let condition ← condition nest .doKw
  let body ← statements nest bodyEnd
  discard (expect Keyword.endKw)
  return .loop (guarding negated condition) body

def switchCase (nest : Nest) : Parser (SwitchCase Node) := do
  let conditions ← commaSeparated (splatOrExpression nest)
  discard (eat Keyword.thenKw)
  return ⟨conditions, ← statements nest caseEnd⟩

def switch (nest : Nest) : Parser Node := do
  discard advance
  let subject? ← if (← kind).isSeparator then pure none else some <$> nest .expression
  skipSeparators
  let cases ← list do
    if ← eat Keyword.whenKw then return .more (← switchCase nest)
    return .stop
  let otherwise ← elseBody nest
  discard (expect Keyword.endKw)
  return .switch subject? cases otherwise

/-- The classes of a rescue clause, none of which means any. -/
def rescueClasses : Parser (List Tree.ConstantPath) := do
  if ← atConstantPath then return ← commaSeparated constantPath
  let kind ← kind
  unless kind == .punct .hashArrow || kind == .keyword .thenKw || kind.isSeparator do
    failAt .exceptionClassExpected
  return []

def rescueVariable : Parser (Option String) := do
  unless ← eat Token.Punct.hashArrow do return none
  unless ← isAt .identifier do fail .expectedButFound ["variable name", (← current).display]
  return some (← advance).text

/-- The rescue clauses behind a body, each with its own. -/
def rescueClauses (nest : Nest) : Parser (List (RescueClause Node)) :=
  list do
    unless ← eat Keyword.rescueKw do return .stop
    let classes ← rescueClasses
    let binding? ← rescueVariable
    discard (eat Keyword.thenKw)
    return .more ⟨classes, binding?, ← statements nest guardedEnd⟩

def guarded (nest : Nest) : Parser Node := do
  discard advance
  let body ← statements nest guardedEnd
  let rescues ← rescueClauses nest
  let otherwise ← elseBody nest
  discard (expect Keyword.endKw)
  return .guarded body rescues otherwise

/-- Kinds of token that begin the value of `return` or `yield`. The modifiers of
a statement never do. -/
def startsValue : Kind → Bool
  | .literal _ | .identifier | .constant | .instanceVariable | .classVariable | .globalVariable
  | .label => true
  | .punct p =>
    [.openParen, .openBracket, .openBrace, .scope, .lambdaArrow, .bang, .tilde, .plus, .minus,
     .asterisk].contains p
  | .keyword k =>
    [.nilKw, .trueKw, .falseKw, .selfKw, .fileKw, .lineKw, .notKw, .beginKw, .caseKw,
     .defKw].contains k
  | _ => false

def jump (node : Node) : Parser Node := do
  let keyword ← advance
  if startsValue (← kind) then fail .takesNoValue [keyword.text]
  return node

def jumpValues (nest : Nest) : Parser (List Node) := do
  if startsValue (← kind) then commaSeparated (splatOrExpression nest) else return []

def handBack (nest : Nest) : Parser Node := do
  discard advance
  return .handBack (Payload.ofList? (← jumpValues nest))

def handOver (nest : Nest) : Parser Node := do
  discard advance
  let values ←
    if ← eatGlued Token.Punct.openParen then closedArguments nest .closeParen
    else jumpValues nest
  return .handOver (Payload.ofList? values)

end RubySyntax.Grammar.Parser
