import RubySyntax.Grammar.Statement

namespace RubySyntax.Grammar.Parser

open RubySyntax.Tree (Node Block)
open Token (Kind Punct Keyword)

/-- A parameter: a name, a splat of one, or the block that is passed. -/
def blockParam : Parser Node := do
  let mark ← kind
  if mark == .punct .asterisk || mark == .punct .ampersand then discard advance
  unless ← isAt .identifier do failAt .parameterNameExpected
  let name := Node.reference (← advance).text
  match mark with
  | .punct .asterisk => return .splat name
  | .punct .ampersand => return .methodCall name "to_proc" []
  | _ => return name

/-- Parameters between bars; two bars at once hold none. -/
def blockParams : Parser (List Node) := do
  if ← eat Punct.orOr then return []
  unless ← eat Punct.bar do return []
  let params ← list do
    if ← isAt Punct.bar then return .stop
    let param ← blockParam
    if ← eat Punct.comma then return .more param
    return .last param
  discard (expect Punct.bar)
  return params

/-- A block in braces, or between `do` and `end` unless the `do` belongs to an
enclosing construct. -/
def block (nest : Nest) : Parser (Option (Block Node)) := do
  let close : Kind ←
    match ← kind with
    | .punct .openBrace => pure (.punct .closeBrace)
    | .keyword .doKw =>
      if ← noDo then return none
      pure (.keyword .endKw)
    | _ => return none
  discard advance
  let params ← blockParams
  let body ← withNoDo false (statements nest [close])
  discard (expect close)
  return some ⟨params, body⟩

def startsBlock : Parser Bool := do
  match ← kind with
  | .punct .openBrace => return true
  | .keyword .doKw => return !(← noDo)
  | _ => return false

/-- Parameters of a lambda, in parentheses or bare. -/
def lambdaParams : Parser (List Node) := do
  if ← eat Punct.openParen then
    let params ← list do
      skipNewLines
      if ← isAt Punct.closeParen then return .stop
      let param ← blockParam
      skipNewLines
      if ← eat Punct.comma then return .more param
      return .last param
    discard (expect Punct.closeParen)
    return params
  else
    list do
      unless ← isAt .identifier do return .stop
      let param ← blockParam
      if ← eat Punct.comma then return .more param
      return .last param

/-- An arrow, parameters, and a block; parameters of the block follow those of
the arrow. -/
def arrowLambda (nest : Nest) : Parser Node := do
  discard advance
  let params ← lambdaParams
  match ← withNoDo false (block nest) with
  | some block => return .lambda ⟨params ++ block.params, block.body⟩
  | none => fail .expectedButFound ["\x7b", (← current).display]

end RubySyntax.Grammar.Parser
