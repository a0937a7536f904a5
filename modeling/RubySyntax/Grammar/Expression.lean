import RubySyntax.Grammar.Primary

namespace RubySyntax.Grammar.Parser

open RubySyntax.Tree (Node UnaryOp WeakOp)
open Token (Kind Punct Keyword)

/-- Variables are indexed even where a space stands before the bracket. -/
def isVariable : Node → Bool
  | .instanceVariable _ | .classVariable _ | .globalVariable _ => true
  | _ => false

/-- What follows a receiver: a method behind a dot or a double colon, or an
index. -/
def postfixStep (nest : Nest) (receiver : Node) : Parser (Option Node) := do
  let token ← current
  match token.kind with
  | .punct .dot | .punct .safeDot =>
    discard advance
    skipNewLines
    some <$> methodCall nest receiver
  | .punct .scope =>
    if token.spacing.isSpacedBefore then return none
    discard advance
    some <$> methodCall nest receiver
  | .punct .openBracket =>
    unless isVariable receiver || !token.spacing.isPrefixPosition do return none
    discard advance
    return some (.methodCall receiver "[]" (← closedArguments nest .closeBracket))
  | _ => return none

def postfixed (nest : Nest) : Parser Node := do chain (postfixStep nest) (← primary nest)

/-- Powers associate to the right, and a sign may stand before the exponent. -/
def power (nest : Nest) : Parser Node := do
  let base ← postfixed nest
  unless ← eat Punct.power do return base
  skipNewLines
  return .operatorCall base "**" (← nest .unary)

def unaryOp? : Kind → Option UnaryOp
  | .punct .bang => some .negation
  | .punct .tilde => some .complement
  | .punct .plus => some .positive
  | .punct .minus => some .negative
  | _ => none

def unary (nest : Nest) : Parser Node := do
  match unaryOp? (← kind) with
  | none => power nest
  | some op =>
    discard advance
    return .unary op (← nest .unary)

/-- A binary operator of a precedence higher than `above`, and its right
operand, which takes in the operators of a still higher one. -/
def binaryStep (nest : Nest) (above : Precedence) (lhs : Node) : Parser (Option Node) := do
  match Precedence.ofKind? (← kind) with
  | none => return none
  | some precedence =>
    if precedence.level ≤ above.level then return none
    let operator ← advance
    skipNewLines
    return some (.operatorCall lhs operator.text (← nest (.binary precedence)))

def binary (nest : Nest) (above : Precedence) : Parser Node := do
  chain (binaryStep nest above) (← unary nest)

/-- Ranges do not associate. -/
def range (nest : Nest) : Parser Node := do
  let first ← binary nest .lowest
  let kind ← kind
  unless kind == .punct .range || kind == .punct .exclusiveRange do return first
  discard advance
  skipNewLines
  return .range first (← binary nest .lowest) (kind == .punct .exclusiveRange)

def negation (nest : Nest) : Parser Node := do
  if ← eat Keyword.notKw then return .unary .negation (← nest .negation)
  range nest

/-- One weak logical operator and its right operand; both associate to the left
and neither binds more tightly. -/
def weakLogicalStep (nest : Nest) (lhs : Node) : Parser (Option Node) := do
  let op : WeakOp ←
    match ← kind with
    | .keyword .andKw => pure .andThen
    | .keyword .orKw => pure .orElse
    | _ => return none
  discard advance
  skipNewLines
  return some (.weakLogical op lhs (← negation nest))

def weakLogical (nest : Nest) : Parser Node := do
  chain (weakLogicalStep nest) (← negation nest)

/-- A conditional; its last branch may be another one. -/
def ternary (nest : Nest) : Parser Node := do
  let condition ← weakLogical nest
  unless ← eat Punct.question do return condition
  skipNewLines
  let ifTrue ← nest .ternary
  skipNewLines
  discard (expect Punct.colon)
  skipNewLines
  return .ternary condition ifTrue (← nest .ternary)

/-- The value of an assignment, which a rescue may guard. -/
def assignedValue (nest : Nest) : Parser Node := do
  let value ← nest .expression
  unless ← eat Keyword.rescueKw do return value
  return .rescueModifier value (← nest .expression)

/-- An assignment. A compound operator is called on its target by its whole
spelling, whatever the target is. -/
def assignment (nest : Nest) : Parser Node := do
  let target ← ternary nest
  unless (← kind).isAssignment do return target
  let operator ← advance
  skipNewLines
  let value ← assignedValue nest
  if operator.kind.isCompoundAssignment then
    return .operatorCall target operator.text value
  unless isAssignable target do fail .cannotAssign [target.describe]
  if operator.kind == .punct .orAssign then return .conditionalAssignment target value
  return assign target value

/-- The part of the grammar at a level, where `nest` reads what nests in it. -/
def atLevel (nest : Nest) : Level → Parser Node
  | .expression => assignment nest
  | .ternary => ternary nest
  | .negation => negation nest
  | .binary above => binary nest above
  | .unary => unary nest
  | .postfixed => postfixed nest

end RubySyntax.Grammar.Parser
