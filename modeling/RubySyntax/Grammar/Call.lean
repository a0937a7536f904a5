import RubySyntax.Grammar.Argument
import RubySyntax.Grammar.Block

namespace RubySyntax.Grammar

open Token (Kind Punct Keyword)

/-- The kinds of token that always begin an argument of a command when white
space stands before them. -/
def beginsArgument : Kind → Bool
  | .literal _ | .identifier | .constant | .instanceVariable | .classVariable | .globalVariable
  | .label => true
  | .punct p => p == .openParen || p == .lambdaArrow || p == .tilde
  | .keyword k =>
    [.nilKw, .trueKw, .falseKw, .selfKw, .fileKw, .lineKw, .notKw, .defKw].contains k
  | _ => false

/-- Operators that begin an argument of a command only if they touch what
follows them. -/
def beginsGluedArgument (p : Punct) : Bool :=
  [.minus, .plus, .asterisk, .ampersand, .scope, .bang, .openBracket].contains p

/-- Whether a token opens the argument list of a command. -/
def startsCommandArgument (token : Token) : Bool :=
  token.spacing.blankBefore &&
    match token.kind with
    | .punct p =>
      if beginsGluedArgument p then token.spacing.isPrefixPosition
      else beginsArgument p
    | kind => beginsArgument kind

namespace Parser

open RubySyntax.Tree (Node ConstantPath)

/-- The arguments and the block of a call whose name has been read. -/
def callRest (nest : Nest) (target? : Option Node) (name : String) : Parser Node := do
  let args ←
    if ← isAtGlued Punct.openParen then
      discard advance
      closedArguments nest .closeParen
    else if startsCommandArgument (← current) then withNoDo true (openArguments nest)
    else pure []
  return .call target? name args (← block nest)

/-- A method name behind a dot or a double colon, then its arguments. -/
def methodCall (nest : Nest) (receiver : Node) : Parser Node := do
  unless (← kind).isMethodName do failAt .methodNameExpected
  callRest nest (some receiver) (← advance).text

/-- A name: the two that make lambdas of their blocks, a call where arguments or
a block follow or where its mark says so, else a reference. -/
def identifier (nest : Nest) : Parser Node := do
  let name := (← advance).text
  if name == "lambda" || name == "proc" then
    if let some block ← block nest then return .lambda block
  if (← isAtGlued Punct.openParen) || startsCommandArgument (← current) || (← startsBlock) then
    return ← callRest nest none name
  if endsWithMark name then return .functionCall name []
  return .reference name

def constantName : Parser String := do
  unless ← isAt .constant do fail .expectedButFound ["constant", (← current).display]
  return (← advance).text

/-- A constant, global if a double colon leads. -/
def leadingConstant : Parser ConstantPath := do
  let isGlobal ← eat Punct.scope
  return { name := ← constantName, isGlobal }

/-- A path of constants in a declaration or a rescue clause. -/
def constantPath : Parser ConstantPath := do
  chain (fun path => do
    if ← eat Punct.scope then return some (path.push (← constantName))
    return none) (← leadingConstant)

/-- A constant begins here, or the double colon in front of a global one. -/
def atConstantPath : Parser Bool := return (← isAt .constant) || (← isAt Punct.scope)

/-- A lone constant is a reference like any other name. -/
def constantReference (path : ConstantPath) : Node :=
  if path.isLone then .reference path.name else .constant path

/-- A path of constants in an expression. A method name behind it is called on
what the path names; a lone name with arguments is itself called. -/
def constant (nest : Nest) : Parser Node := do
  let path ← chain (fun path => do
    if (← isAtGlued Punct.scope) && (← nextKind) == some .constant then
      discard advance
      return some (path.push (← advance).text)
    return none) (← leadingConstant)
  if ← eatGlued Punct.scope then return ← methodCall nest (constantReference path)
  if path.isLone && (← isAtGlued Punct.openParen) then return ← callRest nest none path.name
  return constantReference path

end Parser

end RubySyntax.Grammar
