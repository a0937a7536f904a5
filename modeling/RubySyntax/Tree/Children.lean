import RubySyntax.Tree.Node

namespace RubySyntax.Tree

def Block.nodes (block : Block α) : List α := block.params ++ block.body

def HashPair.nodes (pair : HashPair α) : List α := [pair.key, pair.value]

def SwitchCase.nodes (case : SwitchCase α) : List α := case.conditions ++ case.body

def MethodParam.nodes (param : MethodParam α) : List α :=
  match param.role with
  | .single default? => default?.toList
  | .splat | .block => []

def Payload.nodes : Payload α → List α
  | .single value => [value]
  | .multiple values => values

/-- No value, one, or a list of at least two. -/
def Payload.ofList? : List α → Option (Payload α)
  | [] => none
  | [value] => some (.single value)
  | values => some (.multiple values)

namespace Node

/-- A call with a receiver and no block. -/
def methodCall (target : Node) (name : String) (args : List Node) : Node :=
  .call (some target) name args none

/-- A call without a receiver and without a block. -/
def functionCall (name : String) (args : List Node) : Node := .call none name args none

/-- An operator is a call on its left operand. -/
def operatorCall (lhs : Node) (operator : String) (rhs : Node) : Node :=
  methodCall lhs operator [rhs]

/-- The direct children in source order. Clauses, parameters and pairs are no
nodes, and what they hold are children of the node around them. -/
def children : Node → List Node
  | integer _ | float _ | string _ | template _ | symbol _ | character _ | regex _ _ | subshell _
  | boolean _ | null | reference _ | instanceVariable _ | classVariable _ | globalVariable _
  | constant _ | fileName | lineNumber | selfReference | retry | breakOut | next
  | aliasDecl _ _ => []
  | call target? _ args block? =>
    target?.toList ++ args ++ (block?.toList.flatMap Block.nodes)
  | assignment target value | conditionalAssignment target value => [target, value]
  | ternary condition ifTrue ifFalse => [condition, ifTrue, ifFalse]
  | unary _ operand | splat operand => [operand]
  | weakLogical _ lhs rhs => [lhs, rhs]
  | array nodes | group nodes => nodes
  | hash pairs => pairs.flatMap HashPair.nodes
  | range first last _ => [first, last]
  | conditional condition body otherwise => condition :: (body ++ otherwise)
  | loop condition body => condition :: body
  | switch subject? cases otherwise =>
    subject?.toList ++ cases.flatMap SwitchCase.nodes ++ otherwise
  | guarded body rescues otherwise =>
    body ++ rescues.flatMap RescueClause.body ++ otherwise
  | rescueModifier statement fallback => [statement, fallback]
  | handBack value? | handOver value? => value?.toList.flatMap Payload.nodes
  | method target? _ params body rescues =>
    target?.toList ++ params.flatMap MethodParam.nodes ++ body ++
      rescues.flatMap RescueClause.body
  | classDecl _ _ body | moduleDecl _ body => body
  | singletonClass target body => target :: body
  | lambda block => block.nodes

/-- How a message names the node. -/
def describe : Node → String
  | integer _ => "integer literal"
  | float _ => "float literal"
  | string _ | template _ => "string literal"
  | symbol _ => "symbol"
  | character _ => "character literal"
  | regex _ _ => "regular expression"
  | subshell _ => "subshell command"
  | boolean _ => "boolean literal"
  | null => "nil"
  | reference _ => "reference"
  | instanceVariable _ => "instance variable"
  | classVariable _ => "class variable"
  | globalVariable _ => "global variable"
  | constant _ => "constant"
  | fileName => "__FILE__"
  | lineNumber => "__LINE__"
  | selfReference => "self"
  | call _ _ _ _ => "method call"
  | assignment _ _ | conditionalAssignment _ _ => "assignment"
  | ternary _ _ _ => "ternary expression"
  | unary _ _ => "unary expression"
  | splat _ => "splat"
  | weakLogical _ _ _ => "logical expression"
  | array _ => "array literal"
  | hash _ => "hash literal"
  | range _ _ _ => "range"
  | conditional _ _ _ => "if block"
  | loop _ _ => "loop"
  | switch _ _ _ => "case statement"
  | guarded _ _ _ => "begin block"
  | rescueModifier _ _ => "rescue modifier"
  | retry => "retry"
  | breakOut => "break"
  | next => "next"
  | handBack _ => "return"
  | handOver _ => "yield"
  | method _ _ _ _ _ => "method definition"
  | classDecl _ _ _ => "class definition"
  | moduleDecl _ _ => "module definition"
  | singletonClass _ _ => "singleton class"
  | aliasDecl _ _ => "alias"
  | group _ => "parenthesized expression"
  | lambda _ => "lambda"

end Node

end RubySyntax.Tree
