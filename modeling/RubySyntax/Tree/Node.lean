import RubySyntax.Number.Binary64

/-! The program tree. A program is the list of its statements; operators are
calls on their left operand, and an assignment to an index or an attribute is a
call of its setter. -/
namespace RubySyntax

namespace Tree

/-- A constant with the modules it is looked up in, outermost first. -/
structure ConstantPath where
  outer : List String := []
  name : String
  /-- The look-up starts at the top level. -/
  isGlobal : Bool := false
deriving DecidableEq, Repr

namespace ConstantPath

/-- One step further in: what was named so far encloses `name`. -/
def push (path : ConstantPath) (name : String) : ConstantPath :=
  { path with outer := path.outer ++ [path.name], name }

/-- The enclosing modules as they are written. -/
def scopeText (path : ConstantPath) : String := "::".intercalate path.outer

/-- A single name that is looked up where it stands. -/
def isLone (path : ConstantPath) : Bool := path.outer.isEmpty && !path.isGlobal

end ConstantPath

inductive UnaryOp
  | negation
  | complement
  | positive
  | negative
deriving DecidableEq, Repr

/-- The logical operators that bind more loosely than a conditional. -/
inductive WeakOp
  | andThen
  | orElse
deriving DecidableEq, Repr

structure Block (α : Type) where
  params : List α
  body : List α
deriving DecidableEq, Repr

structure HashPair (α : Type) where
  key : α
  value : α
deriving DecidableEq, Repr

structure SwitchCase (α : Type) where
  conditions : List α
  body : List α
deriving DecidableEq, Repr

/-- A clause that handles exceptions; one without classes handles any. -/
structure RescueClause (α : Type) where
  classes : List ConstantPath
  binding? : Option String
  body : List α
deriving DecidableEq, Repr

/-- How a parameter takes its arguments. -/
inductive ParamRole (α : Type)
  | single (default? : Option α)
  /-- All arguments that are left. -/
  | splat
  /-- The block of the call. -/
  | block
deriving DecidableEq, Repr

structure MethodParam (α : Type) where
  name : String
  role : ParamRole α
deriving DecidableEq, Repr

/-- What a method hands back or a block is handed. -/
inductive Payload (α : Type)
  | single (value : α)
  | multiple (values : List α)
deriving DecidableEq, Repr

inductive Node
  | integer (value : Nat)
  | float (value : Number.Binary64)
  /-- Text taken verbatim, escapes included. -/
  | string (text : String)
  /-- Text with interpolated regions, which are not evaluated. -/
  | template (text : String)
  | symbol (name : String)
  | character (c : Char)
  | regex (pattern options : String)
  | subshell (text : String)
  | boolean (value : Bool)
  | null
  /-- A name that is a variable or a call without arguments. -/
  | reference (name : String)
  | instanceVariable (name : String)
  | classVariable (name : String)
  | globalVariable (name : String)
  | constant (path : ConstantPath)
  | fileName
  | lineNumber
  | selfReference
  | call (target? : Option Node) (name : String) (args : List Node) (block? : Option (Block Node))
  | assignment (target value : Node)
  /-- Assigns where the target has no value yet. -/
  | conditionalAssignment (target value : Node)
  | ternary (condition ifTrue ifFalse : Node)
  | unary (op : UnaryOp) (operand : Node)
  | splat (operand : Node)
  | weakLogical (op : WeakOp) (lhs rhs : Node)
  | array (elements : List Node)
  /-- Pairs in source order; a key may come more than once. -/
  | hash (pairs : List (HashPair Node))
  | range (first last : Node) (exclusive : Bool)
  /-- The other branches are conditionals themselves, the last of them under a
  condition that is always true. -/
  | conditional (condition : Node) (body otherwise : List Node)
  | loop (condition : Node) (body : List Node)
  | switch (subject? : Option Node) (cases : List (SwitchCase Node)) (otherwise : List Node)
  | guarded (body : List Node) (rescues : List (RescueClause Node)) (otherwise : List Node)
  | rescueModifier (statement fallback : Node)
  | retry
  | breakOut
  | next
  | handBack (value? : Option (Payload Node))
  | handOver (value? : Option (Payload Node))
  | method (target? : Option Node) (name : String) (params : List (MethodParam Node))
      (body : List Node) (rescues : List (RescueClause Node))
  | classDecl (path : ConstantPath) (superclass? : Option ConstantPath) (body : List Node)
  | moduleDecl (path : ConstantPath) (body : List Node)
  | singletonClass (target : Node) (body : List Node)
  /-- A second name for a method or a global variable. -/
  | aliasDecl (name source : String)
  /-- Statements in parentheses. -/
  | group (body : List Node)
  | lambda (block : Block Node)

/-- The top-level statements. -/
abbrev Program := List Node

end Tree

end RubySyntax
