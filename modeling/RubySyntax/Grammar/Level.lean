import RubySyntax.Grammar.Parser
import RubySyntax.Grammar.Precedence
import RubySyntax.Tree.Children

/-! Levels of nesting. The grammar refers to itself only through one of these
levels, and each such reference uses up one level of the nesting limit. -/
namespace RubySyntax.Grammar

open RubySyntax.Tree (Node)

/-- The parts of the grammar that nest, by how loosely they bind. -/
inductive Level
  | expression
  | ternary
  | negation
  /-- Binary operators of a higher precedence than this one. -/
  | binary (above : Precedence)
  | unary
  | postfixed
deriving DecidableEq, Repr

/-- The grammar one level further in. -/
abbrev Nest := Level → Parser Node

namespace Parser

def splatOrExpression (nest : Nest) : Parser Node := do
  if ← eat Token.Punct.asterisk then return .splat (← nest .ternary)
  nest .expression

end Parser

end RubySyntax.Grammar
