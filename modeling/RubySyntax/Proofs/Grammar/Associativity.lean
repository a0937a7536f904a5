import RubySyntax.Proofs.Grammar.Words
import RubySyntax.Proofs.Lexeme.Word

namespace RubySyntax

open Grammar
open RubySyntax.Tree (Node UnaryOp WeakOp)
open Token (Kind Keyword Punct)

section Powers

def Tree.UnaryOp.sign : UnaryOp → Word
  | .negation => .mark .bang
  | .complement => .mark .tilde
  | .positive => .mark .plus
  | .negative => .mark .minus

variable {scope : Scope} {following : List Word}

end Powers

section Assignments

structure VariableName where
  chars : List Char
  named : Lexeme.IsName chars

def VariableName.node (name : VariableName) : Node := .instanceVariable (String.ofList name.chars)

variable {scope : Scope} {following : List Word}

end Assignments

section Conditionals

variable {scope : Scope} {following : List Word}

end Conditionals

section Logic

def Tree.WeakOp.keyword : WeakOp → Word
  | .andThen => .keyword .andKw
  | .orElse => .keyword .orKw

variable {scope : Scope} {nest : Nest}

end Logic

section Programs

variable {options : Options}

end Programs

end RubySyntax
