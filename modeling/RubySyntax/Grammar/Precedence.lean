import RubySyntax.Token.Kind

/-! Precedence of the binary operators. Assignment, conditionals, the weak
logical operators and ranges bind more loosely than all of these; the power
operator binds more tightly than a sign and stands with the unary operators. -/
namespace RubySyntax.Grammar

open Token (Punct Kind)

inductive Precedence
  | lowest
  | logicalOr
  | logicalAnd
  | equality
  | relational
  | bitwiseOr
  | bitwiseAnd
  | shift
  | additive
  | multiplicative
deriving DecidableEq, Repr

namespace Precedence

/-- Higher levels bind more tightly. -/
def level : Precedence → Nat
  | lowest => 0
  | logicalOr => 1
  | logicalAnd => 2
  | equality => 3
  | relational => 4
  | bitwiseOr => 5
  | bitwiseAnd => 6
  | shift => 7
  | additive => 8
  | multiplicative => 9

def name : Precedence → String
  | lowest => "Lowest"
  | logicalOr => "LogicalOr"
  | logicalAnd => "LogicalAnd"
  | equality => "Equality"
  | relational => "Relational"
  | bitwiseOr => "BitwiseOr"
  | bitwiseAnd => "BitwiseAnd"
  | shift => "Shift"
  | additive => "Additive"
  | multiplicative => "Multiplicative"

def ofPunct? : Punct → Option Precedence
  | .orOr => some logicalOr
  | .andAnd => some logicalAnd
  | .equal | .caseEqual | .notEqual | .matching | .notMatching | .compare => some equality
  | .less | .greater | .lessEqual | .greaterEqual => some relational
  | .bar | .caret => some bitwiseOr
  | .ampersand => some bitwiseAnd
  | .shiftLeft | .shiftRight => some shift
  | .plus | .minus => some additive
  | .asterisk | .slash | .percent => some multiplicative
  | _ => none

def ofKind? : Kind → Option Precedence
  | .punct p => ofPunct? p
  | _ => none

end Precedence

end RubySyntax.Grammar
