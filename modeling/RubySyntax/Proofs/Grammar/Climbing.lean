import RubySyntax.Grammar.Expression
import RubySyntax.Number.Decimal

/-! Precedence climbing. A chain of operands and binary operators is built up to
a tree from the left; every operator hands what binds more tightly behind it to
its right operand. -/
namespace RubySyntax.Grammar

open RubySyntax.Tree (Node)
open Token (Punct)

/-- An operator of the table of precedences. -/
structure BinaryOp where
  punct : Punct
  precedence : Precedence
  binary : Precedence.ofPunct? punct = some precedence

def BinaryOp.level (op : BinaryOp) : Nat := op.precedence.level

/-- An integer literal as it is written, and its value. -/
structure IntegerText where
  chars : List Char
  value : Nat
  leads : chars.head?.any Text.isDigit = true
  digits : chars.all Text.isDigitOrSeparator = true
  within : Number.integerOf chars = .ok value

def IntegerText.one : IntegerText := ⟨['1'], 1, rfl, rfl, rfl⟩

/-- Binary operators, each with the operand behind it. -/
abbrev OpChain := List (BinaryOp × IntegerText)

/-- The first operator of a chain binds no more tightly than `level`. -/
def OpChain.StartsWithin (level : Nat) (rest : OpChain) : Prop :=
  ∀ op operand more, rest = (op, operand) :: more → op.level ≤ level

inductive OpTree
  | operand (literal : IntegerText)
  | call (op : BinaryOp) (receiver argument : OpTree)

namespace OpTree

def node : OpTree → Node
  | operand literal => .integer literal.value
  | call op receiver argument => .operatorCall receiver.node op.punct.spelling argument.node

def first : OpTree → IntegerText
  | operand literal => literal
  | call _ receiver _ => receiver.first

/-- What is read behind the first operand: operators and operands in order. -/
def rest : OpTree → OpChain
  | operand _ => []
  | call op receiver argument => receiver.rest ++ (op, argument.first) :: argument.rest

def level? : OpTree → Option Nat
  | operand _ => none
  | call op _ _ => some op.level

/-- Operators of one level associate to the left, and a call holds no operator of
a lower level. -/
def Ordered : OpTree → Prop
  | operand _ => True
  | call op receiver argument =>
    (∀ level, receiver.level? = some level → op.level ≤ level) ∧
      (∀ level, argument.level? = some level → op.level < level) ∧
      receiver.Ordered ∧ argument.Ordered

end OpTree

/-- Operators of a precedence above `above` are applied to the tree in front of
them, up to the first one of no higher precedence. -/
inductive Climbs : Precedence → OpTree → OpChain → OpTree → OpChain → Prop
  | stop (ends : OpChain.StartsWithin above.level rest) : Climbs above lhs rest lhs rest
  | step {op : BinaryOp} {literal : IntegerText} {lhs rhs tree : OpTree} {rest middle final : OpChain}
      (tighter : above.level < op.level)
      (right : Climbs op.precedence (.operand literal) rest rhs middle)
      (more : Climbs above (.call op lhs rhs) middle tree final) :
      Climbs above lhs ((op, literal) :: rest) tree final

namespace Climbs

theorem length_le (climbs : Climbs above lhs rest tree final) : final.length ≤ rest.length := by
  induction climbs with
  | stop _ => exact Nat.le_refl _
  | step _ _ _ right more =>
    rw [List.length_cons]
    omega

/-- Climbing comes to an end on every chain. -/
theorem total (above : Precedence) (lhs : OpTree) (rest : OpChain) :
    ∃ tree final, Climbs above lhs rest tree final := by
  induction length : rest.length using Nat.strongRecOn generalizing above lhs rest with
  | _ count ih =>
    cases rest with
    | nil => exact ⟨lhs, [], .stop nofun⟩
    | cons pair rest =>
      obtain ⟨op, literal⟩ := pair
      rw [List.length_cons] at length
      by_cases tighter : above.level < op.level
      · obtain ⟨rhs, middle, right⟩ :=
          ih rest.length (by omega) op.precedence (.operand literal) rest rfl
        have shorter := right.length_le
        obtain ⟨tree, final, more⟩ :=
          ih middle.length (by omega) above (.call op lhs rhs) middle rfl
        exact ⟨tree, final, .step tighter right more⟩
      · refine ⟨lhs, _, .stop ?_⟩
        rintro _ _ _ ⟨⟩
        exact Nat.le_of_not_lt tighter

theorem startsWithin (climbs : Climbs above lhs rest tree final) :
    OpChain.StartsWithin above.level final := by
  induction climbs with
  | stop ends => exact ends
  | step _ _ _ _ more => exact more

/-- Nothing is lost, and nothing changes its place. -/
theorem reading (climbs : Climbs above lhs rest tree final) :
    tree.first = lhs.first ∧ tree.rest ++ final = lhs.rest ++ rest := by
  induction climbs with
  | stop _ => exact ⟨rfl, rfl⟩
  | @step _ op literal lhs rhs tree rest middle final _ _ _ right more =>
    obtain ⟨first, restSame⟩ := more
    obtain ⟨rightFirst, rightRest⟩ := right
    refine ⟨first, ?_⟩
    calc tree.rest ++ final = lhs.rest ++ (op, rhs.first) :: (rhs.rest ++ middle) := by
          rw [restSame, OpTree.rest, List.append_assoc, List.cons_append]
      _ = lhs.rest ++ (op, literal) :: rest := by rw [rightFirst, rightRest]; rfl

/-- Whatever is built binds more tightly than the operators it stands behind. -/
theorem above_lt_level (climbs : Climbs above lhs rest tree final)
    (start : ∀ level, lhs.level? = some level → above.level < level) :
    ∀ level, tree.level? = some level → above.level < level := by
  induction climbs with
  | stop _ => exact start
  | step tighter _ _ _ more =>
    refine more ?_
    rintro _ ⟨⟩
    exact tighter

theorem ordered (climbs : Climbs above lhs rest tree final) (start : lhs.Ordered)
    (follows : ∀ level, lhs.level? = some level → OpChain.StartsWithin level rest) :
    tree.Ordered := by
  induction climbs with
  | stop _ => exact start
  | @step _ op literal lhs rhs tree rest middle final tighter right _ rightOrdered more =>
    have argument : rhs.Ordered := rightOrdered trivial nofun
    refine more ⟨?_, ?_, start, argument⟩ ?_
    · exact fun level root => follows level root op literal rest rfl
    · exact right.above_lt_level nofun
    · rintro _ ⟨⟩
      exact right.startsWithin

end Climbs

end RubySyntax.Grammar
