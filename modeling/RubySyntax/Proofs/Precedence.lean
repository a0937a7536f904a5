import RubySyntax.Proofs.Grammar.OperatorChain
import RubySyntax.Proofs.Lexer.Word

namespace RubySyntax

open Grammar (BinaryOp IntegerText IsOperand IsOperator OpChain OpTree Written)

/-- A chain as it is written behind its first operand. -/
def Grammar.OpChain.chars : OpChain → List Char
  | [] => []
  | (op, literal) :: rest =>
    ' ' :: (op.punct.spelling.toList ++ ' ' :: (literal.chars ++ chars rest))

theorem Grammar.OpChain.apart_chars (chain : OpChain) : Apart chain.chars := by
  cases chain with
  | nil => exact .inl rfl
  | cons _ _ => exact .inr ⟨_, rfl⟩

namespace Lexer

variable {lexer behind : Lexer} {token : Token}

theorem Hands.isOperand {literal : IntegerText}
    (hands : lexer.Hands (.literal .integer) literal.chars token behind) :
    IsOperand literal token :=
  ⟨hands.kind, hands.text⟩

theorem Hands.isOperator {op : BinaryOp}
    (hands : lexer.Hands (.punct op.punct) op.punct.spelling.toList token behind) :
    IsOperator op token :=
  ⟨hands.kind, by rw [hands.text, String.ofList_toList]⟩

/-- The lexer hands out the tokens of a chain, and the end of the input behind them. -/
theorem Awaits.run_chain {literal : IntegerText} (chain : OpChain)
    (awaits : lexer.Awaits previous (literal.chars ++ chain.chars))
    (running : previous.any Token.Kind.isTerminal = false) :
    ∃ first next tokens final, Run lexer (first :: next :: tokens) final ∧ final.halted = true ∧
      IsOperand literal first ∧ Written chain next tokens := by
  induction chain generalizing lexer literal previous with
  | nil =>
    obtain ⟨first, behind, hands, after⟩ :=
      awaits.integer running literal.leads literal.digits (.inl rfl)
    obtain ⟨last, final, ends, stopped⟩ := after.ended rfl
    refine ⟨first, last, [], final, .more hands.read (.more ends.read .done), ?_,
      hands.isOperand, .ended ends.kind⟩
    exact halted_of_last stopped.last
  | cons pair chain ih =>
    obtain ⟨op, following⟩ := pair
    obtain ⟨first, behind, hands, after⟩ :=
      awaits.integer running literal.leads literal.digits (OpChain.apart_chars _)
    obtain ⟨sign, operand, signs, awaiting⟩ := after.operator op.binary
    obtain ⟨second, third, tokens, final, run, halted, isOperand, written⟩ := ih awaiting rfl
    exact ⟨first, sign, second :: third :: tokens, final,
      .more hands.read (.more signs.read run), halted, hands.isOperand,
      .more signs.isOperator isOperand written⟩

end Lexer

end RubySyntax
