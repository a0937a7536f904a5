import RubySyntax.Grammar.Program
import RubySyntax.Proofs.Grammar.Climbing
import RubySyntax.Proofs.Grammar.Evaluation
import RubySyntax.Proofs.Grammar.SingleStatement

namespace RubySyntax.Grammar

open RubySyntax.Tree (Node)
open Token (Kind Punct)

structure IsOperand (literal : IntegerText) (token : Token) : Prop where
  kind : token.kind = .literal .integer
  text : token.text = String.ofList literal.chars

structure IsOperator (op : BinaryOp) (token : Token) : Prop where
  kind : token.kind = .punct op.punct
  text : token.text = op.punct.spelling

/-- The tokens behind the first operand of a chain, the end of the input included. -/
inductive Written : OpChain → Token → List Token → Prop
  | ended (last : token.kind = .endOfFile) : Written [] token []
  | more {op : BinaryOp} {literal : IntegerText} {chain : OpChain} {token next after : Token}
      {tokens : List Token} (sign : IsOperator op token) (operand : IsOperand literal next)
      (rest : Written chain after tokens) :
      Written ((op, literal) :: chain) token (next :: after :: tokens)

theorem Written.length (written : Written chain token tokens) :
    tokens.length = 2 * chain.length := by
  induction written with
  | ended _ => rfl
  | more _ _ _ ih =>
    simp only [List.length_cons, ih]
    omega

/-- The end of the input, or a binary operator. -/
def Follows (token : Token) : Prop :=
  token.kind = .endOfFile ∨ ∃ op : BinaryOp, token.kind = .punct op.punct

theorem Written.follows (written : Written chain token tokens) : Follows token := by
  cases written with
  | ended last => exact .inl last
  | more sign _ _ => exact .inr ⟨_, sign.kind⟩

/-- No operator of the table of precedences is anything else. -/
theorem Follows.ne_punct (follows : Follows token) (other : Precedence.ofPunct? p = none) :
    token.kind ≠ .punct p := by
  intro same
  obtain ended | ⟨op, sign⟩ := follows
  · rw [ended] at same
    cases same
  · rw [sign] at same
    have binary := op.binary
    rw [Kind.punct.inj same, other] at binary
    cases binary

theorem Follows.known (follows : Follows token) : token.kind ≠ .unknown := by
  obtain ended | ⟨op, sign⟩ := follows
  · simp [ended]
  · simp [sign]

namespace Parser

variable {scope : Scope} {nest : Nest} {literal : IntegerText} {token next : Token}

theorem integer_eq (operand : IsOperand literal token) (known : next.kind ≠ .unknown)
    (rest : List Token) :
    integer scope (.ofTokens token (next :: rest)) =
      .ok (.integer literal.value, .ofTokens next rest) := by
  have value : Number.integerOf token.text.toList = .ok literal.value := by
    rw [operand.text, String.toList_ofList]
    exact literal.within
  unfold integer
  rw [bind_ok _ (current_eq _ _)]
  simp only [Cursor.token_ofTokens, value]
  exact bind_ok _ (congrArg (Except.map _) (advance_ofTokens known rest))

theorem postfixStep_none (follows : Follows token) (receiver : Node) (rest : List Token) :
    postfixStep nest receiver scope (.ofTokens token rest) =
      .ok (none, .ofTokens token rest) := by
  unfold postfixStep
  rw [bind_ok _ (current_eq _ _)]
  have dot := follows.ne_punct (show Precedence.ofPunct? .dot = none from rfl)
  have safeDot := follows.ne_punct (show Precedence.ofPunct? .safeDot = none from rfl)
  have scopeSign := follows.ne_punct (show Precedence.ofPunct? .scope = none from rfl)
  have bracket := follows.ne_punct (show Precedence.ofPunct? .openBracket = none from rfl)
  simp
  rfl

theorem unary_operand (operand : IsOperand literal token) (follows : Follows next)
    (rest : List Token) :
    unary nest scope (.ofTokens token (next :: rest)) =
      .ok (.integer literal.value, .ofTokens next rest) := by
  have primary : primary nest scope (.ofTokens token (next :: rest)) =
      .ok (.integer literal.value, .ofTokens next rest) := by
    unfold primary
    rw [bind_ok _ (kind_eq _ _)]
    simp only [Cursor.token_ofTokens, operand.kind]
    exact integer_eq operand follows.known rest
  have postfixed : postfixed nest scope (.ofTokens token (next :: rest)) =
      .ok (.integer literal.value, .ofTokens next rest) := by
    unfold postfixed
    rw [bind_ok _ primary]
    exact chain_none (postfixStep_none follows _ rest)
  unfold unary
  rw [bind_ok _ (kind_eq _ _)]
  simp only [Cursor.token_ofTokens, operand.kind, unaryOp?]
  unfold power
  rw [bind_ok _ postfixed, bind_ok _ (eat_other (follows.ne_punct rfl))]
  rfl

theorem binaryStep_none {chain : OpChain} {above : Precedence} (written : Written chain token rest)
    (ends : chain.StartsWithin above.level) (lhs : Node) :
    binaryStep nest above lhs scope (.ofTokens token rest) = .ok (none, .ofTokens token rest) := by
  unfold binaryStep
  rw [bind_ok _ (kind_eq _ _)]
  cases written with
  | ended last =>
    simp only [Cursor.token_ofTokens, last, Precedence.ofKind?]
    rfl
  | @more op _ _ _ _ _ _ sign _ _ =>
    have within : op.precedence.level ≤ above.level := ends _ _ _ rfl
    simp only [Cursor.token_ofTokens, sign.kind, Precedence.ofKind?, op.binary, if_pos within]
    rfl

/-- A tighter operator is applied to what its right operand reads. -/
theorem binaryStep_some {op : BinaryOp} {above : Precedence} (sign : IsOperator op token)
    (tighter : above.level < op.level) (operand : IsOperand literal next) (lhs : Node)
    (reads : nest (.binary op.precedence) scope (.ofTokens next rest) = .ok (rhs, final)) :
    binaryStep nest above lhs scope (.ofTokens token (next :: rest)) =
      .ok (some (.operatorCall lhs op.punct.spelling rhs), final) := by
  have looser : ¬ op.precedence.level ≤ above.level := Nat.not_le_of_lt tighter
  have known : next.kind ≠ .unknown := by simp [operand.kind]
  have inLine : skipNewLines scope (.ofTokens next rest) = .ok ((), .ofTokens next rest) :=
    skipWhile_other (by simp [operand.kind])
  unfold binaryStep
  rw [bind_ok _ (kind_eq _ _)]
  simp only [Cursor.token_ofTokens, sign.kind, Precedence.ofKind?, op.binary, if_neg looser]
  rw [bind_ok _ (advance_ofTokens known rest), bind_ok _ inLine, bind_ok _ reads, sign.text]
  rfl

theorem binary_eq {op : Precedence} (operand : IsOperand literal token) (follows : Follows next)
    (reads : chain (binaryStep nest op) (.integer literal.value) scope (.ofTokens next rest) = result) :
    binary nest op scope (.ofTokens token (next :: rest)) = result := by
  unfold binary
  rw [bind_ok _ (unary_operand operand follows rest)]
  exact reads

/-- No precedence is more than nine levels above another. -/
theorem level_le (precedence : Precedence) : precedence.level ≤ 9 := by
  cases precedence <;> decide

/-- On the tokens of a chain the loop over binary operators climbs. -/
theorem chain_binaryStep {start final : OpChain} {tree lhs : OpTree} {above : Precedence}
    (climbs : Climbs above lhs start tree final) (enough : 9 ≤ depth + above.level)
    (written : Written start token tokens) :
    ∃ last rest, Written final last rest ∧
      chain (binaryStep (nested depth) above) lhs.node scope (.ofTokens token tokens) =
        .ok (tree.node, .ofTokens last rest) := by
  induction climbs generalizing depth token tokens with
  | stop ends => exact ⟨token, tokens, written, chain_none (binaryStep_none written ends _)⟩
  | @step above op literal lhs rhs tree rest middle final tighter right _ rightIH moreIH =>
    cases written with
    | @more _ _ _ _ next after behind sign operand writtenRest =>
      have bound := level_le op.precedence
      have deeper : above.level < op.precedence.level := tighter
      obtain ⟨depth, rfl⟩ : ∃ lower, depth = lower + 1 := ⟨depth - 1, by omega⟩
      have narrowed : 9 ≤ depth + op.precedence.level := by omega
      obtain ⟨stop, left, writtenMiddle, loops⟩ := rightIH narrowed writtenRest
      have reads : nested (depth + 1) (.binary op.precedence) scope
          (.ofTokens next (after :: behind)) = .ok (rhs.node, .ofTokens stop left) :=
        binary_eq operand writtenRest.follows loops
      obtain ⟨last, rest, writtenFinal, more⟩ := moreIH enough writtenMiddle
      refine ⟨last, rest, writtenFinal, ?_⟩
      have moved : left.length < (next :: after :: behind).length := by
        have shorter := right.length_le
        rw [writtenMiddle.length, List.length_cons, List.length_cons, writtenRest.length]
        omega
      rw [chain_some (binaryStep_some sign tighter operand lhs.node reads) moved]
      exact more

/-- No operator is as loose as the loosest loop. -/
theorem level_pos (op : BinaryOp) : 0 < op.level := by
  obtain ⟨punct, precedence, binary⟩ := op
  cases precedence with
  | lowest =>
    unfold Precedence.ofPunct? at binary
    split at binary <;> cases binary
  | _ => exact Nat.succ_pos _

/-- The loosest loop over binary operators goes through a whole chain. -/
theorem binary_chain {rest : OpChain} (scope : Scope) (enough : 9 ≤ depth)
    (operand : IsOperand literal token) (written : Written rest next tokens) :
    ∃ tree : OpTree, ∃ last : Token, tree.first = literal ∧ tree.rest = rest ∧ tree.Ordered ∧
      last.kind = .endOfFile ∧
      binary (nested depth) .lowest scope (.ofTokens token (next :: tokens)) =
        .ok (tree.node, .ofTokens last []) := by
  obtain ⟨tree, final, climbs⟩ := Climbs.total .lowest (.operand literal) rest
  have deep : 9 ≤ depth + Precedence.lowest.level := enough
  obtain ⟨last, left, writtenFinal, loops⟩ := chain_binaryStep climbs deep written
  have ends := climbs.startsWithin
  obtain ⟨first, reading⟩ := climbs.reading
  cases writtenFinal with
  | ended ended =>
    rw [List.append_nil] at reading
    exact ⟨tree, last, first, reading, climbs.ordered trivial nofun, ended,
      binary_eq operand written.follows loops⟩
  | @more op _ _ _ _ _ _ _ _ _ =>
    have within : op.level ≤ 0 := ends _ _ _ rfl
    exact absurd (level_pos op) (Nat.not_lt_of_le within)

end Parser

/-- The tokens of a chain are read as the tree of the whole chain. -/
theorem parseTokens_chain {literal : IntegerText} {rest : OpChain} {first next : Token}
    (operand : IsOperand literal first) (written : Written rest next tokens)
    (fault : Option Diagnostic.Report) (enough : 10 ≤ maxDepth) :
    ∃ tree : OpTree, tree.first = literal ∧ tree.rest = rest ∧ tree.Ordered ∧
      parseTokens (first :: next :: tokens) fault maxDepth = .ok [tree.node] := by
  obtain ⟨depth, rfl⟩ : ∃ lower, maxDepth = lower + 1 := ⟨maxDepth - 1, by omega⟩
  have deep : 9 ≤ depth := by omega
  obtain ⟨tree, last, reading, inOrder, ordered, ended, reads⟩ :=
    Parser.binary_chain { limit := depth + 1, fault } deep operand written
  have begins : BeginsPlain first.kind := operand.kind ▸ beginsPlain_literal .integer
  have expression : Parser.nested (depth + 1) .expression { limit := depth + 1, fault }
      (.ofTokens first (next :: tokens)) = .ok (tree.node, .ofTokens last []) :=
    expression_of_binary (show EndsStatement last.kind from .inl ended).endsExpression
      begins.positive reads
  refine ⟨tree, reading, inOrder, ordered, ?_⟩
  exact congrArg (Except.map Prod.fst) (program_of_expression begins.beginsStatement ended expression)

end RubySyntax.Grammar
