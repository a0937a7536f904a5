import RubySyntax.Proofs.Grammar.OperatorChain
import RubySyntax.Proofs.Lexer.Sentence

/-! What the grammar reads from words. A parser reads some of them as a value and leaves
the others; where nothing goes on with an operand, it is an expression of every looser
level. -/
namespace RubySyntax.Grammar

open RubySyntax.Tree (Node)
open Token (Kind Keyword Punct)

/-- The kind of the first token of words and of the end of the input behind them. -/
def firstKind : List Word → Kind
  | [] => .endOfFile
  | word :: _ => word.kind

@[simp] theorem firstKind_cons (word : Word) (words : List Word) :
    firstKind (word :: words) = word.kind := rfl

variable {α β : Type} {scope : Scope} {words more following : List Word} {token : Token}
  {tokens : List Token}

theorem kind_of_wording (wording : Wording words token tokens) : token.kind = firstKind words := by
  cases wording with
  | ended last => exact last
  | word here _ _ => exact here.kind

theorem known_of_wording (wording : Wording words token tokens) : token.kind ≠ .unknown := by
  cases wording with
  | ended last => simp [last]
  | word here _ _ => exact here.known

/-- The parser reads the words as the value and leaves those that follow. -/
def Parses (parser : Parser α) (scope : Scope) (words following : List Word) (value : α) : Prop :=
  ∀ token tokens, Wording (words ++ following) token tokens →
    ∃ next rest, Wording following next rest ∧
      parser scope (.ofTokens token tokens) = .ok (value, .ofTokens next rest)

namespace Parses

variable {parser : Parser α} {next : α → Parser β} {value : α} {result : β}

theorem pure (value : α) : Parses (pure value) scope [] following value :=
  fun token tokens wording => ⟨token, tokens, wording, rfl⟩

theorem bind (first : Parses parser scope words (more ++ following) value)
    (second : Parses (next value) scope more following result) :
    Parses (parser >>= next) scope (words ++ more) following result := by
  intro token tokens wording
  rw [List.append_assoc] at wording
  obtain ⟨middle, others, wording, read⟩ := first token tokens wording
  obtain ⟨last, rest, wording, reads⟩ := second middle others wording
  exact ⟨last, rest, wording, (Parser.bind_ok _ read).trans reads⟩

theorem map (first : Parses parser scope words following value) (f : α → β) :
    Parses (f <$> parser) scope words following (f value) := by
  intro token tokens wording
  obtain ⟨last, rest, wording, read⟩ := first token tokens wording
  exact ⟨last, rest, wording, congrArg (Except.map _) read⟩

/-- Behind what has been read nothing more is taken. -/
theorem ends (first : Parses parser scope words following value)
    (stays : ∀ token rest, token.kind = firstKind following →
      next value scope (.ofTokens token rest) = .ok (result, .ofTokens token rest)) :
    Parses (parser >>= next) scope words following result := by
  intro token tokens wording
  obtain ⟨last, rest, wording, read⟩ := first token tokens wording
  exact ⟨last, rest, wording, (Parser.bind_ok _ read).trans (stays last rest (kind_of_wording wording))⟩

/-- A parser that only looks at the first kind decides what is read. -/
theorem look {look : Parser α}
    (looks : ∀ token rest, token.kind = firstKind (words ++ following) →
      look scope (.ofTokens token rest) = .ok (value, .ofTokens token rest))
    (second : Parses (next value) scope words following result) :
    Parses (look >>= next) scope words following result := by
  intro token tokens wording
  obtain ⟨last, rest, left, reads⟩ := second token tokens wording
  refine ⟨last, rest, left, ?_⟩
  exact (Parser.bind_ok _ (looks token tokens (kind_of_wording wording))).trans reads

theorem kind {next : Kind → Parser β}
    (second : Parses (next (firstKind (words ++ following))) scope words following result) :
    Parses (Parser.kind >>= next) scope words following result := by
  refine look (fun token rest same => ?_) second
  rw [Parser.kind_eq, Cursor.token_ofTokens, same]

theorem eat_other {kind : Kind} {next : Bool → Parser β}
    (other : firstKind (words ++ following) ≠ kind)
    (second : Parses (next false) scope words following result) :
    Parses (Parser.eat kind >>= next) scope words following result :=
  look (fun token _ same => Parser.eat_other fun here : token.kind = kind => other (same ▸ here)) second

theorem skipNewLines {next : Unit → Parser β} (other : firstKind (words ++ following) ≠ .newLine)
    (second : Parses (next ()) scope words following result) :
    Parses (Parser.skipNewLines >>= next) scope words following result :=
  look (fun token _ same =>
    Parser.skipNewLines_other fun here : token.kind = .newLine => other (same ▸ here)) second

theorem single {word : Word}
    (passes : ∀ token next rest, word.IsToken token → next.kind ≠ .unknown →
      parser scope (.ofTokens token (next :: rest)) = .ok (value, .ofTokens next rest)) :
    Parses parser scope [word] following value := by
  intro token tokens wording
  cases wording with
  | word here _ rest => exact ⟨_, _, rest, passes _ _ _ here (known_of_wording rest)⟩

theorem eat (word : Word) : Parses (Parser.eat word.kind) scope [word] following true :=
  single fun _ _ _ here known => Parser.eat_ofTokens here.kind known

theorem advance (word : Word) : Parses (discard Parser.advance) scope [word] following () :=
  single fun _ _ rest _ known => Parser.discard_ok (Parser.advance_ofTokens known rest)

/-- A word is passed over, and its token decides how it goes on. -/
theorem bind_token {word : Word} {next : Token → Parser β}
    (second : ∀ token, word.IsToken token → Parses (next token) scope more following result) :
    Parses (Parser.advance >>= next) scope (word :: more) following result := by
  intro token tokens wording
  cases wording with
  | word here _ rest =>
    obtain ⟨last, behind, left, reads⟩ := second token here _ _ rest
    refine ⟨last, behind, left, ?_⟩
    rw [Parser.bind_ok _ (Parser.advance_ofTokens (known_of_wording rest) _), reads]

theorem expect (word : Word) :
    Parses (discard (Parser.expect word.kind)) scope [word] following () :=
  single fun _ _ _ here known => Parser.discard_ok (Parser.expect_ofTokens here.kind known)

theorem withNoDo {noDo : Bool} (read : Parses parser { scope with noDo } words following value) :
    Parses (Parser.withNoDo noDo parser) scope words following value := read

/-- A loop takes a step over some words and goes on behind them. -/
theorem chain_some {step : α → Parser (Option α)} {start built final : α} (moves : words ≠ [])
    (stepped : Parses (step start) scope words (more ++ following) (some built))
    (rest : Parses (Parser.chain step built) scope more following final) :
    Parses (Parser.chain step start) scope (words ++ more) following final := by
  intro token tokens wording
  rw [List.append_assoc] at wording
  obtain ⟨middle, others, left, read⟩ := stepped token tokens wording
  obtain ⟨last, behind, spelled, reads⟩ := rest middle others left
  have moved : others.length < tokens.length := by
    have some := List.length_pos_iff.mpr moves
    rw [left.length, wording.length]
    simp only [List.length_append]
    omega
  exact ⟨last, behind, spelled, (Parser.chain_some read moved).trans reads⟩

end Parses

theorem weakLogicalStep_none {nest : Nest} {rest : List Token} (node : Node)
    (stops : token.kind ∉ [.keyword .andKw, .keyword .orKw]) :
    Parser.weakLogicalStep nest node scope (.ofTokens token rest) =
      .ok (none, .ofTokens token rest) := by
  simp only [List.mem_cons, List.not_mem_nil, or_false, not_or] at stops
  unfold Parser.weakLogicalStep
  rw [Parser.bind_ok _ (Parser.kind_eq _ _), Cursor.token_ofTokens]
  simp [stops]
  rfl

/-- Nothing goes on with an operand in front of a token of this kind. -/
structure EndsOperand (kind : Kind) : Prop where
  noCall : kind ∉ [.punct .dot, .punct .safeDot, .punct .scope, .punct .openBracket]
  noPower : kind ≠ .punct .power
  noBinary : Precedence.ofKind? kind = none
  noRange : kind ∉ [.punct .range, .punct .exclusiveRange]

instance (kind : Kind) : Decidable (EndsOperand kind) :=
  decidable_of_iff
    (kind ∉ [.punct .dot, .punct .safeDot, .punct .scope, .punct .openBracket] ∧
      kind ≠ .punct .power ∧ Precedence.ofKind? kind = none ∧
      kind ∉ [.punct .range, .punct .exclusiveRange])
    ⟨fun ⟨noCall, noPower, noBinary, noRange⟩ => ⟨noCall, noPower, noBinary, noRange⟩,
      fun ⟨noCall, noPower, noBinary, noRange⟩ => ⟨noCall, noPower, noBinary, noRange⟩⟩

/-- Nothing goes on with a conditional or anything tighter. -/
structure EndsTernary (kind : Kind) : Prop extends EndsOperand kind where
  noWeak : kind ∉ [.keyword .andKw, .keyword .orKw]
  noQuestion : kind ≠ .punct .question

instance (kind : Kind) : Decidable (EndsTernary kind) :=
  decidable_of_iff
    (EndsOperand kind ∧ kind ∉ [.keyword .andKw, .keyword .orKw] ∧ kind ≠ .punct .question)
    ⟨fun ⟨ends, noWeak, noQuestion⟩ => ⟨ends, noWeak, noQuestion⟩,
      fun ⟨ends, noWeak, noQuestion⟩ => ⟨ends, noWeak, noQuestion⟩⟩

/-- Nothing goes on with an expression. -/
structure EndsValue (kind : Kind) : Prop extends EndsTernary kind where
  noAssignment : kind.isAssignment = false

instance (kind : Kind) : Decidable (EndsValue kind) :=
  decidable_of_iff (EndsTernary kind ∧ kind.isAssignment = false)
    ⟨fun ⟨ends, noAssignment⟩ => ⟨ends, noAssignment⟩, fun ⟨ends, noAssignment⟩ => ⟨ends, noAssignment⟩⟩

namespace Parses

variable {nest : Nest} {node : Node}

theorem integer (literal : IntegerText) :
    Parses (Parser.primary nest) scope [Word.integer literal] following (.integer literal.value) := by
  refine single fun token next rest here known => ?_
  have operand : IsOperand literal token := ⟨here.kind, here.text⟩
  unfold Parser.primary
  rw [Parser.bind_ok _ (Parser.kind_eq _ _)]
  simp only [Cursor.token_ofTokens, operand.kind]
  exact Parser.integer_eq operand known rest

/-- Neither a method nor an index follows. -/
theorem postfixed (read : Parses (Parser.primary nest) scope words following node)
    (stops : firstKind following ∉ [.punct .dot, .punct .safeDot, .punct .scope, .punct .openBracket]) :
    Parses (Parser.postfixed nest) scope words following node := by
  refine read.ends fun token rest same => Parser.chain_none ?_
  rw [← same] at stops
  simp only [List.mem_cons, List.not_mem_nil, or_false, not_or] at stops
  unfold Parser.postfixStep
  rw [Parser.bind_ok _ (Parser.current_eq _ _)]
  simp [stops]
  rfl

/-- What is read without an operator is an operand of every binary one. -/
theorem unary (read : Parses (Parser.postfixed nest) scope words following node)
    (unsigned : Parser.unaryOp? (firstKind (words ++ following)) = none)
    (stops : firstKind following ≠ .punct .power) :
    Parses (Parser.unary nest) scope words following node := by
  have power : Parses (Parser.power nest) scope words following node := by
    refine read.ends fun token rest same => ?_
    rw [Parser.bind_ok _ (Parser.eat_other fun here : token.kind = _ => stops (same ▸ here))]
    rfl
  refine kind ?_
  rw [unsigned]
  exact power

/-- An integer literal is an operand. -/
theorem operand (literal : IntegerText)
    (noCall : firstKind following ∉ [.punct .dot, .punct .safeDot, .punct .scope, .punct .openBracket])
    (noPower : firstKind following ≠ .punct .power) :
    Parses (Parser.unary nest) scope [Word.integer literal] following (.integer literal.value) :=
  ((integer literal).postfixed noCall).unary rfl noPower

theorem binary (read : Parses (Parser.unary nest) scope words following node)
    (stops : Precedence.ofKind? (firstKind following) = none) (above : Precedence) :
    Parses (Parser.binary nest above) scope words following node := by
  refine read.ends fun token rest same => Parser.chain_none ?_
  unfold Parser.binaryStep
  rw [Parser.bind_ok _ (Parser.kind_eq _ _), Cursor.token_ofTokens, same, stops]
  rfl

theorem negation (read : Parses (Parser.unary nest) scope words following node)
    (positive : firstKind (words ++ following) ≠ .keyword .notKw)
    (stops : EndsOperand (firstKind following)) :
    Parses (Parser.negation nest) scope words following node := by
  have range : Parses (Parser.range nest) scope words following node := by
    refine (read.binary stops.noBinary .lowest).ends fun token rest same => ?_
    have other := stops.noRange
    rw [← same] at other
    simp only [List.mem_cons, List.not_mem_nil, or_false, not_or] at other
    rw [Parser.bind_ok _ (Parser.kind_eq _ _), Cursor.token_ofTokens]
    simp [other]
    rfl
  exact eat_other positive range

theorem weakLogical (read : Parses (Parser.negation nest) scope words following node)
    (stops : firstKind following ∉ [.keyword .andKw, .keyword .orKw]) :
    Parses (Parser.weakLogical nest) scope words following node :=
  read.ends fun _ _ same => Parser.chain_none (weakLogicalStep_none node (same ▸ stops))

theorem ternary (read : Parses (Parser.weakLogical nest) scope words following node)
    (stops : firstKind following ≠ .punct .question) :
    Parses (Parser.ternary nest) scope words following node := by
  refine read.ends fun token rest same => ?_
  rw [Parser.bind_ok _ (Parser.eat_other fun here : token.kind = _ => stops (same ▸ here))]
  rfl

theorem assignment (read : Parses (Parser.ternary nest) scope words following node)
    (stops : (firstKind following).isAssignment = false) :
    Parses (Parser.assignment nest) scope words following node := by
  refine read.ends fun token rest same => ?_
  rw [Parser.bind_ok _ (Parser.kind_eq _ _), Cursor.token_ofTokens, same, stops]
  rfl

/-- An operand is a conditional where nothing goes on with one. -/
theorem ternary_of_unary (read : Parses (Parser.unary nest) scope words following node)
    (positive : firstKind (words ++ following) ≠ .keyword .notKw)
    (stops : EndsTernary (firstKind following)) :
    Parses (Parser.ternary nest) scope words following node :=
  ((read.negation positive stops.toEndsOperand).weakLogical stops.noWeak).ternary stops.noQuestion

/-- An operand is an expression where nothing goes on with one. -/
theorem expression_of_unary (read : Parses (Parser.unary nest) scope words following node)
    (positive : firstKind (words ++ following) ≠ .keyword .notKw)
    (stops : EndsValue (firstKind following)) :
    Parses (Parser.atLevel nest .expression) scope words following node :=
  (read.ternary_of_unary positive stops.toEndsTernary).assignment stops.noAssignment

section Integers

variable (literal : IntegerText)

theorem expression_integer (stops : EndsValue (firstKind following)) :
    Parses (Parser.atLevel nest .expression) scope [.integer literal] following
      (.integer literal.value) :=
  (operand literal stops.noCall stops.noPower).expression_of_unary (by simp) stops

end Integers

end Parses

/-- A sentence is a program of the one expression that all its words are read as. -/
theorem parse_sentence {options : Options} {node : Node} (begins : BeginsStatement (firstKind words))
    (reads : ∀ fault, Parses (Parser.nested options.maxDepth .expression)
      { limit := options.maxDepth, fault } words [] node) :
    parse (String.ofList (sentence words)) options = .ok [node] := by
  cases words with
  | nil => exact absurd (.inl rfl) begins.begins
  | cons word words =>
    obtain ⟨token, tokens, scanned, wording⟩ := scan_sentence word words
    have whole : Wording (word :: words ++ []) token tokens := by rwa [List.append_nil]
    obtain ⟨last, rest, ended, read⟩ :=
      reads (scan (String.ofList (sentence (word :: words)))).2 token tokens whole
    have begins : BeginsStatement token.kind := (kind_of_wording wording) ▸ begins
    have program : parseTokens (token :: tokens)
        (scan (String.ofList (sentence (word :: words)))).2 options.maxDepth = .ok [node] :=
      congrArg (Except.map Prod.fst) (program_of_expression begins (kind_of_wording ended) read)
    unfold parse
    simp only [scanned, program]
    rfl

end RubySyntax.Grammar
