import RubySyntax.Proofs.Grammar.Command
import RubySyntax.Proofs.Grammar.Words
import RubySyntax.Proofs.Lexeme.Word

/-! Which of several calls a block belongs to, where each call is the argument of the one
in front of it. Braces belong to the innermost call; a `do` belongs to the outermost one,
or to the loop whose condition the calls are. -/
namespace RubySyntax

open Grammar
open RubySyntax.Tree (Node)
open Token (Kind Keyword Punct)

/-- A name that calls a method and makes no lambda of its block. -/
structure CommandName where
  chars : List Char
  named : Lexeme.IsName chars
  noKeyword : Keyword.ofSpelling? (String.ofList chars) = none
  noConstant : chars.head?.any Text.isConstantStart = false
  noLambda : String.ofList chars ≠ "lambda"
  noProc : String.ofList chars ≠ "proc"

namespace CommandName

def text (name : CommandName) : String := String.ofList name.chars

def word (name : CommandName) : Word where
  kind := .identifier
  chars := name.chars
  running := rfl
  noDot := by decide
  stops rest _ := Lexer.stops_name name.named rest
  reads context rest _ apart offset pending := by
    rw [Lexeme.read_name name.named (Word.endsName_apart apart),
      Lexeme.nameKind_identifier name.noKeyword name.noConstant]

theorem isCommandName {name : CommandName} (spelled : name.word.IsToken token) :
    IsCommandName token where
  kind := spelled.kind
  notLambda := by
    rw [spelled.text]
    exact name.noLambda
  notProc := by
    rw [spelled.text]
    exact name.noProc

theorem endsWithMark_eq (name : CommandName) : endsWithMark name.text = false := by
  unfold endsWithMark text
  rw [String.toList_ofList]
  cases last : name.chars.getLast? with
  | none => rfl
  | some c =>
    have part := List.all_eq_true.mp name.named.parts c (List.mem_of_getLast? last)
    refine Bool.eq_false_iff.mpr fun mark => ?_
    have either : c = '?' ∨ c = '!' := by simpa using mark
    rcases either with rfl | rfl
    · exact absurd part (by decide)
    · exact absurd part (by decide)

/-- What the name is where nothing makes a call of it. -/
def node (name : CommandName) : Node := .reference name.text

/-- The call of the name that carries a block. -/
def callWith (block : Tree.Block Node) (name : CommandName) : Node :=
  .call none name.text [] (some block)

end CommandName

def literalBlock (body : IntegerText) : Tree.Block Node := ⟨[], [.integer body.value]⟩

/-- Calls, each the argument of the one in front of it, and what is made of the last name. -/
def commandNode (innermost : CommandName → Node) : CommandName → List CommandName → Node
  | name, [] => innermost name
  | name, next :: names => .functionCall name.text [commandNode innermost next names]

/-- The arguments that names make behind the name of a call. -/
def argumentNodes : List CommandName → List Node
  | [] => []
  | name :: names => [commandNode CommandName.node name names]

def commandWords (names : List CommandName) : List Word := names.map CommandName.word

def doWords (body : IntegerText) : List Word := [.keyword .doKw, .integer body, .keyword .endKw]

def braceWords (body : IntegerText) : List Word :=
  [.mark .openBrace, .integer body, .mark .closeBrace]

section Names

variable {nest : Nest} {scope : Scope} {cursor : Cursor}

theorem startsBlock_brace (here : cursor.token.kind = .punct .openBrace) :
    Parser.startsBlock scope cursor = .ok (true, cursor) := by
  rw [Parser.startsBlock_eq, Parser.bind_ok _ (Parser.kind_eq _ _), here]
  rfl

theorem startsBlock_do (here : cursor.token.kind = .keyword .doKw) :
    Parser.startsBlock scope cursor = .ok (!scope.noDo, cursor) := by
  rw [Parser.startsBlock_eq, Parser.bind_ok _ (Parser.kind_eq _ _), here]
  rfl

/-- No argument begins with what may open a block. -/
theorem noArguments_of_opens
    (here : cursor.token.kind = .punct .openBrace ∨ cursor.token.kind = .keyword .doKw) :
    Parser.isAtGlued Punct.openParen scope cursor = .ok (false, cursor) ∧
      startsCommandArgument cursor.token = false := by
  rw [Parser.isAtGlued_eq, startsCommandArgument]
  rcases here with same | same <;> rw [same] <;> exact ⟨rfl, Bool.and_false _⟩

theorem plainIdentifier_block (name : String)
    (here : cursor.token.kind = .punct .openBrace ∨ cursor.token.kind = .keyword .doKw)
    (starts : Parser.startsBlock scope cursor = .ok (true, cursor)) :
    Parser.plainIdentifier nest name scope cursor =
      (Node.call none name [] <$> Parser.block nest : Parser Node) scope cursor := by
  obtain ⟨unglued, noArguments⟩ := noArguments_of_opens here
  unfold Parser.plainIdentifier Parser.callRest
  rw [Parser.bind_ok _ unglued, Parser.bind_ok _ (Parser.current_eq _ _), Parser.bind_ok _ starts]
  simp only [noArguments, Bool.or_true, if_true]
  rw [Parser.bind_ok _ unglued, Parser.bind_ok _ (Parser.current_eq _ _), noArguments]
  rfl

/-- A name in front of a `do` that something around it claims is a reference. -/
theorem plainIdentifier_claimed {name : String} (unmarked : endsWithMark name = false)
    (here : cursor.token.kind = .keyword .doKw) (claimed : scope.noDo = true) :
    Parser.plainIdentifier nest name scope cursor = .ok (.reference name, cursor) := by
  obtain ⟨unglued, noArguments⟩ := noArguments_of_opens (.inr here)
  unfold Parser.plainIdentifier
  rw [Parser.bind_ok _ unglued, Parser.bind_ok _ (Parser.current_eq _ _),
    Parser.bind_ok _ (startsBlock_do here), noArguments, claimed, unmarked]
  rfl

end Names

namespace Grammar.Parses

variable {scope : Scope} {nest : Nest} {words more following : List Word} {node : Node}

theorem last {α : Type} {step : Parser (Parser.Item α)} {value : α}
    (read : Parses step scope words following (.last value)) :
    Parses (Parser.list step) scope words following [value] := by
  intro token tokens wording
  obtain ⟨last, rest, left, read⟩ := read token tokens wording
  exact ⟨last, rest, left, Parser.list_last read⟩

/-- An expression is the only statement in front of what closes the statements. -/
theorem statements {close : Kind} (read : Parses (nest .expression) scope words following node)
    (begins : BeginsStatement (firstKind (words ++ following)))
    (unclosed : firstKind (words ++ following) ≠ close) (closed : firstKind following = close)
    (closes : close ∈ [.keyword .endKw, .punct .closeBrace]) :
    Parses (Parser.statements nest [close]) scope words following [node] := by
  have statement : Parses (Parser.statement nest) scope words following node := by
    have plain : Parses (Parser.plainStatement nest) scope words following node := by
      refine eat_other begins.single (read.ends fun token rest same => ?_)
      have other : token.kind ≠ .punct .comma := by
        rintro comma
        simp [← closed, ← same, comma] at closes
      rw [Parser.bind_ok _ (Parser.isAt_other other)]
      rfl
    refine plain.ends fun token rest same => Parser.chain_none ?_
    unfold Parser.modifier
    rw [Parser.bind_ok _ (Parser.kind_eq _ _), Cursor.token_ofTokens, same, closed]
    simp only [List.mem_cons, List.not_mem_nil, or_false] at closes
    rcases closes with rfl | rfl <;> rfl
  have noSeparator : (firstKind (words ++ following)).isSeparator = false :=
    Bool.eq_false_iff.mpr fun separator => begins.begins (.inr separator)
  have going : firstKind (words ++ following) ≠ .endOfFile := fun ended => begins.begins (.inl ended)
  refine Parses.last ?_
  refine look (fun token rest same => Parser.skipWhile_other (by simpa [same] using noSeparator)) ?_
  refine Parses.kind (Parses.kind ?_)
  rw [if_neg (by simp [going, unclosed])]
  refine statement.ends fun token rest same => ?_
  rw [Parser.bind_ok _ (Parser.kind_eq _ _), Cursor.token_ofTokens, same, closed]
  simp only [List.mem_cons, List.not_mem_nil, or_false] at closes
  rcases closes with rfl | rfl <;> rfl

/-- A literal is the whole of what stands in front of a closing word. -/
theorem literalBody (closing : Word) (body : IntegerText)
    (closes : closing.kind ∈ [.keyword .endKw, .punct .closeBrace]) :
    Parses (Parser.statements (Parser.nested (depth + 1)) [closing.kind]) scope [.integer body]
      ([closing] ++ following) [.integer body.value] := by
  have stops : EndsValue closing.kind := by
    simp only [List.mem_cons, List.not_mem_nil, or_false] at closes
    rcases closes with same | same <;> rw [same] <;> decide
  refine statements (.expression_integer body stops) (beginsPlain_literal .integer).beginsStatement
    ?_ rfl closes
  intro same
  simp [← same] at closes

theorem blockUpTo (opening closing : Word) (body : IntegerText)
    (closes : closing.kind ∈ [.keyword .endKw, .punct .closeBrace]) :
    Parses (Parser.blockUpTo (Parser.nested (depth + 1)) closing.kind) scope
      [opening, .integer body, closing] following (some (literalBlock body)) := by
  have params : ∀ token rest, token.kind = .literal .integer →
      Parser.blockParams scope (.ofTokens token rest) = .ok ([], .ofTokens token rest) := by
    intro token rest same
    unfold Parser.blockParams
    rw [Parser.bind_ok _ (Parser.eat_other (by simp [same])), if_neg Bool.false_ne_true,
      Parser.bind_ok _ (Parser.eat_other (by simp [same]))]
    rfl
  unfold Parser.blockUpTo
  refine (advance opening).bind ?_
  refine look params ?_
  refine (literalBody closing body closes).withNoDo.bind ?_
  refine (expect closing).bind ?_
  exact pure _

/-- Braces hold a block everywhere. -/
theorem braces (body : IntegerText) :
    Parses (Parser.block (Parser.nested (depth + 1))) scope (braceWords body) following
      (some (literalBlock body)) := by
  rw [Parser.block_eq]
  exact kind (blockUpTo (.mark .openBrace) (.mark .closeBrace) body (by decide))

/-- A `do` opens a block where no construct around it claims the word. -/
theorem doBlock (body : IntegerText) (free : scope.noDo = false) :
    Parses (Parser.block (Parser.nested (depth + 1))) scope (doWords body) following
      (some (literalBlock body)) := by
  rw [Parser.block_eq]
  refine kind (look (fun _ _ _ => rfl) ?_)
  rw [free]
  exact blockUpTo (.keyword .doKw) (.keyword .endKw) body (by decide)

/-- The argument of a command that is its only one. -/
theorem openArguments (read : Parses (nest .expression) scope words following node)
    (begins : BeginsPlain (firstKind (words ++ following)))
    (unlabelled : firstKind (words ++ following) ≠ .label)
    (unmarked : firstKind (words ++ following) ≠ .punct .ampersand)
    (stops : firstKind following ∉ [.punct .comma, .punct .hashArrow]) :
    Parses (Parser.openArguments nest) scope words following [node] := by
  simp only [List.mem_cons, List.not_mem_nil, or_false, not_or] at stops
  have argument : Parses (Parser.argument nest) scope words following (.positional node) := by
    intro token tokens wording
    have first := kind_of_wording wording
    rw [← first] at begins unlabelled unmarked
    obtain ⟨last, rest, left, read⟩ := read token tokens wording
    refine ⟨last, rest, left, ?_⟩
    have noArrow : last.kind ≠ .punct .hashArrow := kind_of_wording left ▸ stops.2
    rw [argument_eq unlabelled unmarked, Parser.plainArgument,
      Parser.bind_ok _ ((splatOrExpression_eq begins.single).trans read),
      Parser.bind_ok _ (Parser.eat_other noArrow)]
    rfl
  have arguments : Parses (Parser.commaSeparated (Parser.argument nest)) scope words following
      [.positional node] := by
    refine last (argument.ends fun token rest same => ?_)
    rw [Parser.bind_ok _ (Parser.eatComma_other fun comma => stops.1 (same ▸ comma))]
    rfl
  exact arguments.map Parser.Argument.passed

/-- A name in front of another is a command that takes what it is read as. -/
theorem command (name : CommandName) {block? : Option (Tree.Block Node)}
    (starts : firstKind words = .identifier)
    (read : Parses (nest .expression) { scope with noDo := true } words (more ++ following) node)
    (stops : firstKind (more ++ following) ∉ [.punct .comma, .punct .hashArrow])
    (block : Parses (Parser.block nest) scope more following block?) :
    Parses (Parser.primary nest) scope (name.word :: (words ++ more)) following
      (.call none name.text [node] block?) := by
  obtain _ | ⟨first, words⟩ := words
  · cases starts
  have begins : firstKind (first :: words ++ (more ++ following)) = .identifier := starts
  have arguments : Parses (Parser.openArguments nest) { scope with noDo := true } (first :: words)
      (more ++ following) [node] :=
    read.openArguments (by rw [begins]; exact beginsPlain_identifier) (by rw [begins]; decide)
      (by rw [begins]; decide) stops
  have called : Parses (do
      let args ← Parser.withNoDo true (Parser.openArguments nest)
      return Node.call none name.text args (← Parser.block nest)) scope (first :: words ++ more) following
      (Node.call none name.text [node] block?) :=
    arguments.withNoDo.bind (block.map fun block? => Node.call none name.text [node] block?)
  intro token tokens wording
  cases wording with
  | word here blank rest =>
    rename_i next others
    have kind : next.kind = .identifier := (kind_of_wording rest).trans starts
    have spaced : next.spacing.blankBefore = true := blank.resolve_left nofun
    have starts : startsCommandArgument next = true := by
      rw [startsCommandArgument, spaced, kind]
      rfl
    obtain ⟨last, behind, left, read⟩ := called _ _ rest
    refine ⟨last, behind, left, ?_⟩
    have text : token.text = name.text := here.text
    rw [primary_name (CommandName.isCommandName here) (known_of_wording rest),
      plainIdentifier_of_starts _ starts, callRest_of_starts _ starts, text]
    exact read

/-- A name in front of a block is a call with it. -/
theorem blockCall (name : CommandName) {opening : Word} {block : Tree.Block Node}
    (opens : opening.kind = .punct .openBrace ∨ opening.kind = .keyword .doKw ∧ scope.noDo = false)
    (read : Parses (Parser.block nest) scope (opening :: words) following (some block)) :
    Parses (Parser.primary nest) scope (name.word :: opening :: words) following
      (name.callWith block) := by
  have called := read.map (Node.call none name.text [])
  intro token tokens wording
  cases wording with
  | word here blank rest =>
    rename_i next others
    have kind : next.kind = opening.kind := kind_of_wording rest
    have text : token.text = name.text := here.text
    have starts : Parser.startsBlock scope (.ofTokens next others) =
        .ok (true, .ofTokens next others) := by
      rcases opens with brace | ⟨word, free⟩
      · exact startsBlock_brace (kind.trans brace)
      · rw [startsBlock_do (kind.trans word), free]
        rfl
    obtain ⟨last, behind, left, read⟩ := called _ _ rest
    refine ⟨last, behind, left, ?_⟩
    rw [primary_name (CommandName.isCommandName here) (known_of_wording rest),
      plainIdentifier_block _ (opens.imp kind.trans fun word => kind.trans word.1) starts, text]
    exact read

theorem reference (name : CommandName) (claimed : scope.noDo = true) :
    Parses (Parser.primary nest) scope [name.word] (.keyword .doKw :: following) name.node := by
  intro token tokens wording
  cases wording with
  | word here blank rest =>
    rename_i next others
    have text : token.text = name.text := here.text
    refine ⟨_, _, rest, ?_⟩
    rw [primary_name (CommandName.isCommandName here) (known_of_wording rest), text]
    exact plainIdentifier_claimed name.endsWithMark_eq (kind_of_wording rest) claimed

/-- Where nothing opens a block, or something around it claims the `do`, none is read. -/
theorem noBlock (stops : firstKind following = .endOfFile ∨
    firstKind following = .keyword .doKw ∧ scope.noDo = true) :
    Parses (Parser.block nest) scope [] following none := by
  rw [Parser.block_eq]
  refine kind ?_
  rw [List.nil_append]
  rcases stops with ended | ⟨word, claimed⟩
  · rw [ended]
    exact pure none
  · rw [word, if_pos rfl]
    refine look (fun _ _ _ => rfl) ?_
    rw [claimed]
    exact pure none

/-- What begins without a sign is an expression where nothing goes on with it. -/
theorem expression_of_primary (read : Parses (Parser.primary nest) scope words following node)
    (begins : BeginsPlain (firstKind (words ++ following))) (stops : EndsValue (firstKind following)) :
    Parses (Parser.atLevel nest .expression) scope words following node :=
  ((read.postfixed stops.noCall).unary begins.unsigned stops.noPower).expression_of_unary
    begins.positive stops

end Grammar.Parses

theorem endsValue_of_command {kind : Kind} (ends : kind = .endOfFile ∨ kind = .keyword .doKw) :
    EndsValue kind := by
  rcases ends with rfl | rfl <;> decide

section Commands

variable {scope : Scope} {tail following : List Word} {innermost : CommandName → Node}

/-- Where what follows the last name is known to be read with it, every name in front of
it is a command that takes the one behind it. -/
theorem parses_commands (claimed : scope.noDo = true)
    (ends : firstKind following = .endOfFile ∨ firstKind following = .keyword .doKw)
    (isLast : ∀ name : CommandName,
      Parses (Parser.primary (Parser.nested below)) scope (name.word :: tail) following (innermost name))
    (name : CommandName) (rest : List CommandName) :
    Parses (Parser.nested (below + (rest.length + 1)) .expression) scope
      (commandWords (name :: rest) ++ tail) following (commandNode innermost name rest) := by
  have stops := endsValue_of_command ends
  induction rest generalizing name with
  | nil => exact (isLast name).expression_of_primary beginsPlain_identifier stops
  | cons next rest ih =>
    -- Arguments are read where every `do` is claimed, which is the scope they stand in.
    have read : Parses (Parser.nested (below + (rest.length + 1)) .expression)
        { scope with noDo := true } (commandWords (next :: rest) ++ tail) ([] ++ following)
        (commandNode innermost next rest) := by
      rw [← claimed]
      exact ih next
    have called := Parses.command name rfl read
      (by rcases ends with same | same <;> simp [same]) (.noBlock (ends.imp_right (⟨·, claimed⟩)))
    rw [List.append_nil] at called
    exact called.expression_of_primary beginsPlain_identifier stops

/-- A `do` behind the condition of a loop is the loop's own. -/
theorem parses_loop (first : CommandName) (rest : List CommandName) (body : IntegerText)
    (below : Nat) (following : List Word) :
    Parses (Parser.primary (Parser.nested (below + (rest.length + 1)))) scope
      (.keyword .whileKw :: (commandWords (first :: rest) ++ doWords body)) following
      (.loop (commandNode CommandName.node first rest) [.integer body.value]) := by
  have condition : Parses (Parser.condition (Parser.nested (below + (rest.length + 1))) .doKw) scope
      (commandWords (first :: rest) ++ [.keyword .doKw])
      ([.integer body, .keyword .endKw] ++ following)
      (commandNode CommandName.node first rest) := by
    have read : Parses (Parser.nested (below + (rest.length + 1)) .expression)
        { scope with noDo := true } (commandWords (first :: rest) ++ [])
        ([.keyword .doKw] ++ ([.integer body, .keyword .endKw] ++ following))
        (commandNode CommandName.node first rest) :=
      parses_commands rfl (.inr rfl) (fun name => .reference name rfl) first rest
    rw [List.append_nil] at read
    refine read.withNoDo.bind ?_
    have eaten : Parses (discard (Parser.eat Keyword.doKw)) scope [.keyword .doKw]
        ([.integer body, .keyword .endKw] ++ following) () :=
      .single fun _ _ _ here known => Parser.discard_ok (Parser.eat_ofTokens here.kind known)
    exact eaten.ends fun _ _ _ => rfl
  have split : commandWords (first :: rest) ++ doWords body =
      commandWords (first :: rest) ++ [.keyword .doKw] ++ [.integer body, .keyword .endKw] := by
    rw [List.append_assoc]
    rfl
  refine Parses.kind (Parses.bind_token fun token here => ?_)
  rw [split]
  refine condition.bind ?_
  refine (Parses.literalBody (.keyword .endKw) body (by decide)).bind ?_
  refine (Parses.expect (.keyword .endKw)).bind ?_
  rw [here.kind]
  exact Parses.pure _

end Commands

section Programs

variable {options : Options} (first : CommandName) (rest : List CommandName) (body : IntegerText)

/-- A program of one expression that begins without a sign. -/
theorem parse_primary {words : List Word} {node : Node} (limit : options.maxDepth = depth + 1)
    (begins : BeginsPlain (firstKind words))
    (read : ∀ fault, Parses (Parser.primary (Parser.nested depth))
      { limit := options.maxDepth, fault } words [] node) :
    parse (String.ofList (sentence words)) options = .ok [node] := by
  refine parse_sentence begins.beginsStatement fun fault => ?_
  have expression := (read fault).expression_of_primary (by rwa [List.append_nil])
    (endsValue_of_command (.inl rfl))
  rw [limit] at expression ⊢
  exact expression

theorem parse_doBlock (deep : rest.length + 1 < options.maxDepth) :
    parse (String.ofList (sentence (commandWords (first :: rest) ++ doWords body))) options =
      .ok [.call none first.text (argumentNodes rest) (some (literalBlock body))] := by
  obtain ⟨below, limit⟩ : ∃ below, options.maxDepth = below + 1 + rest.length + 1 :=
    ⟨options.maxDepth - (rest.length + 2), by omega⟩
  refine parse_primary limit beginsPlain_identifier fun fault => ?_
  -- Only the first name stands where nothing claims the `do`; all others are its argument.
  cases rest with
  | nil => exact .blockCall first (.inr ⟨rfl, rfl⟩) (.doBlock body rfl)
  | cons next rest =>
    have read : Parses (Parser.nested (below + 1 + (rest.length + 1)) .expression)
        { limit := options.maxDepth, fault, noDo := true } (commandWords (next :: rest) ++ [])
        (doWords body ++ []) (commandNode CommandName.node next rest) :=
      parses_commands rfl (.inr rfl) (fun name => .reference name rfl) next rest
    rw [List.append_nil (commandWords _)] at read
    exact .command first rfl read (by simp [doWords]) (.doBlock body rfl)

theorem parse_braces (deep : rest.length + 1 < options.maxDepth) :
    parse (String.ofList (sentence (commandWords (first :: rest) ++ braceWords body))) options =
      .ok [commandNode (CommandName.callWith (literalBlock body)) first rest] := by
  obtain ⟨below, limit⟩ : ∃ below, options.maxDepth = below + 1 + rest.length + 1 :=
    ⟨options.maxDepth - (rest.length + 2), by omega⟩
  refine parse_primary limit beginsPlain_identifier fun fault => ?_
  cases rest with
  | nil => exact .blockCall first (.inl rfl) (.braces body)
  | cons next rest =>
    have read : Parses (Parser.nested (below + 1 + (rest.length + 1)) .expression)
        { limit := options.maxDepth, fault, noDo := true }
        (commandWords (next :: rest) ++ braceWords body) ([] ++ [])
        (commandNode (CommandName.callWith (literalBlock body)) next rest) :=
      parses_commands rfl (.inl rfl) (fun name => .blockCall name (.inl rfl) (.braces body)) next rest
    have called : Parses (Parser.primary (Parser.nested (below + 1 + (rest.length + 1))))
        { limit := options.maxDepth, fault } (first.word :: (_ ++ [])) [] _ :=
      .command first rfl read (by simp [firstKind]) (.noBlock (.inl rfl))
    rw [List.append_nil] at called
    exact called

theorem parse_loop (deep : rest.length + 1 < options.maxDepth) :
    parse (String.ofList (sentence
        (.keyword .whileKw :: (commandWords (first :: rest) ++ doWords body)))) options =
      .ok [.loop (commandNode CommandName.node first rest) [.integer body.value]] := by
  obtain ⟨below, limit⟩ : ∃ below, options.maxDepth = below + (rest.length + 1) + 1 :=
    ⟨options.maxDepth - (rest.length + 2), by omega⟩
  have begins : BeginsPlain (.keyword .whileKw) :=
    ⟨by decide, by decide, rfl, by decide, by decide⟩
  exact parse_primary limit begins fun fault => parses_loop first rest body below []

end Programs

/-- Behind calls that are each the argument of the one in front, a `do` opens the block of
the outermost call, and braces that of the innermost; behind the condition of a loop a `do`
opens the loop. -/
theorem parse_blockAttachment {options : Options} (first : CommandName) (rest : List CommandName)
    (body : IntegerText) (deep : rest.length + 1 < options.maxDepth) :
    parse (String.ofList (sentence (commandWords (first :: rest) ++ doWords body))) options =
      .ok [.call none first.text (argumentNodes rest) (some (literalBlock body))] ∧
    parse (String.ofList (sentence (commandWords (first :: rest) ++ braceWords body))) options =
      .ok [commandNode (CommandName.callWith (literalBlock body)) first rest] ∧
    parse (String.ofList (sentence
        (.keyword .whileKw :: (commandWords (first :: rest) ++ doWords body)))) options =
      .ok [.loop (commandNode CommandName.node first rest) [.integer body.value]] :=
  ⟨parse_doBlock first rest body deep, parse_braces first rest body deep,
    parse_loop first rest body deep⟩

theorem parse_blockAttachment_pair :
    parse "f g do 1 end" =
      .ok [.call none "f" [.reference "g"] (some ⟨[], [.integer 1]⟩)] ∧
    parse "f g \x7b 1 \x7d" =
      .ok [.functionCall "f" [.call none "g" [] (some ⟨[], [.integer 1]⟩)]] ∧
    parse "while f g do 1 end" =
      .ok [.loop (.functionCall "f" [.reference "g"]) [.integer 1]] :=
  let f : CommandName := ⟨['f'], ⟨by decide, by decide⟩, by decide, by decide, by decide, by decide⟩
  let g : CommandName := ⟨['g'], ⟨by decide, by decide⟩, by decide, by decide, by decide, by decide⟩
  parse_blockAttachment f [g] .one (by decide)

end RubySyntax
