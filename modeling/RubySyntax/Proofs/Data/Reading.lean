import RubySyntax.Proofs.Data.Datum
import RubySyntax.Proofs.Grammar.Arguments
import RubySyntax.Proofs.Grammar.Command
import RubySyntax.Proofs.Grammar.OperatorChain

namespace RubySyntax.Grammar

open RubySyntax.Tree (Node HashPair)
open Token (Kind Punct Keyword)
open Grammar.Parser

theorem Cursor.eq_ofTokens {cursor : Cursor} {first : Token} {rest : List Token}
    (same : cursor.tokens = first :: rest) : cursor = .ofTokens first rest := by
  obtain ⟨_, _, _, rfl⟩ := cursor
  obtain ⟨rfl, rfl⟩ := List.cons.inj same
  rfl

inductive BeginsDatum : Kind → Prop where
  | literal (kind : Token.LiteralKind) : BeginsDatum (.literal kind)
  | truth (value : Bool) : BeginsDatum (.keyword (if value then .trueKw else .falseKw))
  | null : BeginsDatum (.keyword .nilKw)
  | array : BeginsDatum (.punct .openBracket)
  | hash : BeginsDatum (.punct .openBrace)

theorem BeginsDatum.ne {kind other : Kind} (begins : BeginsDatum kind)
    (further : ¬ BeginsDatum other) : kind ≠ other := fun same => further (same ▸ begins)

theorem BeginsDatum.plain {kind : Kind} (begins : BeginsDatum kind) : BeginsPlain kind := by
  cases begins with
  | literal kind => exact beginsPlain_literal kind
  | truth value =>
    cases value
    · exact ⟨by decide, by decide, rfl, by decide, by decide⟩
    · exact ⟨by decide, by decide, rfl, by decide, by decide⟩
  | null => exact ⟨by decide, by decide, rfl, by decide, by decide⟩
  | array => exact ⟨by decide, by decide, rfl, by decide, by decide⟩
  | hash => exact ⟨by decide, by decide, rfl, by decide, by decide⟩

/-- In front of whatever ends an expression the tokens are read as the node, with more
levels of nesting than its height. -/
structure Spells (node : Node) (height : Nat) (tokens : List Token) : Prop where
  begins : ∃ first rest, tokens = first :: rest ∧ BeginsDatum first.kind
  reads {depth : Nat} {scope : Scope} {cursor : Cursor} {next : Token} {more : List Token} :
    height < depth → EndsExpression next.kind → cursor.tokens = tokens ++ next :: more →
      nested depth .expression scope cursor = .ok (node, .ofTokens next more)

/-- The tokens of several items with commas between them. -/
inductive Listed {α : Type} (fits : α → List Token → Prop) : List α → List Token → Prop where
  | none : Listed fits [] []
  | last {value : α} {tokens : List Token} (item : fits value tokens) : Listed fits [value] tokens
  | more {value next : α} {values : List α} {mark : Token} {tokens rest : List Token}
      (item : fits value tokens) (comma : mark.kind = .punct .comma)
      (others : Listed fits (next :: values) rest) :
      Listed fits (value :: next :: values) (tokens ++ mark :: rest)

theorem Listed.map {α β : Type} {f : α → β} {fits : β → List Token → Prop} {values : List α}
    {tokens : List Token} (listed : Listed (fun value => fits (f value)) values tokens) :
    Listed fits (values.map f) tokens := by
  induction listed with
  | none => exact .none
  | last item => exact .last item
  | more item comma _ ih => exact .more item comma ih

theorem Listed.imp {α : Type} {fits kept : α → List Token → Prop} {values : List α}
    {tokens : List Token} (listed : Listed fits values tokens)
    (holds : ∀ value tokens, fits value tokens → kept value tokens) : Listed kept values tokens := by
  induction listed with
  | none => exact .none
  | last item => exact .last (holds _ _ item)
  | more item comma _ ih => exact .more (holds _ _ item) comma ih

/-- One item in front of a closing token. -/
def Parser.itemStep {β : Type} (close : Punct) (item : Parser β) (comma : Parser Bool) :
    Parser (Item β) := do
  skipNewLines
  if ← isAt close then return .stop
  let item ← item
  skipNewLines
  if ← comma then return .more item
  return .last item

/-- Items are read one by one, up to commas and to the token that closes them. -/
structure ReadsItems {α β : Type} (fits : α → List Token → Prop) (close : Punct) (made : α → β)
    (scope : Scope) (item : Parser β) (comma : Parser Bool) : Prop where
  begins {value : α} {tokens : List Token} : fits value tokens →
    ∃ first rest, tokens = first :: rest ∧ BeginsDatum first.kind
  closes : ¬ BeginsDatum (.punct close) ∧ close ≠ .comma
  item {value : α} {tokens more : List Token} {mark : Token} {cursor : Cursor} :
    fits value tokens → mark.kind = .punct close ∨ mark.kind = .punct .comma →
      cursor.tokens = tokens ++ mark :: more → item scope cursor = .ok (made value, .ofTokens mark more)
  last {cursor : Cursor} :
    cursor.token.kind ≠ .punct .comma → comma scope cursor = .ok (false, cursor)
  more {mark next : Token} {more : List Token} :
    mark.kind = .punct .comma → next.kind ≠ .unknown → next.kind ≠ .newLine →
      comma scope (.ofTokens mark (next :: more)) = .ok (true, .ofTokens next more)

variable {nest : Nest} {scope : Scope} {cursor : Cursor} {first mark next token : Token}
  {rest more tokens others : List Token} {node : Node} {height bound depth : Nat}

theorem EndsExpression.known {kind : Kind} (ends : EndsExpression kind) : kind ≠ .unknown :=
  ends.ne (by rintro ⟨⟩)

theorem Spells.of_primary (begins : BeginsDatum first.kind)
    (reads : ∀ {depth scope next more}, height ≤ depth → EndsExpression next.kind →
      primary (nested depth) scope (.ofTokens first (rest ++ next :: more)) =
        .ok (node, .ofTokens next more)) : Spells node height (first :: rest) where
  begins := ⟨first, rest, rfl, begins⟩
  reads := by
    intro depth scope cursor next more deep ends here
    obtain rfl := Cursor.eq_ofTokens here
    cases depth with
    | zero => cases deep
    | succ depth => exact expression_of_primary ends begins.plain (reads (Nat.le_of_lt_succ deep) ends)

theorem Spells.weaken (spells : Spells node height tokens) (le : height ≤ bound) :
    Spells node bound tokens where
  begins := spells.begins
  reads deep := spells.reads (Nat.lt_of_le_of_lt le deep)

/-- What the tokens begin with is the current token. -/
theorem Spells.here (spells : Spells node height tokens) (here : cursor.tokens = tokens ++ more) :
    BeginsDatum cursor.token.kind := by
  obtain ⟨first, rest, rfl, begins⟩ := spells.begins
  rwa [(List.cons.inj here).1]

section Atoms

structure IsAtom (atom : Atom) (token : Token) : Prop where
  kind : token.kind = atom.lexeme.kind
  text : token.text = String.ofList atom.lexeme.text

theorem digitsFrom_eq (digits : List Char) (value : Nat) :
    Number.digitsFrom value digits = Nat.ofDigitChars 10 digits value := by
  induction digits generalizing value with
  | nil => rfl
  | cons c digits ih => exact (ih _).trans Nat.ofDigitChars_cons.symm

def IntegerText.ofValue (value : Nat) (within : value ≤ Number.maxInteger) : IntegerText where
  chars := Nat.toDigits 10 value
  value := value
  leads := by
    have digits (c : Char) (member : c ∈ Nat.toDigits 10 value) : c.isDigit = true :=
      Nat.isDigit_of_mem_toDigits (by decide) (by decide) member
    obtain ⟨c, rest, split⟩ := List.exists_cons_of_ne_nil (@Nat.toDigits_ne_nil value 10)
    rw [split] at digits ⊢
    exact digits c List.mem_cons_self
  digits := by
    refine List.all_eq_true.mpr fun c member => ?_
    have digit : c.isDigit = true := Nat.isDigit_of_mem_toDigits (by decide) (by decide) member
    rw [Text.isDigitOrSeparator, Text.isDigit, digit, Bool.true_or]
  within := by
    have digits (c : Char) (member : c ∈ Nat.toDigits 10 value) : c.isDigit = true :=
      Nat.isDigit_of_mem_toDigits (by decide) (by decide) member
    have whole : Number.withoutSeparators (Nat.toDigits 10 value) = Nat.toDigits 10 value := by
      refine List.filter_eq_self.mpr fun c member => ?_
      have digit := digits c member
      rw [bne_iff_ne]
      rintro rfl
      cases digit
    have some : (Nat.toDigits 10 value).isEmpty = false :=
      List.isEmpty_eq_false_iff.mpr Nat.toDigits_ne_nil
    have all : (Nat.toDigits 10 value).all Text.isDigit = true := List.all_eq_true.mpr digits
    have decoded : Number.ofDigits (Nat.toDigits 10 value) = value :=
      (digitsFrom_eq _ 0).trans (Nat.ofDigitChars_toDigits (by decide) (by decide))
    simp [Number.integerOf, whole, some, all, decoded, within]

theorem primary_atom {atom : Atom} (isAtom : IsAtom atom token) (known : next.kind ≠ .unknown)
    (more : List Token) : primary nest scope (.ofTokens token (next :: more)) =
      .ok (atom.node, .ofTokens next more) := by
  obtain ⟨kind, text⟩ := isAtom
  have moved : advance scope (.ofTokens token (next :: more)) = .ok (token, .ofTokens next more) :=
    advance_ofTokens known more
  have leaf (node : Node) : leaf node scope (.ofTokens token (next :: more)) =
      .ok (node, .ofTokens next more) := bind_ok _ (discard_ok moved)
  unfold primary
  rw [bind_ok _ (kind_eq _ _), Cursor.token_ofTokens, kind]
  cases atom with
  | integer value within =>
    have operand : IsOperand (.ofValue value within) token := ⟨kind, text⟩
    exact integer_eq operand known more
  | string chars =>
    refine (bind_ok _ moved).trans ?_
    rw [text]
    rfl
  | symbol name =>
    refine (bind_ok _ moved).trans ?_
    rw [text]
    rfl
  | boolean value =>
    cases value
    · exact leaf _
    · exact leaf _
  | null => exact leaf _

theorem IsAtom.begins {atom : Atom} (isAtom : IsAtom atom token) : BeginsDatum token.kind := by
  rw [isAtom.kind]
  cases atom with
  | boolean value =>
    cases value
    · exact .truth false
    · exact .truth true
  | null => exact .null
  | _ => exact .literal _

theorem Spells.atom {atom : Atom} (isAtom : IsAtom atom token) : Spells atom.node 0 [token] :=
  .of_primary isAtom.begins fun _ ends => primary_atom isAtom ends.known _

end Atoms

section Items

variable {α β : Type} {fits : α → List Token → Prop} {close : Punct} {made : α → β}
  {item : Parser β} {comma : Parser Bool} {value : α} {values : List α}

theorem ReadsItems.stop (closes : cursor.token.kind = .punct close) :
    itemStep close item comma scope cursor = .ok (.stop, cursor) := by
  have inLine : cursor.token.kind ≠ .newLine := by
    rw [closes]
    exact nofun
  unfold itemStep
  rw [bind_ok _ (skipNewLines_other inLine), bind_ok _ (isAt_here closes)]
  rfl

/-- Behind an item the comma decides. -/
theorem ReadsItems.step (reads : ReadsItems fits close made scope item comma)
    (fit : fits value tokens) (ends : mark.kind = .punct close ∨ mark.kind = .punct .comma)
    (here : cursor.tokens = tokens ++ mark :: more) :
    itemStep close item comma scope cursor = (do
      if ← comma then return .more (made value)
      return .last (made value) : Parser (Item β)) scope (.ofTokens mark more) := by
  obtain ⟨first, rest, rfl, begins⟩ := reads.begins fit
  rw [← (List.cons.inj here).1] at begins
  have inLine : mark.kind ≠ .newLine := by
    rcases ends with closes | comma
    · rw [closes]
      exact nofun
    · rw [comma]
      exact nofun
  unfold itemStep
  rw [bind_ok _ (skipNewLines_other (begins.ne (by rintro ⟨⟩))),
    bind_ok _ (isAt_other (begins.ne reads.closes.1)), if_neg Bool.false_ne_true,
    bind_ok _ (reads.item fit ends here), bind_ok _ (skipNewLines_other inLine)]

theorem ReadsItems.leads (reads : ReadsItems fits close made scope item comma)
    (listed : Listed fits (value :: values) tokens) :
    ∃ first rest, tokens = first :: rest ∧ BeginsDatum first.kind := by
  cases listed with
  | last fit => exact reads.begins fit
  | more fit _ _ =>
    obtain ⟨first, rest, rfl, begins⟩ := reads.begins fit
    exact ⟨first, _, rfl, begins⟩

theorem ReadsItems.list (reads : ReadsItems fits close made scope item comma)
    (listed : Listed fits values tokens) (closes : mark.kind = .punct close)
    (here : cursor.tokens = tokens ++ mark :: more) :
    Parser.list (itemStep close item comma) scope cursor =
      .ok (values.map made, .ofTokens mark more) := by
  induction listed generalizing cursor with
  | none =>
    obtain rfl := Cursor.eq_ofTokens here
    exact list_stop (ReadsItems.stop closes)
  | last fit =>
    have single : mark.kind ≠ .punct .comma := by
      rw [closes]
      exact fun same => reads.closes.2 (Kind.punct.inj same)
    refine list_last ?_
    rw [reads.step fit (.inl closes) here, bind_ok _ (reads.last single)]
    rfl
  | @more value next values separator tokens rest fit isComma others ih =>
    obtain ⟨first, behind, rfl, begins⟩ := reads.leads others
    have there : cursor.tokens = tokens ++ separator :: first :: (behind ++ mark :: more) := by
      rw [here]
      simp
    have step : itemStep close item comma scope cursor =
        .ok (.more (made value), .ofTokens first (behind ++ mark :: more)) := by
      rw [reads.step fit (.inr isComma) there,
        bind_ok _ (reads.more isComma begins.plain.known (begins.ne (by rintro ⟨⟩)))]
      rfl
    refine list_more step ?_ (ih rfl)
    have count := congrArg List.length there
    rw [cursor.remaining_eq]
    simp only [Cursor.tokens, List.length_cons, List.length_append] at count
    show (behind ++ mark :: more).length < _
    rw [List.length_append, List.length_cons]
    omega

/-- The items begin behind the token that opens them. -/
theorem ReadsItems.enter (reads : ReadsItems fits close made scope item comma)
    (listed : Listed fits values tokens) (known : mark.kind ≠ .unknown) (opening : Token) :
    ∃ start, start.tokens = tokens ++ mark :: more ∧
      discard advance scope' (.ofTokens opening (tokens ++ mark :: more)) = .ok ((), start) := by
  obtain ⟨first, behind, split, known⟩ : ∃ first behind,
      tokens ++ mark :: more = first :: behind ∧ first.kind ≠ .unknown := by
    cases values with
    | nil =>
      cases listed
      exact ⟨mark, more, rfl, known⟩
    | cons value values =>
      obtain ⟨first, rest, rfl, begins⟩ := reads.leads listed
      exact ⟨first, _, rfl, begins.plain.known⟩
  rw [split]
  exact ⟨.ofTokens first behind, rfl, discard_ok (advance_ofTokens known behind)⟩

end Items

section Arrays

theorem Spells.argument (spells : Spells node height tokens) (deep : height < depth)
    (ends : EndsExpression mark.kind) (unkeyed : mark.kind ≠ .punct .hashArrow)
    (here : cursor.tokens = tokens ++ mark :: more) :
    argument (nested depth) scope cursor = .ok (.positional node, .ofTokens mark more) := by
  have begins := spells.here here
  have value : splatOrExpression (nested depth) scope cursor = .ok (node, .ofTokens mark more) :=
    (splatOrExpression_eq begins.plain.single).trans (spells.reads deep ends here)
  rw [argument_eq (begins.ne (by rintro ⟨⟩)) (begins.ne (by rintro ⟨⟩)), plainArgument,
    bind_ok _ value, bind_ok _ (eat_other unkeyed)]
  rfl

theorem argument_readsItems (deep : bound < depth) (scope : Scope) :
    ReadsItems (fun node => Spells node bound) .closeBracket Argument.positional scope
      (argument (nested depth)) eatComma where
  begins spells := spells.begins
  closes := ⟨by rintro ⟨⟩, by decide⟩
  item := by
    intro node tokens more mark cursor spells ends here
    rcases ends with closes | comma
    · exact spells.argument deep (closes ▸ .closeBracket) (by rw [closes]; decide) here
    · exact spells.argument deep (comma ▸ .comma) (by rw [comma]; decide) here
  last := eatComma_other
  more := eatComma_ofTokens

theorem passed_positionals (nodes : List Node) :
    Argument.passed (nodes.map .positional) = nodes := by
  have passed := Arguments.passed_trailing nodes []
  simpa using passed

/-- Brackets around the tokens of nodes spell an array. -/
theorem Spells.array {nodes : List Node} {opening closing : Token}
    (opens : opening.kind = .punct .openBracket)
    (listed : Listed (fun node => Spells node bound) nodes tokens)
    (closes : closing.kind = .punct .closeBracket) :
    Spells (.array nodes) (bound + 1) (opening :: (tokens ++ [closing])) := by
  refine .of_primary (opens ▸ .array) fun {depth scope next more} deep ends => ?_
  have known : closing.kind ≠ .unknown := by
    rw [closes]
    exact nofun
  have reads := argument_readsItems (Nat.lt_of_succ_le deep) { scope with noDo := false }
  obtain ⟨start, here, entered⟩ := reads.enter listed known opening
  have inside : withNoDo false (list (itemStep .closeBracket (Parser.argument (nested depth))
      eatComma)) scope start = .ok (nodes.map .positional, .ofTokens closing (next :: more)) :=
    reads.list listed closes here
  have elements : closedArguments (nested depth) .closeBracket scope start =
      .ok (nodes, .ofTokens next more) := by
    refine (bind_ok _ inside).trans ?_
    rw [bind_ok _ (discard_ok (expect_ofTokens closes ends.known)), passed_positionals]
    rfl
  unfold primary
  rw [bind_ok _ (kind_eq _ _), Cursor.token_ofTokens, opens, List.append_assoc]
  refine (bind_ok _ entered).trans ?_
  rw [bind_ok _ elements]
  rfl

end Arrays

section Hashes

inductive SpellsPair (bound : Nat) (pair : HashPair Node) : List Token → Prop where
  | intro {mark : Token} {tokens others : List Token} (key : Spells pair.key bound tokens)
      (arrow : mark.kind = .punct .hashArrow) (value : Spells pair.value bound others) :
      SpellsPair bound pair (tokens ++ mark :: others)

theorem SpellsPair.hashPair {pair : HashPair Node} (spells : SpellsPair bound pair tokens)
    (deep : bound < depth) (ends : EndsExpression mark.kind)
    (here : cursor.tokens = tokens ++ mark :: more) :
    hashPair (nested depth) scope cursor = .ok (pair, .ofTokens mark more) := by
  obtain ⟨key, isArrow, value⟩ := spells
  rename_i arrow tokens others
  obtain ⟨first, rest, rfl, begins⟩ := value.begins
  rw [List.append_assoc] at here
  have unlabelled := (key.here here).ne (show ¬ BeginsDatum .label by rintro ⟨⟩)
  have keyed : nested depth .expression scope cursor =
      .ok (pair.key, .ofTokens arrow (first :: (rest ++ mark :: more))) :=
    key.reads deep (isArrow ▸ .hashArrow) here
  have inLine : arrow.kind ≠ .newLine := by
    rw [isArrow]
    exact nofun
  have valued : keyedValue (nested depth) pair.key scope
      (.ofTokens first (rest ++ mark :: more)) = .ok (pair, .ofTokens mark more) := by
    unfold keyedValue
    rw [bind_ok _ (skipNewLines_other (begins.ne (by rintro ⟨⟩))), bind_ok _ (value.reads deep ends rfl)]
    rfl
  unfold Parser.hashPair
  rw [bind_ok _ (isAt_other unlabelled), if_neg Bool.false_ne_true, bind_ok _ keyed,
    bind_ok _ (skipNewLines_other inLine),
    bind_ok _ (discard_ok (expect_ofTokens isArrow begins.plain.known))]
  exact valued

theorem hashPair_readsItems (deep : bound < depth) (scope : Scope) :
    ReadsItems (SpellsPair bound) .closeBrace id scope (hashPair (nested depth))
      (eat Punct.comma) where
  begins := by
    rintro pair _ ⟨key, _, _⟩
    obtain ⟨first, rest, rfl, begins⟩ := key.begins
    exact ⟨first, _, rfl, begins⟩
  closes := ⟨by rintro ⟨⟩, by decide⟩
  item := by
    intro pair tokens more mark cursor spells ends here
    rcases ends with closes | comma
    · exact spells.hashPair deep (closes ▸ .closeBrace) here
    · exact spells.hashPair deep (comma ▸ .comma) here
  last := eat_other
  more here known _ := eat_ofTokens here known

/-- Braces around the tokens of pairs spell a hash. -/
theorem Spells.hash {pairs : List (HashPair Node)} {opening closing : Token}
    (opens : opening.kind = .punct .openBrace) (listed : Listed (SpellsPair bound) pairs tokens)
    (closes : closing.kind = .punct .closeBrace) :
    Spells (.hash pairs) (bound + 1) (opening :: (tokens ++ [closing])) := by
  refine .of_primary (opens ▸ .hash) fun {depth scope next more} deep ends => ?_
  have known : closing.kind ≠ .unknown := by
    rw [closes]
    exact nofun
  have reads := hashPair_readsItems (Nat.lt_of_succ_le deep) { scope with noDo := false }
  obtain ⟨start, here, entered⟩ := reads.enter listed known opening
  have inside : withNoDo false (list (itemStep .closeBrace (Parser.hashPair (nested depth))
      (eat Punct.comma))) scope start = .ok (pairs.map id, .ofTokens closing (next :: more)) :=
    reads.list listed closes here
  unfold primary
  rw [bind_ok _ (kind_eq _ _), Cursor.token_ofTokens, opens, List.append_assoc]
  refine (bind_ok _ entered).trans ((bind_ok _ inside).trans ?_)
  rw [bind_ok _ (discard_ok (expect_ofTokens closes ends.known)), List.map_id]
  rfl

end Hashes

/-- Tokens that spell a node and end there are a program of this node. -/
theorem program_of_spells (spells : Spells node height tokens) (deep : height < depth)
    (ended : token.kind = .endOfFile) (scope : Scope) (dummy : Token) :
    ∃ final, program depth scope (.ofTokens dummy (tokens ++ [token])) = .ok ([node], final) := by
  obtain ⟨first, rest, rfl, begins⟩ := spells.begins
  have read : nested depth .expression scope (.ofTokens first (rest ++ [token])) =
      .ok (node, .ofTokens token []) := spells.reads deep (ended ▸ .endOfFile) rfl
  exact ⟨_, program_of_expression begins.plain.beginsStatement ended read⟩

/-- A program that is one datum has the node of it. -/
theorem parseTokens_spells (spells : Spells node height tokens) (ended : token.kind = .endOfFile)
    (fault : Option Diagnostic.Report) (deep : height < maxDepth) :
    parseTokens (tokens ++ [token]) fault maxDepth = .ok [node] := by
  obtain ⟨final, read⟩ := program_of_spells spells deep ended _ _
  exact congrArg (Except.map Prod.fst) read

end RubySyntax.Grammar
