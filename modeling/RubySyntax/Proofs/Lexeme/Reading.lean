import RubySyntax.Proofs.Lexeme.Written

namespace RubySyntax.Lexeme

open Text
open Token (LiteralKind)

/-- How a lexeme comes to be read at the front of the input. -/
inductive ReadAs (context : Context) (input : List Char) (lexeme : Lexeme) : Prop
  | endOfInput (same : lexeme = { kind := .endOfFile, body := [] })
  | number (leads : input.head?.any isDigit = true) (same : lexeme = Lexeme.number input)
  | literal (kind : LiteralKind) (same : lexeme.kind = .literal kind)
      (other : kind ≠ .integer ∧ kind ≠ .float)
  | sigil (same : sigilVariable input = .ok lexeme)
  | name (leads : input.head?.any isIdentifierStart = true) (same : lexeme = Lexeme.name context input)
  | operator (same : Lexeme.operator input = .ok lexeme)

/-- A literal that is no number. -/
def Reading.Quotes (reading : Reading) : Prop :=
  ∀ lexeme, reading = .ok lexeme →
    ∃ kind, lexeme.kind = .literal kind ∧ kind ≠ .integer ∧ kind ≠ .float

theorem Reading.quotes_ok {lexeme : Lexeme} {kind : LiteralKind} (same : lexeme.kind = .literal kind)
    (other : kind ≠ .integer ∧ kind ≠ .float) : Reading.Quotes (.ok lexeme) := by
  intro _ read
  cases read
  exact ⟨kind, same, other⟩

theorem Reading.quotes_error (fault : Fault) : Reading.Quotes (.error fault) := by
  intro _ read
  cases read

theorem Reading.Quotes.ite {condition : Prop} [Decidable condition] {first second : Reading}
    (yes : first.Quotes) (no : second.Quotes) :
    Reading.Quotes (if condition then first else second) := by
  split
  · exact yes
  · exact no

theorem literal_quotes {kind : LiteralKind} (other : kind ≠ .integer ∧ kind ≠ .float)
    (opened : List Char) (frame : Frame) (message : Diagnostic.Message) (args : List String)
    (behind : List Char) : (Lexeme.literal kind opened frame message args behind).Quotes :=
  fun _ read => ⟨kind, literal_kind read, other⟩

theorem withOptions_quotes {reading : Reading} (quotes : reading.Quotes) (input : List Char) :
    Reading.Quotes (reading.map (withOptions input)) := by
  intro lexeme read
  cases reading with
  | error fault => cases read
  | ok plain =>
    cases read
    exact quotes plain rfl

theorem symbol_quotes (input : List Char) : (symbol input).Quotes := by
  have plain (body : List Char) :
      Reading.Quotes (.ok { kind := .literal .symbol, opening := [':'], body }) :=
    Reading.quotes_ok rfl (by decide)
  unfold symbol
  dsimp only
  split
  · exact plain []
  · refine .ite (literal_quotes (by decide) _ _ _ _ _) (.ite (.ite ?_ (plain _)) (.ite ?_ ?_))
    · exact Reading.quotes_error _
    · exact .ite (Reading.quotes_error _) (Reading.quotes_ok rfl (by decide))
    · exact .ite (plain _) (plain _)

theorem percentKind_quotes {letter : Option Char} {kind : LiteralKind}
    (found : percentKind letter = some (kind, interpolates)) : kind ≠ .integer ∧ kind ≠ .float := by
  unfold percentKind at found
  split at found
  all_goals cases found
  all_goals decide

theorem percent_quotes (input : List Char) : (percent input).Quotes := by
  unfold percent
  dsimp only
  split
  · exact Reading.quotes_error _
  · rename_i kind interpolates found
    split
    · exact Reading.quotes_error _
    · split
      · exact Reading.quotes_error _
      · have quotes := literal_quotes (percentKind_quotes found)
        exact .ite (withOptions_quotes (quotes _ _ _ _ _) input) (quotes _ _ _ _ _)

theorem ReadAs.of_quotes {reading : Reading} (quotes : reading.Quotes)
    (read : reading = .ok lexeme) : ReadAs context input lexeme := by
  obtain ⟨kind, same, other⟩ := quotes lexeme read
  exact .literal kind same other

theorem readAs_of_readFrom (found : readFrom context c (c :: rest) = .ok lexeme) :
    ReadAs context (c :: rest) lexeme := by
  unfold readFrom at found
  split at found
  · rename_i digit
    exact .number digit (Except.ok.inj found).symm
  iterate 3
    split at found
    · exact .of_quotes (literal_quotes (by decide) _ _ _ _ _) found
  split at found
  · exact .sigil found
  split at found
  · exact .of_quotes (symbol_quotes _) found
  split at found
  · refine .of_quotes ?_ found
    exact .ite (Reading.quotes_ok rfl (by decide)) (Reading.quotes_error _)
  split at found
  · exact .of_quotes (percent_quotes _) found
  split at found
  · exact .of_quotes (withOptions_quotes (literal_quotes (by decide) _ _ _ _ _) _) found
  split at found
  · rename_i start
    exact .name start (Except.ok.inj found).symm
  · exact .operator found

theorem heredocOpener_quotes {opener : HeredocOpener} (opened : heredocOpener input = .ok opener) :
    opener.kind ≠ .integer ∧ opener.kind ≠ .float := by
  unfold heredocOpener at opened
  dsimp only at opened
  split at opened
  · split at opened
    · split at opened
      · cases opened
        dsimp only
        split <;> decide
      · cases opened
    · cases opened
      exact ⟨nofun, nofun⟩
  · cases opened
    exact ⟨nofun, nofun⟩

theorem readAs_of_read {bodies : Option Pending}
    (found : read context offset pending input = .ok (lexeme, bodies)) :
    ReadAs context input lexeme := by
  obtain ⟨_, _, opened, _⟩ | ⟨_, _, ⟨_, same⟩ | ⟨c, rest, rfl, plain⟩⟩ := read_cases found
  · obtain ⟨opener, _, _, name, _, same, _⟩ := heredoc_eq_ok opened
    exact .literal opener.kind (by rw [same]) (heredocOpener_quotes name)
  · exact .endOfInput same
  · exact readAs_of_readFrom plain

theorem sigilVariable_kind (found : sigilVariable input = .ok lexeme) :
    lexeme.kind = .instanceVariable ∨ lexeme.kind = .classVariable ∨ lexeme.kind = .globalVariable := by
  unfold sigilVariable globalVariable at found
  dsimp only at found
  split at found
  · split at found
    · cases found
    · cases found
      exact .inr (.inr rfl)
  · split at found
    · cases found
      dsimp only
      split
      · exact .inr (.inl rfl)
      · exact .inl rfl
    · cases found

/-- A name with a single colon behind it is a label. -/
theorem name_cases (context : Context) (input : List Char) :
    name context input =
        { kind := .label, body := nameText input ++ [':'], text := nameText input } ∨
      name context input = { kind := nameKind context (nameText input), body := nameText input } := by
  unfold name
  dsimp only
  split
  · exact .inl rfl
  · exact .inr rfl

theorem nameKind_ne_literal (context : Context) (word : List Char) (kind : LiteralKind) :
    nameKind context word ≠ .literal kind := by
  unfold nameKind
  split
  · simp
  · split <;> simp

theorem operator_kind (found : operator input = .ok lexeme) :
    lexeme.kind = .semicolon ∨ ∃ p, lexeme.kind = .punct p := by
  unfold operator at found
  split at found
  · cases found
    exact .inl rfl
  · split at found
    · cases found
      exact .inr ⟨_, rfl⟩
    · cases found

variable {context : Context} {offset : Nat} {pending bodies : Option Pending}

/-- A numeric literal begins with a digit and is read as a number. -/
theorem number_of_read (found : read context offset pending input = .ok (lexeme, bodies))
    (numeric : lexeme.kind = .literal .integer ∨ lexeme.kind = .literal .float) :
    input.head?.any isDigit = true ∧ lexeme = number input := by
  have other {kind : Token.Kind} (same : lexeme.kind = kind) (apart : kind ≠ .literal .integer ∧
      kind ≠ .literal .float) : False := by
    rw [same] at numeric
    exact numeric.elim apart.1 apart.2
  cases readAs_of_read found with
  | endOfInput same => exact (other (congrArg Lexeme.kind same) (by simp)).elim
  | number leads same => exact ⟨leads, same⟩
  | literal kind same apart => exact (other same (by simpa using apart)).elim
  | sigil same =>
    rcases sigilVariable_kind same with kind | kind | kind
    all_goals exact (other kind (by simp)).elim
  | name _ same =>
    obtain label | word := name_cases context input
    · exact (other (congrArg Lexeme.kind (same.trans label)) (by simp)).elim
    · refine (other (congrArg Lexeme.kind (same.trans word)) ?_).elim
      exact ⟨nameKind_ne_literal _ _ _, nameKind_ne_literal _ _ _⟩
  | operator same =>
    obtain kind | ⟨p, kind⟩ := operator_kind same
    all_goals exact (other kind (by simp)).elim

/-- What has a fixed spelling, or is an identifier, is read as a name or as an operator. -/
theorem word_or_operator_of_read
    (found : read context offset pending input = .ok (lexeme, bodies))
    (plain : lexeme.kind = .identifier ∨ lexeme.kind.spelling? ≠ none) :
    (∃ word, lexeme = { kind := nameKind context word, body := word }) ∨
      operator input = .ok lexeme := by
  have other {kind : Token.Kind} (same : lexeme.kind = kind) (named : kind ≠ .identifier)
      (free : kind.spelling? = none) : False := by
    rw [same] at plain
    exact plain.elim named (absurd free)
  cases readAs_of_read found with
  | endOfInput same => exact (other (congrArg Lexeme.kind same) nofun rfl).elim
  | number _ same => exact (other (congrArg Lexeme.kind same) nofun rfl).elim
  | literal kind same _ => exact (other same nofun rfl).elim
  | sigil same =>
    rcases sigilVariable_kind same with kind | kind | kind
    all_goals exact (other kind nofun rfl).elim
  | name _ same =>
    obtain label | word := name_cases context input
    · exact (other (congrArg Lexeme.kind (same.trans label)) nofun rfl).elim
    · exact .inl ⟨_, same.trans word⟩
  | operator same => exact .inr same

end RubySyntax.Lexeme
