import RubySyntax.Proofs.Lexer.Joined
import RubySyntax.Proofs.Lexer.Prefixed

namespace RubySyntax.Lexer

open Text (byteLength)
open Token (Kind Spacing)

variable {lexer behind : Lexer} {previous : Option Kind}

/-- Where a token begins at the start of a line, no block comment does. -/
theorem AtToken.noBlock (begins : AtToken lexer) (start : lexer.atLineStart = true) :
    "=begin".toList.isPrefixOf lexer.scanner.ahead = false := by
  cases ahead : lexer.scanner.ahead with
  | nil => rfl
  | cons c rest =>
    exact Bool.eq_false_iff.mpr fun opens => begins.noPiece _ (.blockComment ahead start opens)

/-- What begins with a token at the start of a line does so everywhere. -/
theorem AtToken.stops (begins : AtToken lexer) (start : lexer.atLineStart = true) :
    Stops lexer.scanner.ahead := by
  intro other continued same
  have noBlock := begins.noBlock start
  cases ahead : lexer.scanner.ahead with
  | nil => exact skipTrivia_nil (same.trans ahead) continued
  | cons c rest =>
    have visible : ¬ Text.isBlank c = true := fun blank => begins.noPiece _ (.blank ahead blank)
    have inLine : ¬ Text.isLineBreak c = true := by
      intro feed
      obtain rfl : c = '\n' := by simpa [Text.isLineBreak] using feed
      exact begins.inLine rest ahead
    have noComment : ¬ c = '#' := by
      rintro rfl
      exact begins.noPiece _ (.comment continued ahead)
    have whole : ¬ continuation (c :: rest) ≠ 0 :=
      fun follows => begins.noPiece _ (.continuation (ahead ▸ follows))
    rw [ahead] at noBlock
    rw [skipTrivia_cons (same.trans ahead), if_neg visible, if_neg inLine, if_neg noComment,
      if_neg whole, noBlock, Bool.and_false, if_neg Bool.false_ne_true]

theorem Stops.atToken (stops : Stops lexer.scanner.ahead) : AtToken lexer := by
  obtain ⟨stop, _, ⟨place, skipped⟩ | ⟨_, skipped⟩⟩ := skipTrivia_cases false lexer
  · cases (stops lexer false rfl).symm.trans skipped
    exact place
  · cases (stops lexer false rfl).symm.trans skipped

/-- Where nothing is passed over and the text ahead is read the same, the next token is the
same up to the white space in front. -/
theorem next_restart_of_stops (spacing : Spacing) (stops : Stops lexer.scanner.ahead)
    (running : previous.any Kind.isTerminal = false)
    (same : ∀ offset pending input,
      Lexeme.read ⟨previous, spacing.isSpacedBefore⟩ offset pending input =
        Lexeme.read lexer.context offset pending input)
    (read : lexer.next = (some token, behind)) :
    ∃ other, (lexer.restart previous spacing).next =
      (some { token with spacing := other }, behind) := by
  have here : lexer.skipTrivia false = (none, lexer) := stops lexer false rfl
  have there : (lexer.restart previous spacing).skipTrivia false =
      (none, lexer.restart previous spacing) := stops _ false rfl
  have running' : (lexer.restart previous spacing).halted = false := running
  cases (next_of_token (running_of_next read) here).symm.trans read
  rw [next_of_token running' there, readToken_restart same]
  exact ⟨_, rfl⟩

/-- The first token of a source is the same behind other text, up to its place and the white
space in front. -/
theorem Stands.restart {source : String} {more : List Char} {spacing : Spacing} {here : Lexer}
    (stands : here.Stands more source.toList previous spacing)
    (begins : AtToken (ofSource source)) (running : previous.any Kind.isTerminal = false)
    (same : ∀ offset pending input,
      Lexeme.read ⟨previous, spacing.isSpacedBefore⟩ offset pending input =
        Lexeme.read ⟨none, false⟩ offset pending input)
    (read : (ofSource source).next = (some first, behind)) :
    ∃ other beyond, here.next =
        (some { first.moved (byteLength more) with spacing := other }, beyond) ∧
      Further more behind beyond := by
  obtain ⟨other, again⟩ := next_restart_of_stops spacing (begins.stops rfl) running same read
  have apart : Further more ((ofSource source).restart previous spacing) here := by
    refine ⟨⟨[], source.toList, fun _ => .inr (begins.noBlock rfl), rfl, ?_⟩, stands.last,
      stands.spacing, stands.pending⟩
    rw [List.append_nil]
    exact stands.place
  obtain ⟨token, beyond⟩ := apart.next
  rw [again] at token beyond
  exact ⟨other, here.next.2, Prod.ext token rfl, beyond⟩

/-- The tokens of a source that begins with a token, and those of the same source behind a
word and a blank. -/
theorem scan_behindWord {source word : String} (begins : AtToken (ofSource source))
    (named : Lexeme.IsName word.toList) {kind : Kind}
    (worded : Lexeme.nameKind ⟨none, false⟩ word.toList = kind) (running : kind.isTerminal = false)
    (same : ∀ offset pending input, Lexeme.read ⟨some kind, true⟩ offset pending input =
      Lexeme.read ⟨none, false⟩ offset pending input) :
    ∃ name first rest spacing, (scan source).1 = first :: rest ∧
      (scan (word ++ " " ++ source)).1 =
        name :: { first.moved (byteLength (word ++ " ").toList) with spacing } ::
          rest.map (Token.moved (byteLength (word ++ " ").toList)) ∧
      name.kind = kind := by
  have whole : (word ++ " " ++ source).toList = word.toList ++ ' ' :: source.toList := by simp
  have written : (word ++ " ").toList = [] ++ word.toList ++ [' '] := by simp
  have start := ofSource_stands (word ++ " " ++ source)
  rw [whole] at start
  obtain ⟨name, behindName, readName, nameKind, _, _, stands⟩ :=
    start.name rfl named (Lexeme.endsName_blank _)
  have nameKind : name.kind = kind := nameKind.trans worded
  rw [nameKind] at stands
  obtain ⟨here, passed, spaced⟩ := stands.blank rfl running
  obtain ⟨tokens, scanned⟩ : ∃ tokens, (scan source).1 = tokens := ⟨_, rfl⟩
  obtain ⟨final, run, halted⟩ := run_of_scan scanned
  cases run with
  | done => cases halted
  | @more first behind _ _ _ read _ =>
    obtain ⟨spacing, beyond, read', apart⟩ := spaced.restart begins running same read
    obtain ⟨rest, alone, prefixed, _⟩ := scan_of_further (.more read .done)
      (.more readName (.more (passed.trans read') .done)) apart
    rw [written]
    exact ⟨name, first, rest, spacing, alone, prefixed, nameKind⟩

end RubySyntax.Lexer
