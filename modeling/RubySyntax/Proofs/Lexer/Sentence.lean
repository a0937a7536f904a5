import RubySyntax.Proofs.Grammar.Climbing
import RubySyntax.Proofs.Lexer.Word

namespace RubySyntax

open Lexeme (Context IsName)
open Lexer (Stops Awaits)
open Token (Kind Keyword Punct)

/-- Characters that are read as one token wherever they stand apart, but behind a dot. -/
structure Word where
  kind : Kind
  chars : List Char
  running : kind.isTerminal = false
  noDot : kind ≠ .punct .dot ∧ kind ≠ .punct .safeDot
  stops : ∀ rest, Apart rest → Stops (chars ++ rest)
  reads : ∀ context rest, context.isAfterDot = false → Apart rest → ∀ offset pending,
    Lexeme.read context offset pending (chars ++ rest) = .ok ({ kind, body := chars }, pending)

/-- Words as they are written. -/
def sentence (words : List Word) : List Char := [' '].intercalate (words.map Word.chars)

namespace Word

theorem endsName_apart (apart : Apart rest) : Lexeme.EndsName rest := by
  obtain rfl | ⟨more, rfl⟩ := apart
  · exact ⟨rfl, rfl, rfl⟩
  · exact Lexeme.endsName_blank more

def integer (literal : Grammar.IntegerText) : Word where
  kind := .literal .integer
  chars := literal.chars
  running := rfl
  noDot := by decide
  stops rest _ := Lexer.stops_integer literal.leads rest
  reads context _ _ apart :=
    Lexeme.read_integer literal.leads literal.digits (Lexeme.endsNumber_apart apart) context

/-- A mark that no literal begins with, and no dot. -/
def mark (p : Punct) (plain : p.beginsLiteral = false := by decide)
    (noDot : p ≠ .dot ∧ p ≠ .safeDot := by decide) : Word where
  kind := .punct p
  chars := p.spelling.toList
  running := rfl
  noDot := by simpa using noDot
  stops _ := Lexer.stops_apart p
  reads context _ _ apart := Lexeme.read_apart plain apart context

def keyword (k : Keyword) (named : IsName k.spelling.toList := by exact ⟨by decide, by decide⟩) :
    Word where
  kind := .keyword k
  chars := k.spelling.toList
  running := rfl
  noDot := by simp
  stops rest _ := Lexer.stops_name named rest
  reads context rest noDot apart offset pending := by
    rw [Lexeme.read_name named (endsName_apart apart), Lexeme.nameKind_keyword k noDot]

@[simp] theorem kind_integer (literal : Grammar.IntegerText) :
    (integer literal).kind = .literal .integer := rfl

@[simp] theorem kind_mark (p : Punct) (plain : p.beginsLiteral = false)
    (noDot : p ≠ .dot ∧ p ≠ .safeDot) : (mark p plain noDot).kind = .punct p := rfl

@[simp] theorem kind_keyword (k : Keyword) (named : IsName k.spelling.toList) :
    (keyword k named).kind = .keyword k := rfl

structure IsToken (word : Word) (token : Token) : Prop where
  kind : token.kind = word.kind
  text : token.text = String.ofList word.chars

theorem IsToken.known {word : Word} {token : Token} (spelled : word.IsToken token) :
    token.kind ≠ .unknown := by
  intro unknown
  have running := word.running
  rw [← spelled.kind, unknown] at running
  cases running

end Word

/-- The tokens of words and of the end of the input. All but the first have a blank in
front of them. -/
inductive Wording : List Word → Token → List Token → Prop where
  | ended (last : token.kind = .endOfFile) : Wording [] token []
  | word (here : word.IsToken token) (blank : words = [] ∨ next.spacing.blankBefore = true)
      (rest : Wording words next tokens) : Wording (word :: words) token (next :: tokens)

theorem Wording.length (wording : Wording words token tokens) : tokens.length = words.length := by
  induction wording with
  | ended _ => rfl
  | word _ _ _ ih => rw [List.length_cons, List.length_cons, ih]

/-- Words behind others, each behind a blank. -/
def behindOthers (words : List Word) : List Char := words.flatMap fun word => ' ' :: word.chars

theorem sentence_cons (word : Word) (words : List Word) :
    sentence (word :: words) = word.chars ++ behindOthers words := by
  induction words generalizing word with
  | nil => simp [sentence, behindOthers]
  | cons next words ih =>
    have tail : [' '].intercalate ((next :: words).map Word.chars) = _ := ih next
    unfold sentence behindOthers
    rw [List.map_cons, List.map_cons, List.intercalate_cons_cons, ← List.map_cons, tail,
      List.flatMap_cons, List.append_assoc]
    rfl

theorem apart_behindOthers (words : List Word) : Apart (behindOthers words) := by
  cases words with
  | nil => exact .inl rfl
  | cons word words => exact .inr ⟨_, rfl⟩

namespace Lexer

variable {lexer : Lexer} {previous : Option Kind}

/-- The token of a word is handed out, and what follows the word is left. -/
theorem Awaits.word (word : Word) (awaits : lexer.Awaits previous (word.chars ++ rest))
    (running : previous.any Kind.isTerminal = false)
    (noDot : Context.isAfterDot ⟨previous, false⟩ = false) (apart : Apart rest) :
    ∃ token behind, lexer.next = (some token, behind) ∧ word.IsToken token ∧
      behind.scanner.ahead = rest ∧ behind.last = some word.kind ∧
      (lexer.scanner.ahead = ' ' :: (word.chars ++ rest) → token.spacing.blankBefore = true) := by
  have chars : Lexeme.chars { kind := word.kind, body := word.chars } = word.chars := by
    simp [Lexeme.chars]
  have stops := word.stops _ apart
  rw [← chars] at awaits stops
  obtain ⟨token, behind, hands, left, last, blank⟩ := awaits.handsOut running stops
    fun spaced offset pending => by
      rw [chars]
      exact word.reads ⟨previous, spaced⟩ _ noDot apart offset pending
  rw [chars] at blank
  exact ⟨token, behind, hands.read, ⟨hands.kind, hands.text⟩, left, last, blank⟩

/-- The lexer hands out the tokens of words one after the other. -/
theorem Awaits.run_words (word : Word) (words : List Word)
    (awaits : lexer.Awaits previous (word.chars ++ behindOthers words))
    (running : previous.any Kind.isTerminal = false)
    (noDot : Context.isAfterDot ⟨previous, false⟩ = false) :
    ∃ token tokens final, Run lexer (token :: tokens) final ∧ final.halted = true ∧
      Wording (word :: words) token tokens ∧
      (lexer.scanner.ahead = ' ' :: (word.chars ++ behindOthers words) →
        token.spacing.blankBefore = true) := by
  induction words generalizing lexer previous word with
  | nil =>
    obtain ⟨token, behind, read, spelled, left, last, blank⟩ :=
      awaits.word word running noDot (.inl rfl)
    have awaiting : behind.Awaits (some word.kind) [] := ⟨.inl left, last⟩
    obtain ⟨ending, final, ends, stopped⟩ := awaiting.ended word.running
    exact ⟨token, [ending], final, .more read (.more ends.read .done),
      halted_of_last stopped.last, .word spelled (.inl rfl) (.ended ends.kind), blank⟩
  | cons next words ih =>
    obtain ⟨token, behind, read, spelled, left, last, blank⟩ :=
      awaits.word word running noDot (apart_behindOthers _)
    have awaiting : behind.Awaits (some word.kind) (next.chars ++ behindOthers words) :=
      ⟨.inr left, last⟩
    have behindWord : Context.isAfterDot ⟨some word.kind, false⟩ = false := by
      simp [Context.isAfterDot, word.noDot]
    obtain ⟨second, tokens, final, run, halted, wording, spaced⟩ :=
      ih next awaiting word.running behindWord
    exact ⟨token, second :: tokens, final, .more read run, halted,
      .word spelled (.inr (spaced left)) wording, blank⟩

end Lexer

/-- A sentence has the tokens of its words. -/
theorem scan_sentence (word : Word) (words : List Word) :
    ∃ token tokens, (scan (String.ofList (sentence (word :: words)))).1 = token :: tokens ∧
      Wording (word :: words) token tokens := by
  rw [sentence_cons]
  have awaits := Lexer.ofSource_awaits (word.chars ++ behindOthers words)
  obtain ⟨token, tokens, final, run, halted, wording, _⟩ := awaits.run_words word words rfl rfl
  exact ⟨token, tokens, Lexer.scan_of_run run halted, wording⟩

end RubySyntax
