import RubySyntax.Proofs.Grammar.Diagnostics
import RubySyntax.Proofs.Grammar.NestingLimit
import RubySyntax.Proofs.Grammar.Words
import RubySyntax.Proofs.Lexeme.Numeral
import RubySyntax.Proofs.Lexer.Prefixed
import RubySyntax.Proofs.Lexer.Spelling

namespace RubySyntax

open Diagnostic (Message ParseError)
open Grammar (IntegerText Parses)
open Number (IsDigits IsDecimal withoutSeparators maxInteger)
open Text (Span byteLength isDigit isDigitOrSeparator)

/-- The numbers of a source are digits and decimals, separators apart. -/
theorem scan_numbers (member : token ∈ (scan source).1) :
    (token.kind = .literal .integer → IsDigits (withoutSeparators token.text.toList)) ∧
      (token.kind = .literal .float → IsDecimal (withoutSeparators token.text.toList)) := by
  constructor
  · intro integer
    obtain ⟨_, _, _, _, _, _, read, kind, text⟩ := scan_reads member (by rw [integer]; rfl)
    rw [text]
    exact Lexeme.isDigits_of_read read (kind.symm.trans integer)
  · intro float
    obtain ⟨_, _, _, _, _, _, read, kind, text⟩ := scan_reads member (by rw [float]; rfl)
    rw [text]
    exact Lexeme.isDecimal_of_read read (kind.symm.trans float)

/-- No number of a source is malformed. -/
theorem not_malformed_of_scan (member : token ∈ (scan source).1) : ¬ token.Malformed := by
  obtain ⟨digits, decimal⟩ := scan_numbers member
  rintro (⟨kind, text⟩ | ⟨kind, text⟩)
  · rw [Number.integerOf_of_isDigits (digits kind)] at text
    split at text <;> cases text
  · have value := Number.floatOf?_isSome (decimal kind)
    rw [text] at value
    cases value

/-- A reading is never refused for a malformed number. -/
theorem code_ne_invalidNumber {options : Options} {error : ParseError}
    (failed : parse source options = .error error) :
    error.report.code ≠ Message.invalidNumber.code := by
  obtain ⟨fault, rfl, refused⟩ := parse_eq_error failed
  rw [ParseError.code_inFile]
  cases fault with
  | lexical report =>
    obtain ⟨_, below⟩ : 1000 ≤ report.code ∧ report.code < 1100 := (program_refused refused).1
    exact Nat.ne_of_lt (Nat.lt_trans below (by decide))
  | grammatical report =>
    obtain ⟨token, member, message, args, _, rfl, blamed⟩ :=
      (Grammar.program_blames options.maxDepth).refuses refused
    intro same
    have malformed := blamed (Message.code_injective same)
    rcases List.mem_cons.mp member with rfl | scanned
    · obtain ⟨⟨⟩, _⟩ | ⟨⟨⟩, _⟩ := malformed
    · exact not_malformed_of_scan scanned malformed

/-- Digits are one integer literal, and the end of the input is behind it. -/
theorem scan_digits {digits : List Char} (leads : digits.head?.any isDigit = true)
    (all : digits.all isDigitOrSeparator = true) :
    ∃ token last, (scan (String.ofList digits)).1 = [token, last] ∧
      token.kind = .literal .integer ∧ token.text = String.ofList digits ∧
      token.span = ⟨0, byteLength digits⟩ ∧ last.kind ≠ .unknown := by
  let lexeme : Lexeme := { kind := .literal .integer, body := digits }
  have chars : lexeme.chars ++ [] = digits := by simp [Lexeme.chars, lexeme]
  have start : (Lexer.ofSource (String.ofList digits)).Stands [] (lexeme.chars ++ []) none
      .unspaced := by
    have stands := Lexer.ofSource_stands (String.ofList digits)
    rw [String.toList_ofList] at stands
    rwa [chars]
  have stops := Lexer.stops_integer leads []
  have ends : Lexeme.EndsNumber [] := ⟨rfl, rfl, rfl⟩
  have reads := Lexeme.read_integer leads all ends ⟨none, Token.Spacing.unspaced.isSpacedBefore⟩
    (byteLength []) none
  rw [List.append_nil] at stops reads
  obtain ⟨behind, read, after⟩ := start.lexeme rfl (by rwa [chars]) (by rwa [chars])
  have awaits : behind.Awaits (some (.literal .integer)) [] := ⟨.inl after.place.ahead, after.last⟩
  obtain ⟨last, final, hands, ended⟩ := awaits.ended rfl
  have halted : final.halted = true := by
    rw [Lexer.halted, ended.last]
    rfl
  refine ⟨_, last, Lexer.scan_of_run (.more read (.more hands.read .done)) halted, rfl, rfl, ?_, ?_⟩
  · show Span.ofBounds 0 (byteLength digits) = _
    rfl
  · rw [hands.kind]
    decide

namespace Grammar

open Grammar.Parser

variable {digits : List Char} {options : Options}

/-- An integer literal in range is a program. -/
theorem parse_integer (literal : IntegerText) (deep : 0 < options.maxDepth) :
    parse (String.ofList literal.chars) options = .ok [.integer literal.value] := by
  obtain ⟨depth, same⟩ := Nat.exists_eq_succ_of_ne_zero (Nat.ne_of_gt deep)
  have alone : sentence [.integer literal] = literal.chars := by
    rw [sentence_cons]
    exact List.append_nil _
  rw [← alone]
  refine parse_sentence (beginsPlain_literal .integer).beginsStatement fun fault => ?_
  rw [same]
  exact Parses.expression_integer literal (by decide)

/-- An integer literal out of range is refused as a whole. -/
theorem parse_tooLarge (leads : digits.head?.any isDigit = true)
    (all : digits.all isDigitOrSeparator = true)
    (tooLarge : Number.integerOf digits = .error .tooLarge) (deep : 0 < options.maxDepth) :
    ∃ error, parse (String.ofList digits) options = .error error ∧
      error.report.code = Message.integerTooLarge.code ∧
      error.report.span = some ⟨0, byteLength digits⟩ := by
  obtain ⟨depth, same⟩ := Nat.exists_eq_succ_of_ne_zero (Nat.ne_of_gt deep)
  obtain ⟨token, last, scanned, kind, text, span, known⟩ := scan_digits leads all
  let scope : Scope := { limit := options.maxDepth, fault := (scan (String.ofList digits)).2 }
  let fault : ParseError := .grammatical (.raiseAt token.span .integerTooLarge [token.text])
  have value : Number.integerOf token.text.toList = .error .tooLarge := by
    rwa [text, String.toList_ofList]
  have primary : primary (nested depth) scope (.ofTokens token [last]) = .error fault := by
    rw [primary_eq, numberOr_eq, bind_ok _ (current_eq ..)]
    simp only [Cursor.token_ofTokens, kind]
    unfold Parser.integer
    rw [bind_ok _ (current_eq ..)]
    simp only [Cursor.token_ofTokens, value]
    rfl
  have refused : nested options.maxDepth .expression scope (.ofTokens token [last]) = .error fault := by
    rw [same]
    refine atLevel_of_refused ?_ ?_ primary .expression
    · rw [Cursor.token_ofTokens, kind]
      rfl
    · rw [Cursor.token_ofTokens, kind]
      decide
  have begins : BeginsStatement token.kind := kind ▸ (beginsPlain_literal .integer).beginsStatement
  refine ⟨fault.inFile options.fileName (.ofSource (String.ofList digits)), parse_of_refused ?_, rfl,
    congrArg some span⟩
  rw [scanned]
  exact program_of_refused begins refused

end Grammar

/-- A source of digits, the first one no separator, is the integer of their decimal value,
and is refused as a whole where the value is out of range. No source is ever refused for
a malformed number: every integer literal is digits and every other number a decimal,
separators apart. -/
theorem parse_numbers :
    (∀ (digits : String) (options : Options), digits.toList.head?.any isDigit = true →
      digits.toList.all isDigitOrSeparator = true → 0 < options.maxDepth →
      ∀ value, value = Nat.ofDigits 10 ((withoutSeparators digits.toList).reverse.map fun c =>
        c.toNat - '0'.toNat) →
        (value ≤ 2 ^ 63 - 1 → parse digits options = .ok [.integer value]) ∧
        (2 ^ 63 - 1 < value → ∃ error, parse digits options = .error error ∧
          error.report.code = 1108 ∧ error.report.span = some ⟨0, byteLength digits.toList⟩)) ∧
    ∀ source : String,
      (∀ options error, parse source options = .error error → error.report.code ≠ 1109) ∧
      ∀ token ∈ (scan source).1,
        (token.kind = .literal .integer → IsDigits (withoutSeparators token.text.toList)) ∧
        (token.kind = .literal .float → IsDecimal (withoutSeparators token.text.toList)) := by
  refine ⟨?_, fun source => ⟨fun _ _ => code_ne_invalidNumber, fun _ => scan_numbers⟩⟩
  intro digits options leads all deep value same
  have shape : IsDigits (withoutSeparators digits.toList) :=
    Number.isDigits_withoutSeparators leads (List.all_eq_true.mp all)
  have found := Number.integerOf_of_isDigits shape
  rw [Number.ofDigits_eq, ← same, show maxInteger = 2 ^ 63 - 1 from rfl] at found
  have source : digits = String.ofList digits.toList := String.ofList_toList.symm
  constructor
  · intro within
    rw [if_pos within] at found
    rw [source]
    exact Grammar.parse_integer ⟨digits.toList, value, leads, all, found⟩ deep
  · intro beyond
    rw [if_neg (Nat.not_le_of_gt beyond)] at found
    obtain ⟨error, failed, code, span⟩ := Grammar.parse_tooLarge leads all found deep
    exact ⟨error, by rwa [source], code, span⟩

/-- The largest integer, behind zeros and a separator, and the one above it. -/
theorem parse_numbers_limit :
    "00_9223372036854775807".toList.all isDigitOrSeparator = true ∧
      parse "00_9223372036854775807" = .ok [.integer 9223372036854775807] ∧
      (∃ error, parse "9223372036854775808" = .error error ∧ error.report.code = 1108 ∧
        error.report.span = some ⟨0, 19⟩) := by
  have largest := parse_numbers.1 "00_9223372036854775807" {} (by decide) (by decide) (by decide) _ rfl
  have above := parse_numbers.1 "9223372036854775808" {} (by decide) (by decide) (by decide) _ rfl
  exact ⟨by decide, largest.1 (by decide), above.2 (by decide)⟩

end RubySyntax
