import RubySyntax.Proofs.Grammar.LexicalFault
import RubySyntax.Proofs.Lexer.Faithful

namespace RubySyntax

open Diagnostic (Message Report ParseError)
open Text (Span LineMap byteLength)

namespace Diagnostic

/-- The numbers of the lexical faults end where those of the phrase grammar begin. -/
theorem Message.code_bounds (message : Message) :
    if message.isLexical then 1000 ≤ message.code ∧ message.code < 1100
    else 1100 ≤ message.code ∧ message.code < 1200 := by
  cases message <;> decide

theorem Message.code_injective {message other : Message} (same : message.code = other.code) :
    message = other := by
  have found := congrArg Message.ofCode? same
  rw [Message.ofCode?_code, Message.ofCode?_code] at found
  exact Option.some.inj found

/-- The variant of an error is the one that its number calls for. -/
def ParseError.Sorted (error : ParseError) : Prop :=
  if error.isLexical then 1000 ≤ error.report.code ∧ error.report.code < 1100
  else 1100 ≤ error.report.code ∧ error.report.code < 1200

theorem ParseError.Sorted.lexical {message : Message} (lexical : message.isLexical = true)
    (span : Span) (args : List String) : (ParseError.lexical (.raiseAt span message args)).Sorted := by
  have bounds := message.code_bounds
  rwa [if_pos lexical] at bounds

theorem ParseError.Sorted.grammatical {message : Message} (phrase : message.isLexical = false)
    (span : Span) (args : List String) :
    (ParseError.grammatical (.raiseAt span message args)).Sorted := by
  have bounds := message.code_bounds
  rwa [if_neg (Bool.eq_false_iff.mp phrase)] at bounds

theorem ParseError.Sorted.inFile {error : ParseError} (sorted : error.Sorted) (file : String)
    (map : LineMap) : (error.inFile file map).Sorted := by
  cases error with
  | lexical report => exact sorted
  | grammatical report => exact sorted

theorem ParseError.Sorted.isLexical_iff {error : ParseError} (sorted : error.Sorted) :
    error.isLexical = true ↔ 1000 ≤ error.report.code ∧ error.report.code < 1100 := by
  constructor
  · intro lexical
    rwa [ParseError.Sorted, if_pos lexical] at sorted
  · intro bounds
    by_contra phrase
    rw [ParseError.Sorted, if_neg phrase] at sorted
    omega

/-- Sorting the report of an error by its number gives the error back. -/
theorem ParseError.Sorted.ofReport {error : ParseError} (sorted : error.Sorted) :
    error = .ofReport error.report := by
  have agrees : error.report.isLexical = error.isLexical := by
    rw [Bool.eq_iff_iff, sorted.isLexical_iff]
    simp [Report.isLexical, isLexicalCode]
  cases error with
  | lexical report => exact (if_pos agrees).symm
  | grammatical report => exact (if_neg (Bool.eq_false_iff.mp agrees)).symm

end Diagnostic

namespace Lexer

variable {lexer behind : Lexer}

/-- A token of unknown kind stands for a lexical fault raised at its span. -/
theorem Emits.raises (emits : Emits lexer token behind) (unknown : token.kind = .unknown) :
    ∃ message args, message.isLexical = true ∧
      behind.report = some (.raiseAt token.span message args) := by
  cases emits with
  | separator _ => cases unknown
  | endOfInput _ => cases unknown
  | @lexeme lexeme bodies _ _ sound =>
    have same : lexeme.kind = .unknown := unknown
    exact absurd (by simp [same]) sound.kind
  | @fault fault _ _ sound => exact ⟨fault.message, fault.args, sound.lexical, rfl⟩

theorem next_raises (read : lexer.next = (some token, behind)) (unknown : token.kind = .unknown) :
    ∃ message args, message.isLexical = true ∧
      behind.report = some (.raiseAt token.span message args) := by
  obtain ⟨stop, emitted, after, _, emits, same⟩ := next_emits (running_of_next read)
  obtain ⟨tokenSame, rfl⟩ := Prod.mk.inj (same.symm.trans read)
  cases Option.some.inj tokenSame
  exact emits.raises unknown

end Lexer

/-- The fault of a scan is raised at the token of unknown kind. -/
theorem scan_raises (member : token ∈ (scan source).1) (unknown : token.kind = .unknown) :
    ∃ message args, message.isLexical = true ∧
      (scan source).2 = some (.raiseAt token.span message args) := by
  obtain ⟨front, last, final, same, ended⟩ := Lexer.toEnd_ended source
  rw [scan, same] at member ⊢
  have terminal := (Lexer.isTerminal_iff token).mpr (.inr unknown)
  obtain rfl := eq_last_of_terminal ended.running member terminal
  obtain ⟨middle, _, read⟩ := ended.run.unsnoc
  exact Lexer.next_raises read unknown

/-- Every token of a source lies in it, between characters. -/
theorem scan_covers (member : token ∈ (scan source).1) :
    ∃ slice, token.span.Covers source.toList slice := by
  obtain ⟨tokens, faithful, _⟩ := scan_faithful source
  rw [← tokens] at member
  obtain ⟨taken, takes, rfl⟩ := List.mem_map.mp member
  obtain ⟨⟨slice, covers, _⟩, _⟩ := faithful taken takes
  exact ⟨slice, covers⟩

/-- A report is raised inside the source. -/
def Diagnostic.Report.Within (report : Report) (source : List Char) : Prop :=
  ∃ span slice, report.span = some span ∧ span.Covers source slice

/-- A program is refused for a fault of the grammar that it is told by, raised inside
its source. -/
theorem program_refused {source : String} {depth limit : Nat} {error : ParseError}
    (refused : Grammar.Parser.program depth { limit, fault := (scan source).2 }
      (.ofTokens startToken (scan source).1) = .error error) :
    error.Sorted ∧ error.report.Within source.toList := by
  have blame := (Grammar.program_blames depth).refuses refused
  cases error with
  | lexical report =>
    obtain ⟨token, member, unknown, rfl⟩ := blame
    obtain ⟨message, args, lexical, found⟩ := scan_raises member unknown
    obtain ⟨slice, covers⟩ := scan_covers member
    rw [Grammar.Parser.Scope.faultAt, found]
    exact ⟨.lexical lexical _ _, token.span, slice, rfl, covers⟩
  | grammatical report =>
    obtain ⟨token, member, message, args, phrase, rfl, _⟩ := blame
    refine ⟨.grammatical phrase _ _, token.span, ?_⟩
    rcases List.mem_cons.mp member with rfl | member
    · exact ⟨[], rfl, [], source.toList, rfl, rfl, rfl⟩
    · obtain ⟨slice, covers⟩ := scan_covers member
      exact ⟨slice, rfl, covers⟩

/-- Every failed reading carries one consistent diagnostic. Its variant is told by its
number, it names the file that was given, its span is the place of a part of the
source, and its location is where that part begins. -/
theorem parse_error_consistent (source : String) (options : Options) (error : ParseError)
    (failed : parse source options = .error error) :
    (error.isLexical = true ↔ 1000 ≤ error.report.code ∧ error.report.code < 1100) ∧
      (error.isLexical = false → 1100 ≤ error.report.code ∧ error.report.code < 1200) ∧
      error = .ofReport error.report ∧
      error.report.file = some options.fileName ∧
      ∃ span slice, error.report.span = some span ∧ span.Covers source.toList slice ∧
        span.stop ≤ byteLength source.toList ∧
        error.report.location = some ((LineMap.ofSource source).locate span.start) := by
  obtain ⟨fault, rfl, refused⟩ := parse_eq_error failed
  obtain ⟨sorted, span, slice, found, covers⟩ := program_refused refused
  have sorted := sorted.inFile options.fileName (.ofSource source)
  refine ⟨sorted.isLexical_iff, ?_, sorted.ofReport, ?_, span, slice, ?_, covers, covers.stop_le, ?_⟩
  · intro phrase
    rwa [ParseError.Sorted, if_neg (Bool.eq_false_iff.mp phrase)] at sorted
  · cases fault <;> rfl
  · cases fault <;> exact found
  · cases fault with
    | lexical report => exact congrArg (Option.map _) found
    | grammatical report => exact congrArg (Option.map _) found

private theorem unterminated_refused :
    (match parse "é\np 'a" { fileName := "a.rb" } with
      | .ok _ => false
      | .error error => error == .lexical
        { file := "a.rb", span := some ⟨6, 1⟩, location := some ⟨1, 3⟩
          text := "Unterminated string literal.", code := 1002 }) = true := by
  decide +kernel

/-- A string that never ends on the second line. -/
theorem parse_error_consistent_unterminated :
    ∃ error, parse "é\np 'a" { fileName := "a.rb" } = .error error ∧
      error.isLexical = true ∧ error.report.code = 1002 ∧
      (error.isLexical = true ↔ 1000 ≤ error.report.code ∧ error.report.code < 1100) ∧
      (error.isLexical = false → 1100 ≤ error.report.code ∧ error.report.code < 1200) ∧
      error = .ofReport error.report ∧ error.report.file = some "a.rb" ∧
      ∃ span slice, error.report.span = some span ∧ span.Covers "é\np 'a".toList slice ∧
        span.stop ≤ byteLength "é\np 'a".toList ∧
        error.report.location = some ((LineMap.ofSource "é\np 'a").locate span.start) := by
  have refused := unterminated_refused
  split at refused
  · cases refused
  · rename_i error failed
    have consistent := parse_error_consistent _ _ error failed
    obtain rfl := beq_iff_eq.mp refused
    exact ⟨_, failed, rfl, rfl, consistent⟩

end RubySyntax
