import RubySyntax.Proofs.Grammar.Definition
import RubySyntax.Proofs.Grammar.SingleStatement
import RubySyntax.Proofs.Lexer.Run

/-! Programs and the tokens of their sources. A parser fails for a lexical fault only
at a token of unknown kind, and a program is read only up to the end of the input, so
what the parser says of the lexical grammar is what the lexer says of the source. -/
namespace RubySyntax

/-- A numeric literal whose text is none. -/
inductive Token.Malformed (token : Token) : Prop where
  | integer (kind : token.kind = .literal .integer)
      (text : Number.integerOf token.text.toList = .error .malformed)
  | float (kind : token.kind = .literal .float) (text : Number.floatOf? token.text.toList = none)

namespace Grammar

open RubySyntax.Tree (Node)
open Diagnostic (Message Report ParseError)
open Grammar.Parser

/-- What is behind a reading was behind it in front of the reading already. -/
theorem Cursor.rest_subset {cursor final : Cursor} (moved : final.tokens <:+ cursor.tokens) :
    final.rest ⊆ cursor.rest := by
  rcases List.suffix_cons_iff.mp moved with same | further
  · rw [(List.cons.inj same).2]
    exact List.Subset.refl _
  · exact fun token member => further.subset (List.mem_cons_of_mem _ member)

/-- What a reading may fail with: the lexical fault that a token of unknown kind ahead
stands for, or a fault of the phrase grammar at a token in hand or ahead. A number is
blamed only for its own text. -/
def Blame (scope : Scope) (cursor : Cursor) : ParseError → Prop
  | .lexical report =>
    ∃ token ∈ cursor.rest, token.kind = .unknown ∧ report = Scope.faultAt scope token
  | .grammatical report =>
    ∃ token ∈ cursor.tokens, ∃ message args,
      message.isLexical = false ∧ report = .raiseAt token.span message args ∧
        (message = .invalidNumber → token.Malformed)

/-- What is ahead of a reading is ahead in front of it already. -/
theorem Blame.earlier {scope : Scope} {cursor middle : Cursor} {error : ParseError}
    (blame : Blame scope middle error) (moved : middle.tokens <:+ cursor.tokens) :
    Blame scope cursor error := by
  cases error with
  | lexical report =>
    obtain ⟨token, member, blamed⟩ := blame
    exact ⟨token, Cursor.rest_subset moved member, blamed⟩
  | grammatical report =>
    obtain ⟨token, member, blamed⟩ := blame
    exact ⟨token, moved.subset member, blamed⟩

/-- A parser that only moves on, and fails for what is ahead. -/
structure Blames {α : Type} (parser : Parser α) : Prop where
  moves : Moves parser
  refuses {scope : Scope} {cursor : Cursor} {error : ParseError} :
    parser scope cursor = .error error → Blame scope cursor error

namespace Blames

variable {α β : Type}

/-- Every lexical fault of the parser is the one behind a token of unknown kind ahead. -/
theorem unknown {parser : Parser α} (blames : Blames parser) {scope : Scope} {cursor : Cursor}
    {report : Report} (failed : parser scope cursor = .error (.lexical report)) :
    ∃ token ∈ cursor.rest, token.kind = .unknown ∧ report = Scope.faultAt scope token :=
  blames.refuses failed

theorem looks {parser : Parser α} (read : Scope → Cursor → α)
    (same : ∀ scope cursor, parser scope cursor = .ok (read scope cursor, cursor)) :
    Blames parser where
  moves := .stays fun scope cursor value final done => by
    rw [same] at done
    cases done
    rfl
  refuses := by
    intro scope cursor error failed
    rw [same] at failed
    cases failed

theorem fail (message : Message) (args : List String) (phrase : message.isLexical = false)
    (valid : message ≠ .invalidNumber) : Blames (fail message args : Parser α) where
  moves := fun _ _ _ _ done => nomatch done
  refuses := by
    intro scope cursor error failed
    cases failed
    exact ⟨cursor.token, List.mem_cons_self, message, args, phrase, rfl, fun same => absurd same valid⟩

/-- A repetition that does not move on fails at the token in hand. -/
theorem stuck {scope : Scope} {cursor : Cursor} {error : ParseError}
    (failed : (unexpected : Parser α) scope cursor = .error error) : Blame scope cursor error :=
  (fail .unexpectedToken [cursor.token.display] rfl nofun : Blames (α := α) _).refuses failed

theorem bind {first : Parser α} {next : α → Parser β} (start : Blames first)
    (more : ∀ value, Blames (next value)) : Blames (first >>= next) where
  moves := start.moves.bind fun value => (more value).moves
  refuses := by
    intro scope cursor error failed
    cases begun : first scope cursor with
    | error error =>
      rw [bind_error next begun] at failed
      cases failed
      exact start.refuses begun
    | ok read =>
      rw [bind_ok next begun] at failed
      exact ((more read.1).refuses failed).earlier (start.moves _ _ _ _ begun)

theorem advance : Blames advance where
  moves := .advance
  refuses := by
    intro scope cursor error failed
    cases follows : cursor.next? with
    | none =>
      rw [advance_none follows] at failed
      cases failed
    | some next =>
      rw [advance_some follows] at failed
      split at failed
      · rename_i unknown
        cases failed
        refine ⟨next.token, ?_, beq_iff_eq.mp unknown, rfl⟩
        rw [Cursor.rest_of_next? follows]
        exact List.mem_cons_self
      · cases failed

theorem list {step : Parser (Item α)} (alike : Blames step) : Blames (list step) where
  moves := .list alike.moves
  refuses := by
    intro scope cursor error failed
    fun_induction Parser.list step scope cursor with
    | case1 cursor error stepped =>
      cases failed
      exact alike.refuses stepped
    | case2 cursor middle stepped => cases failed
    | case3 cursor value middle stepped => cases failed
    | case4 cursor value middle stepped moved error more ih =>
      cases failed
      exact (ih more).earlier (alike.moves _ _ _ _ stepped)
    | case5 cursor value middle stepped moved others rest more ih => cases failed
    | case6 cursor value middle stepped still =>
      exact (stuck failed).earlier (alike.moves _ _ _ _ stepped)

theorem chain {step : β → Parser (Option β)} (alike : ∀ value, Blames (step value)) (value : β) :
    Blames (chain step value) where
  moves := .chain (fun value => (alike value).moves) value
  refuses := by
    intro scope cursor error failed
    fun_induction Parser.chain step value scope cursor with
    | case1 value cursor error stepped =>
      cases failed
      exact (alike value).refuses stepped
    | case2 value cursor middle stepped => cases failed
    | case3 value cursor grown middle stepped moved ih =>
      exact (ih failed).earlier ((alike value).moves _ _ _ _ stepped)
    | case4 value cursor grown middle stepped still =>
      exact (stuck failed).earlier ((alike value).moves _ _ _ _ stepped)

theorem leaf (node : Node) : Blames (Parser.leaf node) :=
  bind (bind advance fun _ => looks (fun _ _ => ()) fun _ _ => rfl)
    fun _ => looks (fun _ _ => node) fun _ _ => rfl

theorem integer {scope : Scope} {cursor : Cursor} {error : ParseError}
    (here : cursor.token.kind = .literal .integer)
    (failed : Parser.integer scope cursor = .error error) : Blame scope cursor error := by
  unfold Parser.integer at failed
  rw [bind_ok _ (current_eq scope cursor)] at failed
  cases value : Number.integerOf cursor.token.text.toList with
  | ok value' =>
    simp only [value] at failed
    exact (leaf _).refuses failed
  | error fault =>
    simp only [value] at failed
    cases fault with
    | tooLarge => exact (fail .integerTooLarge _ rfl nofun : Blames (α := Node) _).refuses failed
    | malformed =>
      cases failed
      exact ⟨cursor.token, List.mem_cons_self, _, _, rfl, rfl, fun _ => .integer here value⟩

theorem float {scope : Scope} {cursor : Cursor} {error : ParseError}
    (here : cursor.token.kind = .literal .float)
    (failed : Parser.float scope cursor = .error error) : Blame scope cursor error := by
  unfold Parser.float at failed
  rw [bind_ok _ (current_eq scope cursor)] at failed
  cases value : Number.floatOf? cursor.token.text.toList with
  | some value' =>
    simp only [value] at failed
    exact (leaf _).refuses failed
  | none =>
    simp only [value] at failed
    cases failed
    exact ⟨cursor.token, List.mem_cons_self, _, _, rfl, rfl, fun _ => .float here value⟩

/-- A number is refused for its text alone. -/
theorem numberOr {other : Parser Node} (alike : Blames other) : Blames (Parser.numberOr other) where
  moves := @Congruence.numberOr _ Moves.laws other other alike.moves
  refuses := by
    intro scope cursor error failed
    rw [numberOr_eq, bind_ok _ (current_eq scope cursor)] at failed
    generalize here : cursor.token.kind = kind at failed
    revert failed
    split
    · exact integer here
    · exact float here
    · exact alike.refuses

theorem laws : Congruence fun parser _ => Blames parser := by
  have uniform : Uniform Message.isOrder fun parser _ => Blames parser := {
    pure := fun value => looks (fun _ _ => value) fun _ _ => rfl
    bind := bind
    current := looks (fun _ cursor => cursor.token) current_eq
    advance := advance
    nextKind := looks (fun _ cursor => cursor.rest.head?.map Token.kind) fun _ _ => rfl
    noDo := looks (fun scope _ => scope.noDo) fun _ _ => rfl
    fail := fun message args order =>
      fail message args (Message.isLexical_of_isPhrase (Message.isPhrase_of_isOrder order)) <| by
        rintro rfl
        cases order
    withNoDo := fun noDo alike =>
      ⟨fun scope => alike.moves { scope with noDo }, @fun scope => @alike.refuses { scope with noDo }⟩
    list := list
    chain := chain }
  exact .of_order uniform (fun _ => id) numberOr

end Blames

theorem nested_blames (depth : Nat) (level : Level) : Blames (nested depth level) := by
  induction depth generalizing level with
  | zero =>
    refine .bind (.looks (fun scope _ => scope) fun _ _ => rfl) fun scope => ?_
    exact .fail _ _ rfl nofun
  | succ depth ih => exact @Congruence.atLevel _ Blames.laws (nested depth) (nested depth) ih level

theorem statements_blames (depth : Nat) (ends : List Token.Kind) :
    Blames (statements (nested depth) ends) :=
  @Congruence.statements _ Blames.laws (nested depth) (nested depth) (nested_blames depth) ends

/-- The last statement of a program stands in front of the end of the input. -/
theorem kind_of_statements {nest : Nest} {scope : Scope} {cursor final : Cursor}
    (done : statements nest [] scope cursor = .ok (nodes, final)) :
    final.token.kind = .endOfFile := by
  rw [show statements nest [] = Parser.list (programStep nest) from rfl] at done
  fun_induction Parser.list (programStep nest) scope cursor generalizing nodes with
  | case1 cursor error failed => cases done
  | case2 cursor middle stepped =>
    cases done
    obtain ⟨start, _, step⟩ := programStep_eq_ok_iff.mp stepped
    cases step with
    | stop last => exact last
  | case3 cursor value middle stepped =>
    cases done
    obtain ⟨start, _, step⟩ := programStep_eq_ok_iff.mp stepped
    cases step with
    | last _ _ last => exact last
  | case4 cursor value middle stepped moved error failed ih => cases done
  | case5 cursor value middle stepped moved others rest more ih =>
    cases done
    exact ih more
  | case6 cursor value middle stepped stuck => cases done

/-- A program is read through to the end of the input. -/
theorem token_of_program {scope : Scope} {dummy first : Token} {rest : List Token}
    (done : program depth scope (.ofTokens dummy (first :: rest)) = .ok (nodes, final)) :
    final.token ∈ first :: rest ∧ final.token.kind = .endOfFile := by
  have read := program_ofTokens_ok done
  have behind := (statements_blames depth []).moves _ _ _ _ read
  exact ⟨behind.subset List.mem_cons_self, kind_of_statements read⟩

theorem program_blames (depth : Nat) : Blames (program depth) :=
  @Congruence.step _ _ Blames.laws _ (statements (nested depth) []) (statements_blames depth [])

end Grammar

open Diagnostic (Report)

theorem tokenize_of_fault (found : (scan source).2 = some fault) :
    tokenize source = .error fault := by
  generalize same : scan source = scanned at found
  obtain ⟨tokens, _⟩ := scanned
  cases found
  rw [tokenize, same]

theorem tokenize_of_none (found : (scan source).2 = none) :
    tokenize source = .ok (scan source).1 := by
  generalize same : scan source = scanned at found ⊢
  obtain ⟨tokens, _⟩ := scanned
  cases found
  rw [tokenize, same]

/-- The last token of a scan alone is terminal, and stands for a fault exactly if there
is one. -/
theorem scan_ends (source : String) :
    ∃ front last, (scan source).1 = front ++ [last] ∧
      (∀ token ∈ front, token.isTerminal = false) ∧ last.isTerminal = true ∧
      ((scan source).2.isSome = true ↔ last.kind = .unknown) := by
  obtain ⟨front, last, final, same, ended⟩ := Lexer.toEnd_ended source
  refine ⟨front, last, by rw [scan, same], ended.running, ended.terminal, ?_⟩
  rw [scan, same, ← ended.any_unknown]
  show final.report.isSome = true ↔ _
  rw [ended.run.report]
  simp [Lexer.ofSource]

/-- Without a token of unknown kind there is no fault. -/
theorem fault_of_known (known : ∀ token ∈ (scan source).1, token.kind ≠ .unknown) :
    (scan source).2 = none := by
  obtain ⟨front, last, tokens, _, _, faulty⟩ := scan_ends source
  refine Option.not_isSome_iff_eq_none.mp fun reported => ?_
  have member : last ∈ (scan source).1 := by
    rw [tokens]
    exact List.mem_append_right front List.mem_cons_self
  exact known last member (faulty.mp reported)

theorem eq_last_of_terminal {front : List Token} {token last : Token}
    (running : ∀ token ∈ front, token.isTerminal = false) (member : token ∈ front ++ [last])
    (terminal : token.isTerminal = true) : token = last := by
  rcases List.mem_append.mp member with inside | here
  · rw [running token inside] at terminal
    cases terminal
  · exact List.mem_singleton.mp here

/-- The tokens of a source that has a program end with the end of the input. -/
theorem scan_of_parse (read : parse source options = .ok program) :
    ∃ front last, (scan source).1 = front ++ [last] ∧
      (∀ token ∈ front, token.isTerminal = false) ∧ last.kind = .endOfFile ∧
      (scan source).2 = none := by
  obtain ⟨front, last, tokens, running, _, faulty⟩ := scan_ends source
  have nonempty : front ++ [last] ≠ [] := List.append_ne_nil_of_right_ne_nil front nofun
  obtain ⟨first, rest, split⟩ := List.exists_cons_of_ne_nil nonempty
  obtain ⟨final, read⟩ := parse_eq_ok_iff.mp read
  rw [tokens, split] at read
  obtain ⟨member, ends⟩ := Grammar.token_of_program read
  rw [← split] at member
  have terminal := (Lexer.isTerminal_iff final.token).mpr (.inl ends)
  rw [eq_last_of_terminal running member terminal] at ends
  refine ⟨front, last, tokens, running, ends, Option.not_isSome_iff_eq_none.mp fun reported => ?_⟩
  rw [faulty.mp reported] at ends
  cases ends

theorem parse_eq_error {options : Options} (failed : parse source options = .error error) :
    ∃ fault, error = fault.inFile options.fileName (.ofSource source) ∧
      Grammar.Parser.program options.maxDepth
        { limit := options.maxDepth, fault := (scan source).2 }
        (.ofTokens startToken (scan source).1) = .error fault := by
  rw [parse_eq] at failed
  generalize Grammar.Parser.program options.maxDepth _ _ = result at failed ⊢
  cases result with
  | ok read => cases failed
  | error fault =>
    cases failed
    exact ⟨fault, rfl, rfl⟩

theorem parse_eq_lexical {source fileName : String} {maxDepth : Nat} {report : Report}
    (failed : parse source { fileName, maxDepth } = .error (.lexical report)) :
    ∃ fault, report = fault.inFile fileName (.ofSource source) ∧
      Grammar.Parser.program maxDepth { limit := maxDepth, fault := (scan source).2 }
        (.ofTokens startToken (scan source).1) = .error (.lexical fault) := by
  obtain ⟨error, same, refused⟩ := parse_eq_error failed
  cases error with
  | lexical fault =>
    cases same
    exact ⟨fault, rfl, refused⟩
  | grammatical fault => cases same

/-- A source with a program has no lexical fault, and the lexical fault that a reading
fails with is the one that the tokens of the source end with. -/
theorem parse_agrees_tokenize (source : String) (options : Options) :
    (∀ program, parse source options = .ok program → tokenize source = .ok (scan source).1) ∧
    (∀ report, parse source options = .error (.lexical report) →
      ∃ fault, tokenize source = .error fault ∧
        fault.code = report.code ∧ fault.text = report.text ∧ fault.span = report.span ∧
        report = fault.inFile options.fileName (.ofSource source)) := by
  constructor
  · intro program read
    obtain ⟨_, _, _, _, _, none⟩ := scan_of_parse read
    exact tokenize_of_none none
  · intro report failed
    obtain ⟨front, last, tokens, running, _, faulty⟩ := scan_ends source
    obtain ⟨fault, rfl, refused⟩ := parse_eq_lexical failed
    obtain ⟨token, member, unknown, blamed⟩ := (Grammar.program_blames _).unknown refused
    have terminal := (Lexer.isTerminal_iff token).mpr (.inr unknown)
    rw [eq_last_of_terminal running (tokens ▸ member) terminal] at unknown
    obtain ⟨reported, found⟩ := Option.isSome_iff_exists.mp (faulty.mpr unknown)
    have same : fault = reported := by
      rw [blamed, Grammar.Parser.Scope.faultAt, found]
      rfl
    subst same
    exact ⟨fault, tokenize_of_fault found, rfl, rfl, rfl, rfl⟩

private theorem unterminated_matches :
    (parse "p 1\np 'a" matches .error (.lexical _)) ∧ (parse "p 1" matches .ok _) := by
  decide +kernel

/-- A line that is read, and a string that never ends behind it. -/
theorem parse_agrees_tokenize_unterminated :
    (∃ program, parse "p 1" = .ok program) ∧ tokenize "p 1" = .ok (scan "p 1").1 ∧
    ∃ report, parse "p 1\np 'a" = .error (.lexical report) ∧
      ∃ fault, tokenize "p 1\np 'a" = .error fault ∧
        fault.code = report.code ∧ fault.text = report.text ∧ fault.span = report.span ∧
        report = fault.inFile "<input>" (.ofSource "p 1\np 'a") := by
  obtain ⟨fails, reads⟩ := unterminated_matches
  split at fails
  · rename_i report failed
    split at reads
    · rename_i program read
      exact ⟨⟨program, read⟩, (parse_agrees_tokenize "p 1" {}).1 program read, report, failed,
        (parse_agrees_tokenize "p 1\np 'a" {}).2 report failed⟩
    · cases reads
  · cases fails

end RubySyntax
