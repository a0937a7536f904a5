import RubySyntax.Grammar.Program
import RubySyntax.Proofs.Grammar.Evaluation
import RubySyntax.Proofs.Grammar.Expression

namespace RubySyntax.Grammar

open Grammar.Parser
open Diagnostic (ParseError Message)

/-- The error of a reading that nests too deep. -/
def TooDeep (error : ParseError) : Prop := error.report.code = Message.nestingTooDeep.code

/-- The first parser is cut off by the nesting limit, or does what the second
one does under another limit. -/
def CutShort (limit : Nat) {α : Type} (parser other : Parser α) : Prop :=
  ∀ scope cursor, (∃ error, parser scope cursor = .error error ∧ TooDeep error) ∨
    parser scope cursor = other { scope with limit } cursor

namespace CutShort

variable {α β : Type} {limit : Nat}

theorem of_eq {parser : Parser α}
    (same : ∀ scope cursor, parser scope cursor = parser { scope with limit } cursor) :
    CutShort limit parser parser := fun scope cursor => .inr (same scope cursor)

/-- Whatever the first parser reads, the second one reads too. -/
theorem of_ok {parser other : Parser α} (alike : CutShort limit parser other)
    (done : parser scope cursor = .ok result) : other { scope with limit } cursor = .ok result := by
  obtain ⟨error, cut, _⟩ | same := alike scope cursor
  · rw [cut] at done
    cases done
  · exact same.symm.trans done

/-- A failure of the first parser cuts it off, or is one of the second as well. -/
theorem of_error {parser other : Parser α} (alike : CutShort limit parser other)
    (failed : parser scope cursor = .error error) :
    TooDeep error ∨ other { scope with limit } cursor = .error error := by
  obtain ⟨cutError, cut, deep⟩ | same := alike scope cursor
  · rw [cut] at failed
    cases failed
    exact .inl deep
  · exact .inr (same.symm.trans failed)

theorem bind {first first' : Parser α} {next next' : α → Parser β}
    (start : CutShort limit first first') (more : ∀ value, CutShort limit (next value) (next' value)) :
    CutShort limit (first >>= next) (first' >>= next') := by
  intro scope cursor
  cases done : first scope cursor with
  | error error =>
    rw [bind_error next done]
    obtain deep | failed := start.of_error done
    · exact .inl ⟨error, rfl, deep⟩
    · exact .inr (bind_error next' failed).symm
  | ok result =>
    obtain ⟨value, middle⟩ := result
    rw [bind_ok next done, bind_ok next' (start.of_ok done)]
    exact more value scope middle

theorem list {step step' : Parser (Item α)} (alike : CutShort limit step step') :
    CutShort limit (list step) (list step') := by
  intro scope cursor
  fun_induction Parser.list step scope cursor with
  | case1 cursor error failed =>
    obtain deep | failed' := alike.of_error failed
    · exact .inl ⟨error, rfl, deep⟩
    · exact .inr (list_error failed').symm
  | case2 cursor middle done => exact .inr (list_stop (alike.of_ok done)).symm
  | case3 cursor value middle done => exact .inr (list_last (alike.of_ok done)).symm
  | case4 cursor value middle done moved error failed ih =>
    obtain ⟨cutError, cut, deep⟩ | same := ih
    · rw [failed] at cut
      cases cut
      exact .inl ⟨error, rfl, deep⟩
    · exact .inr (list_more_error (alike.of_ok done) moved (same.symm.trans failed)).symm
  | case5 cursor value middle done moved values final rest ih =>
    obtain ⟨cutError, cut, _⟩ | same := ih
    · rw [rest] at cut
      cases cut
    · exact .inr (list_more (alike.of_ok done) moved (same.symm.trans rest)).symm
  | case6 cursor value middle done stuck => exact .inr (list_stuck (alike.of_ok done) stuck).symm

theorem chain {step step' : β → Parser (Option β)}
    (alike : ∀ value, CutShort limit (step value) (step' value)) (value : β) :
    CutShort limit (chain step value) (chain step' value) := by
  intro scope cursor
  fun_induction Parser.chain step value scope cursor with
  | case1 value cursor error failed =>
    obtain deep | failed' := (alike value).of_error failed
    · exact .inl ⟨error, rfl, deep⟩
    · exact .inr (chain_error failed').symm
  | case2 value cursor middle done => exact .inr (chain_none ((alike value).of_ok done)).symm
  | case3 value cursor built middle done moved ih =>
    rwa [chain_some ((alike value).of_ok done) moved]
  | case4 value cursor built middle done stuck =>
    exact .inr (chain_stuck ((alike value).of_ok done) stuck).symm

theorem advance : CutShort limit advance advance := by
  refine of_eq fun scope cursor => ?_
  cases follows : cursor.next? with
  | none => rw [advance_none follows, advance_none follows]
  | some next =>
    rw [advance_some follows, advance_some follows]
    rfl

theorem congruence (limit : Nat) : Congruence (CutShort limit) := .of_uniform {
  pure := fun _ => of_eq fun _ _ => rfl
  bind := bind
  current := of_eq fun _ _ => rfl
  advance := advance
  nextKind := of_eq fun _ _ => rfl
  noDo := of_eq fun _ _ => rfl
  fail := fun _ _ _ => of_eq fun _ _ => rfl
  withNoDo := fun noDo alike scope cursor => alike { scope with noDo } cursor
  list := list
  chain := chain }

end CutShort

theorem nested_cutShort (le : n ≤ m) (limit : Nat) (level : Level) :
    CutShort limit (nested n level) (nested m level) := by
  induction n generalizing m level with
  | zero => exact fun scope cursor => .inl ⟨_, rfl, rfl⟩
  | succ n ih =>
    obtain ⟨m, rfl⟩ : ∃ lower, m = lower + 1 := ⟨m - 1, by omega⟩
    exact (CutShort.congruence limit).atLevel (fun level => ih (by omega) level) level

theorem program_cutShort (le : n ≤ m) (limit : Nat) : CutShort limit (program n) (program m) := by
  have laws := CutShort.congruence limit
  exact laws.step (laws.statements (nested_cutShort le limit) [])

theorem parseTokens_cutShort (tokens : List Token) (fault : Option Diagnostic.Report) (le : n ≤ m) :
    (∃ error, parseTokens tokens fault n = .error error ∧ TooDeep error) ∨
      parseTokens tokens fault n = parseTokens tokens fault m := by
  let start : Cursor :=
    { token := { kind := .endOfFile, text := "", span := .emptyAt 0 }, rest := tokens }
  obtain ⟨error, cut, deep⟩ | same := program_cutShort le m { limit := n, fault } start
  · refine .inl ⟨error, ?_, deep⟩
    show (program n { limit := n, fault } start).map Prod.fst = _
    rw [cut]
    rfl
  · exact .inr (congrArg (Except.map Prod.fst) same)

end RubySyntax.Grammar

namespace RubySyntax

theorem Diagnostic.ParseError.code_inFile (error : ParseError) (file : String) (map : Text.LineMap) :
    (error.inFile file map).report.code = error.report.code := by
  cases error <;> rfl

/-- The nesting limit cuts a reading off or leaves it as it is: under a lower
limit a source either fails for its nesting, or has the program or the error that
it has under a higher one. -/
theorem parse_of_maxDepth_le (source fileName : String) (le : n ≤ m) :
    (∃ error, parse source { fileName, maxDepth := n } = .error error ∧ error.report.code = 1116) ∨
      parse source { fileName, maxDepth := n } = parse source { fileName, maxDepth := m } := by
  unfold parse
  obtain ⟨error, cut, deep⟩ | same :=
    Grammar.parseTokens_cutShort (scan source).1 (scan source).2 le
  · refine .inl ⟨error.inFile fileName (.ofSource source), ?_, ?_⟩
    · dsimp only
      rw [cut]
      rfl
    · rw [Diagnostic.ParseError.code_inFile]
      exact deep
  · refine .inr ?_
    dsimp only
    rw [same]

theorem parse_of_maxDepth_le_group :
    1 ≤ 256 ∧
      ((∃ error, parse "((1))" { fileName := "group.rb", maxDepth := 1 } = .error error ∧
          error.report.code = 1116) ∨
        parse "((1))" { fileName := "group.rb", maxDepth := 1 } =
          parse "((1))" { fileName := "group.rb", maxDepth := 256 }) :=
  ⟨by decide, parse_of_maxDepth_le "((1))" "group.rb" (by decide)⟩

end RubySyntax
