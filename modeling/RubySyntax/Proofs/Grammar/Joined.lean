import RubySyntax.Proofs.Grammar.Seam
import RubySyntax.Proofs.Grammar.SingleStatement

/-! The statements of two programs behind each other. Each statement in front of the
seam is read as before, and behind the last one the separators go on up to the first
statement of the other program. -/
namespace RubySyntax.Grammar

open RubySyntax.Tree (Node)
open Token (Kind)
open Grammar.Parser

variable {seam : Seam} {nest : Nest} {scope : Scope} {cursor other start final stop : Cursor}
  {first : Token} {behind : List Token} {made : Node} {nodes others : List Node}

/-- A list goes on as another one does that begins with the same step. -/
theorem list_of_step {α : Type} {step : Parser (Item α)} {values : List α}
    (same : step scope other = step scope cursor) (further : cursor.remaining ≤ other.remaining)
    (done : Parser.list step scope cursor = .ok (values, final)) :
    Parser.list step scope other = .ok (values, final) := by
  rw [Parser.list] at done ⊢
  rw [same]
  split at done
  · cases done
  · exact done
  · exact done
  · split at done
    · rename_i moved
      rwa [if_pos (Nat.lt_of_lt_of_le moved further)]
    · cases done

namespace Seam

theorem Cut.more_le (cut : seam.Cut cursor other) : seam.more.length ≤ other.remaining := by
  obtain ⟨front, _, _, joined⟩ := cut
  have joined := congrArg List.length joined
  simp only [Cursor.tokens, List.length_cons, List.length_append] at joined
  rw [other.remaining_eq]
  omega

/-- Separators stop in front of the seam, or go on behind it. -/
theorem Cut.skipSeparators (cut : seam.Cut cursor other) (follows : seam.more = first :: behind)
    (known : first.kind ≠ .unknown)
    (skipped : Parser.skipSeparators scope cursor = .ok ((), start)) :
    (start.token.kind = .endOfFile ∧ Parser.skipSeparators scope other =
      Parser.skipSeparators scope (.ofTokens first behind)) ∨
    start.token.kind ≠ .endOfFile ∧ ∃ start', Parser.skipSeparators scope other =
      .ok ((), start') ∧ start'.token = start.token ∧ seam.Cut start start' := by
  induction cut using Cut.induction with
  | atSeam cursor other place _ =>
    have spent : start.Spent := Stays.skipWhile.spent trivial place.spent skipped
    obtain ⟨_, _, _, stopped⟩ := skipWhile_run skipped
    have last := spent.here.resolve_right (Bool.eq_false_iff.mp stopped)
    have separates : other.token.kind.isSeparator = true := place.first ▸ seam.separates
    have next? := Cursor.next?_of_tokens (follows ▸ place.joined)
    exact .inl ⟨last, skipWhile_some separates next? known⟩
  | inFront cursor other next next' place cut ih =>
    obtain ⟨rfl, stopped⟩ | ⟨here, middle, next?, more⟩ := skipWhile_eq_ok skipped
    · exact .inr ⟨place.running_kind, other, skipWhile_other (place.same ▸ stopped), place.same, cut⟩
    · obtain rfl := Option.some.inj (place.follows.symm.trans next?)
      have passed : Parser.skipSeparators scope other = Parser.skipSeparators scope next' :=
        skipWhile_some (place.same ▸ here) place.follows' place.cut.known
      rw [passed]
      exact ih more

/-- Behind the last statement the other program is read. -/
theorem Cut.statements_behind (cut : seam.Cut cursor other) (follows : seam.more = first :: behind)
    (known : first.kind ≠ .unknown)
    (skipped : Parser.skipSeparators scope cursor = .ok ((), start))
    (ended : start.token.kind = .endOfFile)
    (done : statements nest [] scope (.ofTokens first behind) = .ok (others, stop)) :
    statements nest [] scope other = .ok (others, stop) := by
  obtain ⟨_, same⟩ | ⟨running, _⟩ := cut.skipSeparators follows known skipped
  · have further : (Cursor.ofTokens first behind).remaining ≤ other.remaining := by
      have more := cut.more_le
      rw [follows] at more
      exact Nat.le_of_lt more
    refine list_of_step ?_ further done
    show Except.bind (Parser.skipSeparators scope other) _ = _
    rw [same]
    rfl
  · exact absurd ended running

/-- A separator is behind a statement in front of the seam. -/
theorem Cut.separator (cut : seam.Cut cursor other) (ends : EndsStatement cursor.token.kind) :
    other.token.kind.isSeparator = true := by
  obtain place | ⟨_, _, place⟩ := cut.cases
  · rw [place.first]
    exact seam.separates
  · rw [place.same]
    exact ends.resolve_left place.running_kind

/-- A statement in front of the seam is followed by others. -/
theorem Cut.programStep (cut : seam.Cut cursor other) (follows : seam.more = first :: behind)
    (known : first.kind ≠ .unknown) (alike : Needs seam Anywhere (statement nest))
    (moves : Moves (statement nest))
    (skipped : Parser.skipSeparators scope cursor = .ok ((), start))
    (begins : start.token.kind ≠ .endOfFile)
    (read : statement nest scope start = .ok (made, final))
    (ends : EndsStatement final.token.kind) :
    ∃ final', programStep nest scope other = .ok (.more made, final') ∧ seam.Cut final final' ∧
      final'.remaining < other.remaining := by
  obtain ⟨ended, _⟩ | ⟨_, start', skipped', same, cut⟩ := cut.skipSeparators follows known skipped
  · exact absurd ended begins
  · obtain ⟨final', read', cut⟩ := alike.joined trivial cut read
    have separator := cut.separator ends
    have step := ProgramStep.more (same ▸ begins) read' separator
    refine ⟨final', programStep_eq_ok_iff.mpr ⟨start', skipped', step⟩, cut, ?_⟩
    obtain ⟨run, split, _, stopped⟩ := skipWhile_run skipped'
    have further : final'.token ≠ start'.token := by
      intro same
      rw [← same, separator] at stopped
      cases stopped
    have passed := congrArg List.length split
    simp only [Cursor.tokens, List.length_append, List.length_cons] at passed
    have moved := moves.remaining_lt read' further
    rw [start'.remaining_eq] at moved
    rw [other.remaining_eq]
    omega

/-- In front of another program the statements of a program are read first, and then
those of the other one. -/
theorem Cut.statements (cut : seam.Cut cursor other) (follows : seam.more = first :: behind)
    (known : first.kind ≠ .unknown) (alike : Needs seam Anywhere (statement nest))
    (moves : Moves (statement nest))
    (done : Parser.statements nest [] scope cursor = .ok (nodes, final))
    (more : Parser.statements nest [] scope (.ofTokens first behind) = .ok (others, stop)) :
    Parser.statements nest [] scope other = .ok (nodes ++ others, stop) := by
  change Parser.list (Parser.programStep nest) scope cursor = _ at done
  fun_induction Parser.list (Parser.programStep nest) scope cursor generalizing other nodes with
  | case1 cursor error failed => cases done
  | case2 cursor middle stepped =>
    cases done
    obtain ⟨start, skipped, step⟩ := programStep_eq_ok_iff.mp stepped
    cases step with
    | stop last => exact cut.statements_behind follows known skipped last more
  | case3 cursor value middle stepped =>
    cases done
    obtain ⟨start, skipped, step⟩ := programStep_eq_ok_iff.mp stepped
    cases step with
    | last begins read last =>
      obtain ⟨final', stepped', cut', moved⟩ :=
        cut.programStep follows known alike moves skipped begins read (.inl last)
      have stays : Parser.skipSeparators scope final = .ok ((), final) :=
        skipWhile_other (by rw [last]; rfl)
      exact list_more stepped' moved (cut'.statements_behind follows known stays last more)
  | case4 cursor value middle stepped moved error failed ih => cases done
  | case5 cursor value middle stepped moved values rest done' ih =>
    cases done
    obtain ⟨start, skipped, step⟩ := programStep_eq_ok_iff.mp stepped
    cases step with
    | more begins read separator =>
      obtain ⟨final', stepped', cut', moved'⟩ :=
        cut.programStep follows known alike moves skipped begins read (.inr separator)
      exact list_more stepped' moved' (ih cut' done')
  | case6 cursor value middle stepped stuck => cases done

end Seam

end RubySyntax.Grammar
