import RubySyntax.Grammar.Program
import RubySyntax.Proofs.Grammar.Evaluation
import RubySyntax.Proofs.Grammar.Expression

namespace RubySyntax.Grammar

open Grammar.Parser

def Cursor.tokens (cursor : Cursor) : List Token := cursor.token :: cursor.rest

/-- Whatever the parser reads, it leaves an end of the tokens. -/
def Moves {α : Type} (parser : Parser α) : Prop :=
  ∀ scope cursor value final, parser scope cursor = .ok (value, final) →
    final.tokens <:+ cursor.tokens

namespace Moves

variable {α β : Type}

theorem stays {parser : Parser α}
    (same : ∀ scope cursor value final, parser scope cursor = .ok (value, final) → final = cursor) :
    Moves parser := fun scope cursor value final done =>
  same scope cursor value final done ▸ List.suffix_rfl

theorem bind {first : Parser α} {next : α → Parser β} (start : Moves first)
    (more : ∀ value, Moves (next value)) : Moves (first >>= next) := by
  intro scope cursor value final done
  obtain ⟨read, middle, begun, rest⟩ := bind_eq_ok done
  exact (more read scope middle value final rest).trans (start scope cursor read middle begun)

theorem advance : Moves advance := by
  intro scope cursor value final done
  rcases (advance_eq_ok done).2 with ⟨rfl, _⟩ | follows
  · exact List.suffix_rfl
  · rw [Cursor.tokens, Cursor.tokens, Cursor.rest_of_next? follows]
    exact List.suffix_cons _ _

theorem list {step : Parser (Item α)} (alike : Moves step) : Moves (list step) := by
  intro scope cursor values final done
  fun_induction Parser.list step scope cursor generalizing values with
  | case1 cursor error failed => cases done
  | case2 cursor middle stepped =>
    cases done
    exact alike _ _ _ _ stepped
  | case3 cursor value middle stepped =>
    cases done
    exact alike _ _ _ _ stepped
  | case4 cursor value middle stepped moved error failed ih => cases done
  | case5 cursor value middle stepped moved others rest more ih =>
    cases done
    exact (ih _ more).trans (alike _ _ _ _ stepped)
  | case6 cursor value middle stepped stuck => cases done

theorem chain {step : β → Parser (Option β)} (alike : ∀ value, Moves (step value)) (value : β) :
    Moves (chain step value) := by
  intro scope cursor built final done
  fun_induction Parser.chain step value scope cursor with
  | case1 value cursor error failed => cases done
  | case2 value cursor middle stepped =>
    cases done
    exact alike _ _ _ _ _ stepped
  | case3 value cursor grown middle stepped moved ih =>
    exact (ih done).trans (alike _ _ _ _ _ stepped)
  | case4 value cursor grown middle stepped stuck => cases done

theorem laws : Congruence fun parser _ => Moves parser := .of_uniform {
  pure := fun _ => .stays fun _ _ _ _ done => by cases done; rfl
  bind := bind
  current := .stays fun _ _ _ _ done => by cases done; rfl
  advance := advance
  nextKind := .stays fun _ _ _ _ done => by cases done; rfl
  noDo := .stays fun _ _ _ _ done => by cases done; rfl
  fail := fun _ _ _ _ _ _ _ done => nomatch done
  withNoDo := fun noDo alike scope => alike { scope with noDo }
  list := list
  chain := chain }

end Moves

/-- Behind a reading that ends at another token fewer tokens are left. -/
theorem Moves.remaining_lt {parser : Parser α} (moves : Moves parser)
    (done : parser scope cursor = .ok (value, final)) (other : final.token ≠ cursor.token) :
    final.remaining < cursor.remaining := by
  have ends := moves scope cursor value final done
  rw [final.remaining_eq, cursor.remaining_eq]
  refine Nat.lt_of_le_of_ne (Nat.le_of_succ_le_succ ends.length_le) fun same => other ?_
  exact (List.cons.inj (ends.eq_of_length (congrArg Nat.succ same))).1

/-- Only tokens whose kind holds are passed over, and all of them. -/
theorem Parser.skipWhile_run {holds : Token.Kind → Bool}
    (skipped : skipWhile holds scope cursor = .ok ((), final)) :
    ∃ run, cursor.tokens = run ++ final.tokens ∧ (∀ token ∈ run, holds token.kind = true) ∧
      holds final.token.kind = false := by
  induction left : cursor.rest generalizing cursor with
  | nil =>
    obtain ⟨rfl, other⟩ | ⟨_, middle, follows, _⟩ := skipWhile_eq_ok skipped
    · exact ⟨[], rfl, by simp, other⟩
    · rw [Cursor.rest_of_next? follows] at left
      cases left
  | cons first rest ih =>
    obtain ⟨rfl, other⟩ | ⟨here, middle, follows, more⟩ := skipWhile_eq_ok skipped
    · exact ⟨[], rfl, by simp, other⟩
    · have behind := Cursor.rest_of_next? follows
      obtain ⟨run, split, others, stopped⟩ := ih more (List.cons.inj (behind.symm.trans left)).2
      refine ⟨cursor.token :: run, ?_, List.forall_mem_cons.mpr ⟨here, others⟩, stopped⟩
      rw [Cursor.tokens, behind, List.cons_append, ← split]
      rfl

theorem nested_moves (depth : Nat) (level : Level) : Moves (nested depth level) := by
  induction depth generalizing level with
  | zero => exact fun _ _ _ _ done => nomatch done
  | succ depth ih => exact @Congruence.atLevel _ Moves.laws (nested depth) (nested depth) ih level

end RubySyntax.Grammar
