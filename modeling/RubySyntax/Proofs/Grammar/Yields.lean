import RubySyntax.Proofs.Grammar.Congruence
import RubySyntax.Proofs.Grammar.Evaluation
import RubySyntax.Proofs.Tree.WellFormed

namespace RubySyntax.Grammar

open RubySyntax.Tree (NamesConstant)
open Grammar.Parser
open Diagnostic (Message)

/-- The tokens of constants at the cursor and behind it have names of constants. -/
def Cursor.Named (cursor : Cursor) : Prop :=
  ∀ token ∈ cursor.token :: cursor.rest, token.kind = .constant → NamesConstant token.text

theorem Cursor.Named.next {cursor next : Cursor} (named : cursor.Named)
    (follows : cursor.next? = some next) : next.Named := by
  intro token member
  exact named token (List.mem_cons_of_mem _ (Cursor.rest_of_next? follows ▸ member))

/-- Whatever the parser hands back satisfies a predicate. -/
def Yields (holds : α → Prop) (parser : Parser α) : Prop :=
  ∀ scope cursor value final, cursor.Named → parser scope cursor = .ok (value, final) →
    holds value ∧ final.Named

/-- Nothing is said about what the parser hands back. -/
abbrev Runs (parser : Parser α) : Prop := Yields (fun _ => True) parser

namespace Yields

variable {p : α → Prop} {q : β → Prop}

theorem pure {value : α} (holds : p value) : Yields p (pure value) := by
  intro scope cursor read final named done
  cases done
  exact ⟨holds, named⟩

theorem bind {first : Parser α} {next : α → Parser β} (start : Yields p first)
    (more : ∀ value, p value → Yields q (next value)) : Yields q (first >>= next) := by
  intro scope cursor value final named done
  obtain ⟨read, middle, begun, rest⟩ := bind_eq_ok done
  obtain ⟨holds, kept⟩ := start scope cursor read middle named begun
  exact more read holds scope middle value final kept rest

/-- A parser in front, about which nothing needs to be known. -/
theorem after {first : Parser α} {next : α → Parser β} (start : Runs first)
    (more : ∀ value, Yields q (next value)) : Yields q (first >>= next) :=
  start.bind fun value _ => more value

theorem map {parser : Parser α} (alike : Yields p parser) (f : α → β)
    (holds : ∀ value, p value → q (f value)) : Yields q (f <$> parser) := by
  rw [map_eq_pure_bind]
  exact alike.bind fun value read => .pure (holds value read)

theorem weaken {parser : Parser α} (alike : Yields p parser) {r : α → Prop}
    (holds : ∀ value, p value → r value) : Yields r parser := by
  intro scope cursor value final named done
  obtain ⟨read, kept⟩ := alike scope cursor value final named done
  exact ⟨holds value read, kept⟩

theorem runs {parser : Parser α} (alike : Yields p parser) : Runs parser :=
  alike.weaken fun _ _ => trivial

/-- Only what a parser passes over matters, not what it reads. -/
theorem discard {parser : Parser α} (alike : Runs parser) : Runs (Functor.discard parser) :=
  alike.map _ fun _ _ => trivial

theorem seq {parser : Parser α} {next : Parser β} (start : Runs parser) (more : Yields q next) :
    Yields q (Functor.discard parser >>= fun _ => next) := start.discard.after fun _ => more

theorem ite {c : Prop} [Decidable c] {yes no : Parser α} (first : Yields p yes)
    (second : Yields p no) : Yields p (if c then yes else no) := by
  split
  · exact first
  · exact second

/-- A step taken where a condition holds, and what follows in any case. -/
theorem whenThen {c : Prop} [Decidable c] {first : Parser Unit} {next : Parser α}
    (step : Runs first) (more : Yields p next) :
    Yields p (if c then first >>= fun _ => next else next) :=
  ite (step.after fun _ => more) more

/-- A step taken where a condition does not hold, and what follows in any case. -/
theorem unlessThen {c : Prop} [Decidable c] {first : Parser Unit} {next : Parser α}
    (step : Runs first) (more : Yields p next) :
    Yields p (if c then next else first >>= fun _ => next) :=
  ite more (step.after fun _ => more)

theorem fail (message : Message) (args : List String) : Yields p (fail message args : Parser α) := by
  intro scope cursor value final named done
  cases done

theorem current : Runs current := by
  intro scope cursor value final named done
  cases done
  exact ⟨trivial, named⟩

theorem noDo : Runs noDo := by
  intro scope cursor value final named done
  cases done
  exact ⟨trivial, named⟩

theorem failAt (message : Message) : Yields p (failAt message : Parser α) :=
  current.after fun _ => fail message _

theorem unexpected : Yields p (unexpected : Parser α) := failAt _

theorem and {parser : Parser α} {r : α → Prop} (first : Yields p parser) (second : Yields r parser) :
    Yields (fun value => p value ∧ r value) parser := by
  intro scope cursor value final named done
  obtain ⟨left, kept⟩ := first scope cursor value final named done
  exact ⟨⟨left, (second scope cursor value final named done).1⟩, kept⟩

theorem withNoDo {parser : Parser α} (noDo : Bool) (alike : Yields p parser) :
    Yields p (withNoDo noDo parser) := fun scope => alike { scope with noDo }

theorem advance : Runs advance := by
  intro scope cursor value final named done
  refine ⟨trivial, ?_⟩
  rcases (advance_eq_ok done).2 with ⟨rfl, _⟩ | follows
  · exact named
  · exact named.next follows

/-- The predicate of the value in an item of a list, if it has one. -/
def OfItem (p : α → Prop) : Item α → Prop
  | .stop => True
  | .last value | .more value => p value

theorem list {step : Parser (Item α)} (alike : Yields (OfItem p) step) :
    Yields (fun values => ∀ value ∈ values, p value) (list step) := by
  intro scope cursor values final named done
  fun_induction Parser.list step scope cursor generalizing values with
  | case1 cursor error failed => cases done
  | case2 cursor middle stepped =>
    cases done
    exact ⟨by simp, (alike _ _ _ _ named stepped).2⟩
  | case3 cursor value middle stepped =>
    cases done
    obtain ⟨holds, kept⟩ := alike _ _ _ _ named stepped
    exact ⟨List.forall_mem_singleton.mpr holds, kept⟩
  | case4 cursor value middle stepped moved error failed ih => cases done
  | case5 cursor value middle stepped moved others rest more ih =>
    cases done
    obtain ⟨holds, kept⟩ := alike _ _ _ _ named stepped
    obtain ⟨all, kept⟩ := ih _ kept more
    exact ⟨List.forall_mem_cons.mpr ⟨holds, all⟩, kept⟩
  | case6 cursor value middle stepped stuck => cases done

theorem chain {step : β → Parser (Option β)}
    (alike : ∀ value, q value → Yields (fun built => ∀ next ∈ built, q next) (step value))
    {value : β} (start : q value) : Yields q (chain step value) := by
  intro scope cursor built final named done
  fun_induction Parser.chain step value scope cursor with
  | case1 value cursor error failed => cases done
  | case2 value cursor middle stepped =>
    cases done
    exact ⟨start, (alike _ start _ _ _ _ named stepped).2⟩
  | case3 value cursor next middle stepped moved ih =>
    obtain ⟨holds, kept⟩ := alike value start _ _ _ _ named stepped
    exact ih (holds next rfl) kept done
  | case4 value cursor next middle stepped stuck => cases done

/-- A list that only ends behind a last element has an element. -/
theorem list_ne_nil {step : Parser (Item α)} (alike : Yields (fun item => item ≠ .stop) step) :
    Yields (fun values => values ≠ []) (Parser.list step) := by
  intro scope cursor values final named done
  refine ⟨?_, ((list (p := fun _ => True) (alike.weaken fun item _ => by
    cases item <;> trivial)) _ _ _ _ named done).2⟩
  rw [Parser.list] at done
  cases stepped : step scope cursor with
  | error error =>
    rw [stepped] at done
    cases done
  | ok result =>
    obtain ⟨item, middle⟩ := result
    rw [stepped] at done
    cases item with
    | stop => exact absurd rfl (alike _ _ _ _ named stepped).1
    | last value =>
      cases done
      simp
    | more value =>
      dsimp only at done
      split at done
      · split at done
        · cases done
        · cases done
          simp
      · cases done

end Yields

/-- Every parser leaves the tokens as they are. -/
theorem Runs.laws : Congruence fun parser _ => Runs parser := .of_uniform {
  pure := fun _ => .pure trivial
  bind := fun start more => start.after more
  current := Yields.current
  advance := Yields.advance
  nextKind := fun _ _ _ _ named done => by cases done; exact ⟨trivial, named⟩
  noDo := Yields.noDo
  fail := fun message args _ => .fail message args
  withNoDo := fun noDo alike => alike.withNoDo noDo
  list := fun alike => (Yields.list (p := fun _ => True) (alike.weaken fun item _ => by
    cases item <;> trivial)).runs
  chain := fun alike _ => Yields.chain (fun value _ => (alike value).weaken fun _ _ _ _ => trivial)
    trivial }

namespace Yields

variable {p : α → Prop} {element : Parser α}

theorem expect (kind : Token.Kind) {next : Parser α} (more : Yields p next) :
    Yields p (Functor.discard (Parser.expect kind) >>= fun _ => next) :=
  .after (Runs.laws.expect kind) fun _ => more

theorem commaSeparated (alike : Yields p element) :
    Yields (fun values => values ≠ [] ∧ ∀ value ∈ values, p value) (commaSeparated element) := by
  refine .and (.list_ne_nil ?_) (.list ?_)
  · refine alike.bind fun value _ => after (Runs.laws.eatComma) fun more => .ite ?_ ?_
    · exact .pure nofun
    · exact .pure nofun
  · refine alike.bind fun value holds => after (Runs.laws.eatComma) fun more => .ite ?_ ?_
    · exact .pure holds
    · exact .pure holds

theorem commaFollowed (alike : Yields p element) :
    Yields (fun values => ∀ value ∈ values, p value) (commaFollowed element) := by
  refine .list (after (Runs.laws.eatComma) fun more => .ite ?_ (.pure trivial))
  exact alike.bind fun value holds => .pure holds

end Yields

end RubySyntax.Grammar
