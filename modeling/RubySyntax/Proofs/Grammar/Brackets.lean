import RubySyntax.Proofs.Grammar.Discipline.Expression
import RubySyntax.Proofs.Grammar.LexicalFault

/-! Brackets of programs. Every parser passes over as many closers as openers, each
closer in the place of the most recent opener, so the brackets of a whole program are
well nested. -/
namespace RubySyntax

open Token (Kind Punct)

/-- The closers that are due behind a token of this kind, the next one first; none if
the token closes what is not the most recent opener. -/
def Token.Kind.due (due : List Punct) : Kind → Option (List Punct)
  | punct p =>
    match p.closer? with
    | some closer => some (closer :: due)
    | none => if p.isCloser then (if due.head? = some p then some due.tail else none) else some due
  | _ => some due

/-- Every closer belongs to the most recent opener that is still open, and none is left
open. -/
def WellNested (tokens : List Token) : Prop :=
  tokens.foldlM (fun due token => token.kind.due due) [] = some []

instance (tokens : List Token) : Decidable (WellNested tokens) :=
  inferInstanceAs (Decidable (_ = _))

namespace Grammar

open Grammar.Parser

/-- Tokens that close the bracket that is open, if one is, and each that they open. -/
def Balances (closer? : Option Punct) (run : List Token) : Prop :=
  ∀ due, run.foldlM (fun due token => token.kind.due due) (closer?.toList ++ due) = some due

namespace Balances

variable {closer? : Option Punct} {run more : List Token} {token : Token}

theorem nil : Balances none [] := fun _ => rfl

theorem append (first : Balances closer? run) (rest : Balances none more) :
    Balances closer? (run ++ more) := by
  intro due
  rw [List.foldlM_append, first due]
  exact rest due

theorem behind (first : Balances none run) (rest : Balances closer? more) :
    Balances closer? (run ++ more) := by
  intro due
  have passed := first (closer?.toList ++ due)
  rw [Option.toList_none, List.nil_append] at passed
  rw [List.foldlM_append, passed]
  exact rest due

theorem due_other {kind : Kind} (single : kind.isBracket = false) (due : List Punct) :
    kind.due due = some due := by
  cases kind with
  | punct p =>
    obtain ⟨opens, closes⟩ := Bool.or_eq_false_iff.mp single
    simp only [Kind.due, Option.not_isSome_iff_eq_none.mp (Bool.not_eq_true _ ▸ opens), closes,
      Bool.false_eq_true, if_false]
  | _ => rfl

theorem single (other : token.kind.isBracket = false) : Balances none [token] := by
  intro due
  rw [List.foldlM_cons, due_other other]
  rfl

theorem of_forall (other : ∀ token ∈ run, token.kind.isBracket = false) : Balances none run := by
  induction run with
  | nil => exact nil
  | cons token rest ih =>
    obtain ⟨here, others⟩ := List.forall_mem_cons.mp other
    exact append (single here) (ih others)

theorem closer {p : Punct} (closes : p.isCloser = true) (here : token.kind = .punct p) :
    Balances (some p) [token] := by
  intro due
  have single : p.closer? = none := by cases p <;> first | rfl | cases closes
  rw [List.foldlM_cons, here]
  simp [Kind.due, single, closes]

theorem opener {p closer : Punct} (opens : p.closer? = some closer) (here : token.kind = .punct p)
    (rest : Balances (some closer) run) : Balances none (token :: run) := by
  intro due
  rw [List.foldlM_cons, here]
  simp only [Kind.due, opens]
  exact rest due

end Balances

/-- The last token is the end of the input, or stands for a fault. -/
def Cursor.Terminated (cursor : Cursor) : Prop :=
  ∀ token ∈ cursor.tokens.getLast?, token.isTerminal = true

theorem Cursor.Terminated.behind {cursor final : Cursor} (terminated : cursor.Terminated)
    (split : cursor.tokens = run ++ final.tokens) : final.Terminated := by
  intro token last
  refine terminated token ?_
  rwa [split, List.getLast?_append_of_ne_nil run (show final.tokens ≠ [] from nofun)]

/-- What the parser reads closes the bracket that is open, if one is, and every other one
that is opened in it. -/
def Balanced {α : Type} (closer? : Option Punct) (here : Kind → Prop) (parser : Parser α) : Prop :=
  ∀ scope cursor value final, cursor.Terminated → here cursor.token.kind →
    parser scope cursor = .ok (value, final) →
    ∃ run, cursor.tokens = run ++ final.tokens ∧ Balances closer? run

namespace Balanced

variable {α β : Type} {closer? : Option Punct} {here : Kind → Prop}

theorem stays {parser : Parser α}
    (same : ∀ scope cursor value final, parser scope cursor = .ok (value, final) → final = cursor) :
    Balanced none here parser := by
  intro scope cursor value final _ _ done
  obtain rfl := same scope cursor value final done
  exact ⟨[], rfl, .nil⟩

theorem begins {first : Parser α} {next : α → Parser β} (start : Balanced closer? here first)
    (more : ∀ value, Balanced none Anywhere (next value)) :
    Balanced closer? here (first >>= next) := by
  intro scope cursor value final terminated fits done
  obtain ⟨read, middle, begun, rest⟩ := bind_eq_ok done
  obtain ⟨run, split, balances⟩ := start scope cursor read middle terminated fits begun
  obtain ⟨after, split', balances'⟩ :=
    more read scope middle value final (terminated.behind split) trivial rest
  exact ⟨run ++ after, by rw [split, split', List.append_assoc], balances.append balances'⟩

theorem ends {first : Parser α} {next : α → Parser β} (start : Balanced none here first)
    (more : ∀ value, Balanced closer? Anywhere (next value)) :
    Balanced closer? here (first >>= next) := by
  intro scope cursor value final terminated fits done
  obtain ⟨read, middle, begun, rest⟩ := bind_eq_ok done
  obtain ⟨run, split, balances⟩ := start scope cursor read middle terminated fits begun
  obtain ⟨after, split', balances'⟩ :=
    more read scope middle value final (terminated.behind split) trivial rest
  exact ⟨run ++ after, by rw [split, split', List.append_assoc], balances.behind balances'⟩

/-- What is passed over is a token that others follow. -/
theorem tokens_of_advance {cursor final : Cursor} (terminated : cursor.Terminated)
    (running : cursor.token.isTerminal = false)
    (moved : Parser.advance scope cursor = .ok (token, final)) :
    cursor.tokens = [cursor.token] ++ final.tokens := by
  rcases (advance_eq_ok moved).2 with ⟨rfl, ended⟩ | follows
  · have last := terminated final.token
    rw [Cursor.tokens, Cursor.rest_of_ended ended] at last
    rw [last rfl] at running
    cases running
  · rw [Cursor.tokens, Cursor.rest_of_next? follows]
    rfl

theorem running_of_isInner {token : Token} (inner : IsInner token.kind) :
    token.isTerminal = false := by
  refine Bool.eq_false_iff.mpr fun terminal => ?_
  rcases (Lexer.isTerminal_iff token).mp terminal with ended | unknown
  · exact inner.within (.inl ended)
  · exact inner.known unknown

theorem running_of_punct {token : Token} {p : Punct} (here : token.kind = .punct p) :
    token.isTerminal = false := by
  rw [Token.isTerminal, here]
  rfl

theorem step (inner : ∀ kind, here kind → IsInner kind) : Balanced none here Parser.advance := by
  intro scope cursor token final terminated fits moved
  have fits := inner _ fits
  exact ⟨[cursor.token], tokens_of_advance terminated (running_of_isInner fits) moved,
    .single fits.single⟩

theorem opener {p closer : Punct} {next : Parser β} (opens : p.closer? = some closer)
    (more : Balanced (some closer) Anywhere next) :
    Balanced none (· = .punct p) (Functor.discard Parser.advance >>= fun _ => next) := by
  intro scope cursor value final terminated fits done
  obtain ⟨_, middle, passed, rest⟩ := bind_eq_ok done
  obtain ⟨_, passed⟩ := discard_eq_ok passed
  have split := tokens_of_advance terminated (running_of_punct fits) passed
  obtain ⟨run, split', balances⟩ :=
    more scope middle value final (terminated.behind split) trivial rest
  exact ⟨cursor.token :: run, by rw [split, split']; rfl, balances.opener opens fits⟩

theorem expect {kind : Kind} (inner : IsInner kind) :
    Balanced none here (Functor.discard (Parser.expect kind)) := by
  intro scope cursor value final terminated _ done
  obtain ⟨_, read⟩ := discard_eq_ok done
  obtain ⟨rfl, moved⟩ := expect_eq_ok read
  exact ⟨_, tokens_of_advance terminated (running_of_isInner inner) moved, .single inner.single⟩

theorem closer {p : Punct} (closes : p.isCloser = true) :
    Balanced (some p) here (Functor.discard (Parser.expect (.punct p))) := by
  intro scope cursor value final terminated _ done
  obtain ⟨_, read⟩ := discard_eq_ok done
  obtain ⟨same, moved⟩ := expect_eq_ok read
  exact ⟨_, tokens_of_advance terminated (running_of_punct same) moved, .closer closes same⟩

theorem skipWhile {holds : Kind → Bool} (separate : ∀ kind, holds kind = true → EndsStatement kind) :
    Balanced none here (Parser.skipWhile holds) := by
  intro scope cursor _ final _ _ done
  obtain ⟨run, split, passed, _⟩ := skipWhile_run done
  refine ⟨run, split, .of_forall fun token member => ?_⟩
  obtain kind | kind | kind := (separate _ (passed token member)).cases
  all_goals
    rw [kind]
    rfl

theorem advanceTwo {first second : Kind} {other : Parser β} {next : Token → Parser β}
    (inner : IsInner first) (inner' : IsInner second) (otherwise : Balanced none Anywhere other)
    (more : ∀ token, Balanced none Anywhere (next token)) :
    Balanced none Anywhere (isAtGlued first >>= fun here => nextKind >>= fun behind =>
      if (here && behind == some second) = true then
        Functor.discard Parser.advance >>= fun _ => Parser.advance >>= next
      else other) := by
  intro scope cursor value final terminated _ done
  obtain ⟨glued, _, asked, done⟩ := bind_eq_ok done
  cases asked
  obtain ⟨behind, _, asked, done⟩ := bind_eq_ok done
  cases asked
  split at done
  · rename_i both
    obtain ⟨glued, ahead⟩ := Bool.and_eq_true_iff.mp both
    have here : cursor.token.kind = first := beq_iff_eq.mp (Bool.and_eq_true_iff.mp glued).1
    obtain ⟨_, middle, passed, done⟩ := bind_eq_ok done
    obtain ⟨_, passed⟩ := discard_eq_ok passed
    have split := tokens_of_advance terminated (running_of_isInner (here ▸ inner)) passed
    have there : middle.token.kind = second := by
      have rest : cursor.rest = middle.tokens := (List.cons.inj split).2
      rw [rest, beq_iff_eq] at ahead
      exact Option.some.inj ahead
    have rest : Balanced none (· = second) (Parser.advance >>= next) :=
      .begins (step fun _ same => same ▸ inner') more
    obtain ⟨run, split', balances⟩ :=
      rest scope middle value final (terminated.behind split) there done
    exact ⟨cursor.token :: run, by rw [split, split']; rfl,
      Balances.append (.single (here ▸ inner.single)) balances⟩
  · exact otherwise scope cursor value final terminated trivial done

theorem list {step : Parser (Item α)} (alike : Balanced none Anywhere step) :
    Balanced none Anywhere (Parser.list step) := by
  intro scope cursor values final terminated _ done
  fun_induction Parser.list step scope cursor generalizing values with
  | case1 cursor error failed => cases done
  | case2 cursor middle stepped =>
    cases done
    exact alike _ _ _ _ terminated trivial stepped
  | case3 cursor value middle stepped =>
    cases done
    exact alike _ _ _ _ terminated trivial stepped
  | case4 cursor value middle stepped moved error failed ih => cases done
  | case5 cursor value middle stepped moved others rest more ih =>
    cases done
    obtain ⟨run, split, balances⟩ := alike _ _ _ _ terminated trivial stepped
    obtain ⟨after, split', balances'⟩ := ih _ (terminated.behind split) trivial more
    exact ⟨run ++ after, by rw [split, split', List.append_assoc], balances.append balances'⟩
  | case6 cursor value middle stepped stuck => cases done

theorem chain {step : β → Parser (Option β)} (alike : ∀ value, Balanced none Anywhere (step value))
    (value : β) : Balanced none Anywhere (Parser.chain step value) := by
  intro scope cursor built final terminated _ done
  fun_induction Parser.chain step value scope cursor with
  | case1 value cursor error failed => cases done
  | case2 value cursor middle stepped =>
    cases done
    exact alike _ _ _ _ _ terminated trivial stepped
  | case3 value cursor grown middle stepped moved ih =>
    obtain ⟨run, split, balances⟩ := alike _ _ _ _ _ terminated trivial stepped
    obtain ⟨after, split', balances'⟩ := ih (terminated.behind split) trivial done
    exact ⟨run ++ after, by rw [split, split', List.append_assoc], balances.append balances'⟩
  | case4 value cursor grown middle stepped stuck => cases done

theorem eatComma : Balanced none Anywhere Parser.eatComma := by
  have lines : Balanced none Anywhere Parser.skipNewLines := skipWhile fun kind same => by
    rw [beq_iff_eq.mp same]
    decide
  intro scope cursor value final terminated _ done
  obtain ⟨found, middle, eaten, rest⟩ := bind_eq_ok done
  rcases eat_eq_ok eaten with ⟨rfl, rfl⟩ | ⟨rfl, here, _, moved⟩
  · cases rest
    exact ⟨[], rfl, .nil⟩
  · have split := tokens_of_advance terminated (running_of_punct here) moved
    obtain ⟨_, _, skipped, same⟩ := bind_eq_ok rest
    cases same
    obtain ⟨run, split', balances⟩ :=
      lines scope middle () final (terminated.behind split) trivial skipped
    refine ⟨cursor.token :: run, by rw [split, split']; rfl, Balances.append (.single ?_) balances⟩
    rw [here]
    rfl

/-- Reading as many closers as openers is a discipline. -/
def discipline : Discipline where
  Firm := Balanced none
  Loose := Balanced none Anywhere
  Closing := Balanced
  weaken wider alike := fun scope cursor value final terminated fits =>
    alike scope cursor value final terminated (wider _ fits)
  weakenClosing wider alike := fun scope cursor value final terminated fits =>
    alike scope cursor value final terminated (wider _ fits)
  loose := id
  firm := id
  closing _ := id
  refuses refuses := by
    intro scope cursor value final _ _ done
    obtain ⟨error, failed⟩ := refuses scope cursor
    rw [failed] at done
    cases done
  pure _ := .stays fun _ _ _ _ done => by cases done; rfl
  bind := begins
  bindLoose := begins
  begins := begins
  ends := fun start => ends fun scope cursor value final terminated _ =>
    start scope cursor value final terminated trivial
  current alike _ := fun scope cursor value final terminated fits =>
    alike cursor.token fits scope cursor value final terminated rfl
  currentClosing alike := fun scope cursor value final terminated fits =>
    alike cursor.token fits scope cursor value final terminated rfl
  kindLoose := .stays fun _ _ _ _ done => by cases done; rfl
  noDo alike := fun scope => alike scope.noDo scope
  advance inner more := .begins (step inner) more
  advanceTwo := advanceTwo
  opener := opener
  expect := expect
  closer := closer
  skipWhile := skipWhile
  withNoDo noDo alike := fun scope => alike { scope with noDo }
  withNoDoLoose noDo alike := fun scope => alike { scope with noDo }
  withNoDoClosing noDo alike := fun scope => alike { scope with noDo }
  list := list
  listLoose := list
  chain := chain
  commaSeparated alike := list <| alike.begins fun _ => eatComma.begins fun more => by
    split
    · exact .stays fun _ _ _ _ done => by cases done; rfl
    · exact .stays fun _ _ _ _ done => by cases done; rfl

end Balanced

/-- What a program passes over in front of the end of the input balances. -/
theorem balances_of_program {scope : Scope} {dummy first : Token} {rest : List Token}
    (terminated : (Cursor.ofTokens first rest).Terminated)
    (done : program depth scope (.ofTokens dummy (first :: rest)) = .ok (nodes, final)) :
    ∃ run, first :: rest = run ++ final.tokens ∧ Balances none run := by
  have nests := Balanced.discipline.nested depth
  exact Balanced.discipline.statements nests [] scope _ nodes final terminated trivial
    (program_ofTokens_ok done)

end Grammar

/-- Tokens up to a terminal one are all tokens if only the last one is terminal. -/
theorem eq_of_terminal {front run rest : List Token} {last token : Token}
    (running : ∀ token ∈ front, token.isTerminal = false)
    (split : front ++ [last] = run ++ token :: rest) (terminal : token.isTerminal = true) :
    front = run ∧ last = token := by
  rcases List.eq_nil_or_concat rest with rfl | ⟨rest, other, rfl⟩
  · obtain ⟨same, ends⟩ := List.append_inj' split rfl
    exact ⟨same, (List.cons.inj ends).1⟩
  · rw [List.concat_eq_append, ← List.cons_append, ← List.append_assoc] at split
    obtain ⟨rfl, _⟩ := List.append_inj' split rfl
    rw [running token (by simp)] at terminal
    cases terminal

/-- The brackets of a source that has a program are well nested. -/
theorem parse_wellNested (read : parse source options = .ok program) :
    ∃ tokens, tokenize source = .ok tokens ∧ WellNested tokens := by
  obtain ⟨front, last, tokens, running, ends, none⟩ := scan_of_parse read
  refine ⟨(scan source).1, tokenize_of_none none, ?_⟩
  have terminal := (Lexer.isTerminal_iff last).mpr (.inl ends)
  have nonempty : front ++ [last] ≠ [] := List.append_ne_nil_of_right_ne_nil front nofun
  obtain ⟨first, rest, split⟩ := List.exists_cons_of_ne_nil nonempty
  obtain ⟨final, read⟩ := parse_eq_ok_iff.mp read
  rw [tokens, split] at read
  have terminated : (Grammar.Cursor.ofTokens first rest).Terminated := by
    intro token here
    have ends : token ∈ (first :: rest).getLast? := here
    rw [← split, List.getLast?_concat] at ends
    exact Option.some.inj ends ▸ terminal
  obtain ⟨run, split', balances⟩ := Grammar.balances_of_program terminated read
  obtain ⟨_, ended⟩ := Grammar.token_of_program read
  obtain ⟨rfl, rfl⟩ := eq_of_terminal running (split.trans split')
    ((Lexer.isTerminal_iff final.token).mpr (.inl ended))
  have all := balances.append (.single (show final.token.kind.isBracket = false by rw [ended]; rfl))
  rw [tokens]
  exact all []

private theorem nested_matches :
    (parse "f([1, \x7bx: (2)\x7d])" matches .ok _) := by decide +kernel

theorem parse_wellNested_nested :
    ∃ tokens, tokenize "f([1, \x7bx: (2)\x7d])" = .ok tokens ∧ WellNested tokens := by
  have found := nested_matches
  split at found
  · rename_i program read
    exact parse_wellNested read
  · cases found

end RubySyntax
