import Mathlib.Logic.Function.Iterate
import RubySyntax.Proofs.Lexer.Position

/-! Whole runs of the lexer. Every token but a terminal one takes text from the
input, so a run comes to its end, and its end is its only terminal token. -/
namespace RubySyntax.Lexer

open Text (byteLength)

/-- Tokens that the lexer hands out one after the other. -/
inductive Run : Lexer → List Token → Lexer → Prop where
  | done : Run lexer [] lexer
  | more (read : lexer.next = (some token, behind)) (rest : Run behind tokens final) :
      Run lexer (token :: tokens) final

variable {lexer middle behind final : Lexer}

theorem Run.append (run : Run lexer tokens behind) (more : Run behind others final) :
    Run lexer (tokens ++ others) final := by
  induction run with
  | done => exact more
  | more read _ ih => exact .more read (ih more)

/-- The tokens up to one of a run, and those from it on. -/
theorem Run.split (run : Run lexer (tokens ++ others) final) :
    ∃ middle, Run lexer tokens middle ∧ Run middle others final := by
  induction tokens generalizing lexer with
  | nil => exact ⟨lexer, .done, run⟩
  | cons token tokens ih =>
    cases run with
    | more read rest =>
      obtain ⟨middle, before, after⟩ := ih rest
      exact ⟨middle, .more read before, after⟩

/-- The last token of a run and the state in front of it. -/
theorem Run.unsnoc (run : Run lexer (tokens ++ [token]) final) :
    ∃ middle, Run lexer tokens middle ∧ middle.next = (some token, final) := by
  obtain ⟨middle, before, last⟩ := run.split
  cases last with
  | more read rest =>
    cases rest with
    | done => exact ⟨middle, before, read⟩

theorem next_of_halted (halted : lexer.halted = true) : lexer.next = (none, lexer) := by
  simp [next, halted]

theorem halted_of_last {kind : Token.Kind} (last : lexer.last = some kind) :
    lexer.halted = kind.isTerminal := by
  rw [halted, last]
  rfl

/-- After the terminal token there is none, however often one asks. -/
theorem next_iterate_of_halted (halted : lexer.halted = true) (calls : Nat) :
    ((fun lexer : Lexer => lexer.next.2)^[calls] lexer).next = (none, lexer) := by
  have fixed : (fun lexer : Lexer => lexer.next.2)^[calls] lexer = lexer :=
    Function.iterate_fixed (congrArg Prod.snd (next_of_halted halted)) calls
  rw [fixed, next_of_halted halted]

/-- There is one run to the end. -/
theorem Run.unique (run : Run lexer tokens final) (halted : final.halted = true)
    (second : Run lexer others other) (stopped : other.halted = true) : tokens = others := by
  induction run generalizing others with
  | done =>
    cases second with
    | done => rfl
    | more read _ =>
      rw [next_of_halted halted] at read
      cases read
  | more read _ ih =>
    cases second with
    | done =>
      rw [next_of_halted stopped] at read
      cases read
    | more again rest =>
      obtain ⟨same, rfl⟩ := Prod.mk.inj (read.symm.trans again)
      obtain rfl := Option.some.inj same
      rw [ih halted rest]

/-- A token that others follow takes text away. -/
theorem Emits.length_lt (emits : Emits lexer token behind) (follows : token.isTerminal = false) :
    behind.scanner.ahead.length < lexer.scanner.ahead.length := by
  cases emits with
  | separator place =>
    obtain ⟨rest, ahead⟩ := place.lineFeed
    have crossed := length_crossLineFeed lexer
    rw [ahead, List.length_cons] at crossed ⊢
    omega
  | endOfInput _ => cases follows
  | @lexeme lexeme bodies _ _ sound =>
    have taken := List.length_pos_iff.mpr sound.extent.advances
    have within := sound.extent.front.length_le
    simp only [Lexeme.chars, List.length_append] at taken within
    simp only [cut_eq_skip, length_skip, List.length_append]
    omega
  | fault _ _ _ => cases follows

theorem Emits.report (emits : Emits lexer token behind) :
    behind.report.isSome = (lexer.report.isSome || token.kind == .unknown) := by
  cases emits with
  | separator _ => simp [newLine]
  | endOfInput _ =>
    show lexer.report.isSome = (lexer.report.isSome || false)
    rw [Bool.or_false]
  | @lexeme lexeme bodies _ _ sound =>
    show lexer.report.isSome = (lexer.report.isSome || lexeme.kind == .unknown)
    have known : lexeme.kind ≠ .unknown := fun same => sound.kind (by simp [same])
    rw [beq_false_of_ne known, Bool.or_false]
  | fault _ _ _ =>
    show true = (lexer.report.isSome || true)
    rw [Bool.or_true]

/-- What one more token does to the lexer. -/
structure Step (lexer : Lexer) (token : Token) (behind : Lexer) : Prop where
  last : behind.last = some token.kind
  advances : Advances lexer behind
  report : behind.report.isSome = (lexer.report.isSome || token.kind == .unknown)
  shorter : token.isTerminal = false → ∀ front back, lexer.At front back →
    behind.scanner.ahead.length < back.length

theorem running_of_next (read : lexer.next = (some token, behind)) : lexer.halted = false := by
  refine Bool.eq_false_iff.mpr fun halted => ?_
  rw [next_of_halted halted] at read
  cases read

theorem next_step (read : lexer.next = (some token, behind)) : Step lexer token behind := by
  obtain ⟨stop, emitted, after, passes, emits, same⟩ := next_emits (running_of_next read)
  obtain ⟨tokenSame, rfl⟩ := Prod.mk.inj (same.symm.trans read)
  cases Option.some.inj tokenSame
  refine ⟨rfl, ?_, ?_, ?_⟩
  · exact passes.advances.trans (emits.advances.trans (.of_scanner_eq rfl))
  · show after.report.isSome = (lexer.report.isSome || emitted.kind == .unknown)
    rw [← passes.keeps.2]
    exact emits.report
  · intro follows front back place
    obtain ⟨passed, rest, rfl, stopped⟩ := passes.advances front back place
    have shorter := emits.length_lt follows
    rw [stopped.ahead] at shorter
    show after.scanner.ahead.length < _
    rw [List.length_append]
    omega

theorem Step.halted (step : Step lexer token behind) : behind.halted = token.isTerminal :=
  halted_of_last step.last

/-- Nothing is read before the lexer has halted but by a running one. -/
theorem Run.running (run : Run lexer tokens final) (running : final.halted = false) :
    lexer.halted = false := by
  cases run with
  | done => exact running
  | more read _ => exact running_of_next read

/-- Where the lexer has not halted, none of the tokens it handed out is terminal. -/
theorem Run.all_running (run : Run lexer tokens final) (running : final.halted = false) :
    ∀ token ∈ tokens, token.isTerminal = false := by
  induction run with
  | done => exact fun _ member => absurd member List.not_mem_nil
  | more read rest ih =>
    have first := (next_step read).halted.symm.trans (rest.running running)
    exact List.forall_mem_cons.mpr ⟨first, ih running⟩

/-- As long as the lexer has not halted, each token takes at least one character. -/
theorem Run.length_le (run : Run lexer tokens final) (running : final.halted = false)
    (place : lexer.At front back) : tokens.length + final.scanner.ahead.length ≤ back.length := by
  induction run generalizing front back with
  | done =>
    rw [place.ahead, List.length_nil, Nat.zero_add]
  | @more token behind tokens final lexer read rest ih =>
    have step := next_step read
    have shorter := step.shorter (step.halted.symm.trans (rest.running running)) _ _ place
    obtain ⟨passed, left, rfl, stands⟩ := step.advances _ _ place
    have bound := ih running stands
    rw [stands.ahead] at shorter
    rw [List.length_cons]
    omega

theorem next_of_running (running : lexer.halted = false) :
    ∃ token behind, lexer.next = (some token, behind) := by
  obtain ⟨_, _, _, _, _, read⟩ := next_emits running
  exact ⟨_, _, read⟩

theorem Run.advances (run : Run lexer tokens final) : Advances lexer final := by
  induction run with
  | done => exact .refl _
  | more read _ ih => exact (next_step read).advances.trans ih

theorem Run.report (run : Run lexer tokens final) :
    final.report.isSome = (lexer.report.isSome || tokens.any fun token => token.kind == .unknown) := by
  induction run with
  | done => simp
  | more read _ ih => rw [ih, (next_step read).report, List.any_cons, Bool.or_assoc]

/-- Behind a token the lexer has halted exactly if the token was a terminal one. -/
theorem Run.halted (run : Run lexer (tokens ++ [token]) final) :
    final.halted = token.isTerminal := by
  obtain ⟨middle, _, read⟩ := run.unsnoc
  exact (next_step read).halted

/-- A run to the end: tokens that others follow, and a terminal one. -/
structure Ended (lexer : Lexer) (front : List Token) (last : Token) (final : Lexer) : Prop where
  run : Run lexer (front ++ [last]) final
  bound : front.length ≤ lexer.scanner.ahead.length
  terminal : last.isTerminal = true
  running : ∀ token ∈ front, token.isTerminal = false

theorem take_ended (place : lexer.At before rest) (running : lexer.halted = false)
    (enough : rest.length < count) :
    ∃ front last final, lexer.take count = (front ++ [last], final) ∧
      Ended lexer front last final := by
  induction count generalizing lexer before rest with
  | zero => omega
  | succ count ih =>
    obtain ⟨token, behind, read⟩ := next_of_running running
    have step := next_step read
    have taken : lexer.take (count + 1) =
        (token :: (behind.take count).1, (behind.take count).2) := by
      simp [take, read]
    cases follows : token.isTerminal with
    | true =>
      have halted : behind.halted = true := step.halted.trans follows
      have stopped : behind.take count = ([], behind) := by
        cases count <;> simp [take, next_of_halted halted]
      refine ⟨[], token, behind, by rw [taken, stopped]; rfl, .more read .done, ?_, follows, ?_⟩
      · exact Nat.zero_le _
      · simp
    | false =>
      have running : behind.halted = false := step.halted.trans follows
      obtain ⟨passed, left, rfl, place'⟩ := step.advances _ _ place
      have shorter := step.shorter follows _ _ place
      rw [place'.ahead] at shorter
      obtain ⟨front, last, final, same, ended⟩ := ih place' running (by omega)
      refine ⟨token :: front, last, final, by rw [taken, same]; rfl, .more read ended.run, ?_,
        ended.terminal, ?_⟩
      · have bound := ended.bound
        rw [place'.ahead] at bound
        rw [place.ahead, List.length_cons]
        omega
      · intro other member
        rcases List.mem_cons.mp member with rfl | member
        · exact follows
        · exact ended.running other member

theorem run_to_end (place : lexer.At front back) :
    ∃ tokens final, Run lexer tokens final ∧ final.halted = true := by
  cases running : lexer.halted with
  | true => exact ⟨[], lexer, .done, running⟩
  | false =>
    obtain ⟨_, _, final, _, ended⟩ := take_ended place running (Nat.lt_succ_self _)
    exact ⟨_, final, ended.run, ended.run.halted.trans ended.terminal⟩

theorem toEnd_ended (source : String) :
    ∃ front last final, (ofSource source).toEnd = (front ++ [last], final) ∧
      Ended (ofSource source) front last final :=
  take_ended (ofSource_at source) rfl (Nat.lt_succ_self _)

theorem scan_of_run (run : Run (ofSource source) tokens final) (halted : final.halted = true) :
    (scan source).1 = tokens := by
  obtain ⟨front, last, stop, same, ended⟩ := toEnd_ended source
  have stopped : stop.halted = true := ended.run.halted.trans ended.terminal
  rw [run.unique halted ended.run stopped, scan, same]

theorem run_of_scan (same : (scan source).1 = tokens) :
    ∃ final, Run (ofSource source) tokens final ∧ final.halted = true := by
  obtain ⟨front, last, stop, reached, ended⟩ := toEnd_ended source
  rw [scan, reached] at same
  exact ⟨stop, same ▸ ended.run, ended.run.halted.trans ended.terminal⟩

theorem length_le_byteLength (cs : List Char) : cs.length ≤ byteLength cs := by
  induction cs with
  | nil => exact Nat.le_refl 0
  | cons c rest ih =>
    have positive := c.utf8Size_pos
    rw [List.length_cons, Text.byteLength_cons]
    omega

theorem isTerminal_iff (token : Token) :
    token.isTerminal = true ↔ token.kind = .endOfFile ∨ token.kind = .unknown := by
  unfold Token.isTerminal Token.Kind.isTerminal
  split <;> simp_all

theorem known_of_running {token : Token} (running : token.isTerminal = false) :
    token.kind ≠ .unknown := by
  intro unknown
  rw [(isTerminal_iff token).mpr (.inr unknown)] at running
  cases running

variable {front : List Token} {last : Token}

theorem Ended.any_unknown (ended : Ended lexer front last final) :
    (front ++ [last]).any (fun token => token.kind == .unknown) = true ↔ last.kind = .unknown := by
  simp only [List.any_eq_true, List.mem_append, List.mem_singleton, beq_iff_eq]
  constructor
  · rintro ⟨token, member | rfl, unknown⟩
    · have follows := ended.running token member
      have terminal := (isTerminal_iff token).mpr (.inr unknown)
      rw [follows] at terminal
      cases terminal
    · exact unknown
  · exact fun unknown => ⟨last, .inr rfl, unknown⟩

/-- Inside a run to the end the lexer has halted only behind the last token. -/
theorem Ended.halted_iff (ended : Ended lexer front last final) (running : lexer.halted = false)
    (split : before ++ after = front ++ [last]) (run : Run lexer before middle) :
    middle.halted = true ↔ after = [] := by
  rcases List.eq_nil_or_concat before with rfl | ⟨before, token, rfl⟩
  · cases run with
    | done =>
      rw [running]
      refine ⟨fun halted => (nomatch halted), ?_⟩
      rintro rfl
      simp at split
  · rw [List.concat_eq_append] at run split
    rw [run.halted]
    rcases List.eq_nil_or_concat after with rfl | ⟨after, other, rfl⟩
    · rw [List.append_nil] at split
      obtain ⟨_, same⟩ := List.append_inj' split rfl
      rw [List.cons.inj same |>.1]
      exact ⟨fun _ => rfl, fun _ => ended.terminal⟩
    · rw [List.concat_eq_append, ← List.append_assoc] at split
      obtain ⟨inside, _⟩ := List.append_inj' split rfl
      have member : token ∈ front := by simp [← inside]
      simp [ended.running token member]

theorem tokenize_eq_ok_iff (same : (ofSource source).toEnd = (front, final)) (tokens : List Token) :
    tokenize source = .ok tokens ↔ tokens = front ∧ final.report.isSome = false := by
  unfold tokenize scan
  rw [same]
  dsimp only
  cases report : final.report with
  | none => simp [eq_comm]
  | some report => simp

/-- Reading tokens always ends, after at most one more token than the source
has bytes. The last token, and it alone, is terminal; from it on the lexer has
halted and hands out nothing more. A fault is reported exactly if the last token
stands for one, and without a fault the tokens are those of the source. -/
theorem ofSource_toEnd (source : String) :
    ∃ front last final, (ofSource source).toEnd = (front ++ [last], final) ∧
      Run (ofSource source) (front ++ [last]) final ∧
      (front ++ [last]).length ≤ byteLength source.toList + 1 ∧
      last.isTerminal = true ∧ (∀ token ∈ front, token.isTerminal = false) ∧
      (∀ before after state, before ++ after = front ++ [last] →
        Run (ofSource source) before state → (state.halted = true ↔ after = [])) ∧
      (∀ calls, ((fun lexer : Lexer => lexer.next.2)^[calls] final).next.1 = none) ∧
      (final.takeReport.1.isSome = true ↔ last.kind = .unknown) ∧
      (∀ tokens, tokenize source = .ok tokens ↔
        tokens = front ++ [last] ∧ last.kind = .endOfFile) := by
  obtain ⟨front, last, final, same, ended⟩ := toEnd_ended source
  have reported : final.report.isSome = true ↔ last.kind = .unknown := by
    rw [ended.run.report, ← ended.any_unknown]
    simp [ofSource]
  refine ⟨front, last, final, same, ended.run, ?_, ended.terminal, ended.running,
    fun before after state split run => ended.halted_iff rfl split run, ?_, reported, ?_⟩
  · have bound := ended.bound
    have bytes := length_le_byteLength source.toList
    rw [(ofSource_at source).ahead] at bound
    rw [List.length_append, List.length_singleton]
    omega
  · intro calls
    rw [next_iterate_of_halted (ended.run.halted.trans ended.terminal)]
  · intro tokens
    rw [tokenize_eq_ok_iff same, ← Bool.not_eq_true, reported]
    have ends := (isTerminal_iff last).mp ended.terminal
    grind

end RubySyntax.Lexer
