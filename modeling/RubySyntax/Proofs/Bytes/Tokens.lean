import RubySyntax.Proofs.Bytes.Trivia

namespace RubySyntax

open Text (byteLength)
open Lexeme (Reading)

namespace Lexer

variable {lexer : Lexer} {front rest : List Char}

theorem At.cut_token {lexeme : Lexeme} (place : lexer.At front (lexeme.chars ++ rest)) :
    (lexer.cut lexeme).1 = (Reading.emitted front (.ok lexeme)).token := by
  have whole : (lexer.cut lexeme).1 = {
      kind := lexeme.kind
      text := .ofList lexeme.text
      span := (lexer.cut lexeme).1.span
      suffix := .ofList lexeme.options } := rfl
  rw [whole, place.cut_span]
  rfl

theorem At.fail_token {fault : Lexeme.Fault} (place : lexer.At front (fault.chars ++ rest)) :
    (lexer.fail fault).1 = (Reading.emitted front (.error fault)).token := by
  have span := place.fail_span
  simp only [Lexeme.Fault.chars, List.append_assoc] at place
  have opened : lexer.skip fault.opening.length |>.At (front ++ fault.opening) (fault.body ++ rest) :=
    place.skip_append
  have text : ((lexer.skip fault.opening.length).scanner.skip fault.body.length).pending =
      fault.body := by
    rw [opened, Scanner.pending_skip_between, List.take_left]
  have whole : (lexer.fail fault).1 = {
      kind := .unknown
      text := .ofList ((lexer.skip fault.opening.length).scanner.skip fault.body.length).pending
      span := (lexer.fail fault).1.span } := rfl
  rw [whole, text, span, Lexeme.Fault.chars, ← List.append_assoc]
  rfl

theorem At.fail_report {fault : Lexeme.Fault} (place : lexer.At front (fault.chars ++ rest)) :
    (lexer.fail fault).2.report = (Reading.emitted front (.error fault)).report := by
  have whole : (lexer.fail fault).2.report =
      some (.raiseAt (lexer.fail fault).1.span fault.message fault.args) := rfl
  rw [whole, place.fail_span, Lexeme.Fault.chars, ← List.append_assoc]
  rfl

end Lexer

namespace Bytes

open Scan

variable {source : List Char} {lexer : RubySyntax.Lexer}

theorem readToken_run {bytes : Lexer} {emitted : Emitted} {waiting : Option Pending} {cursor : Cursor}
    (reads : (Scan.read bytes.context bytes.waiting).run bytes.cursor =
      some ((emitted, waiting), cursor)) :
    Lexer.readToken.run bytes = some (emitted.token,
      { bytes with cursor, waiting, report := emitted.report <|> bytes.report }) := by
  have context : (Lexer.view Lexer.context).run bytes = some (bytes.context, bytes) := rfl
  have bodies : (Lexer.view Lexer.waiting).run bytes = some (bytes.waiting, bytes) := rfl
  rw [Lexer.readToken, run_bind_eq context, run_bind_eq bodies, run_bind_eq (scan_run reads)]
  rfl

/-- The token at the cursor is read by offsets as off the text ahead. -/
theorem leads_readToken : Leads (Marked source lexer) Lexer.readToken lexer.readToken.1
    (Stands source lexer.readToken.2) := by
  rintro _ ⟨front, ahead, width, place, whole, placed⟩
  rw [List.append_nil] at place whole
  subst whole
  obtain ⟨rest, split, goes⟩ := delivers_read lexer.context front ahead lexer.pending placed
  have later := read_placed lexer.context placed
  obtain ⟨width', went⟩ := goes width
  have run : Lexer.readToken.run ⟨.between front [] ahead width, lexer.last,
    lexer.pending.map .of, lexer.spacing, lexer.report⟩ = _ := readToken_run went
  have begins := place.ahead
  have offset := place.offset
  unfold RubySyntax.Lexer.readToken
  rw [begins, offset]
  cases read : Lexeme.read lexer.context (byteLength front) lexer.pending ahead with
  | ok result =>
    obtain ⟨lexeme, bodies⟩ := result
    rw [read] at split run later
    have split : ahead = lexeme.chars ++ rest := split
    rw [split] at place
    have place : { lexer with pending := bodies }.At front (lexeme.chars ++ rest) := place
    dsimp only
    rw [place.cut_token]
    refine ⟨_, run, [], .intro (front ++ lexeme.chars) rest width' ?_ ?_ later⟩
    · rw [List.append_nil]
      exact place.cut
    · rw [split, List.append_nil, List.append_assoc]
  | error fault =>
    rw [read] at split run later
    have split : ahead = fault.chars ++ rest := split
    rw [split] at place
    dsimp only
    have run : Lexer.readToken.run _ = some ((Reading.emitted front (.error fault)).token,
      ⟨.between (front ++ fault.chars) [] rest width', lexer.last, lexer.pending.map .of,
        lexer.spacing, (Reading.emitted front (.error fault)).report.or lexer.report⟩) := run
    rw [← place.fail_token, ← place.fail_report] at run
    refine ⟨_, run, [], .intro (front ++ fault.chars) rest width' ?_ ?_ later⟩
    · rw [List.append_nil]
      exact place.fail
    · rw [split, List.append_nil, List.append_assoc]

theorem leads_finish (token : Token) :
    Leads (Stands source lexer) (Lexer.finish token) (lexer.finish token).1
      (Stands source (lexer.finish token).2) := by
  have spacing : ∀ bytes, Stands source lexer bytes → bytes.spacing = lexer.spacing := by
    rintro _ ⟨pend, front, ahead, width, _, _, _⟩
    rfl
  refine (Leads.look (fun _ => id) fun _ _ _ => peek_between).bind ((Leads.view spacing).bind ?_)
  rintro _ ⟨pend, front, ahead, width, place, whole, placed⟩
  exact ⟨_, rfl, pend, .intro front ahead width place whole placed⟩

theorem leads_next : Leads (Stands source lexer) Lexer.next lexer.next.1 (Stands source lexer.next.2) := by
  have halted : ∀ bytes, Stands source lexer bytes → bytes.halted = lexer.halted := by
    rintro _ ⟨pend, front, ahead, width, _, _, _⟩
    rfl
  rw [Lexer.next]
  refine (Leads.view halted).bind ?_
  unfold RubySyntax.Lexer.next
  cases lexer.halted with
  | true => exact .pure _ _
  | false =>
    rw [if_neg Bool.false_ne_true, if_neg Bool.false_ne_true]
    refine (leads_skipTrivia false lexer nofun).bind ?_
    obtain ⟨token, stop⟩ := lexer.skipTrivia false
    cases token with
    | some newLine =>
      exact ((leads_finish newLine).before fun _ => Marked.stands).bind (.pure _ _)
    | none => exact leads_readToken.bind ((leads_finish _).bind (.pure _ _))

open RubySyntax.Lexer (Run)

/-- A run to the end is made by offsets as well. -/
theorem leads_tokens {tokens : List Token} {final : RubySyntax.Lexer} (run : Run lexer tokens final)
    (halted : final.halted = true) :
    Leads (Stands source lexer) Lexer.tokens tokens (Stands source final) := by
  induction run with
  | @done stop =>
    have next : Leads (Stands source stop) _ _ _ := leads_next
    rw [RubySyntax.Lexer.next_of_halted halted] at next
    rw [Lexer.tokens]
    exact next.bind (.pure _ _)
  | @more token behind tokens final lexer read rest ih =>
    have next : Leads (Stands source lexer) _ _ _ := leads_next
    rw [read] at next
    rw [Lexer.tokens]
    exact next.bind ((ih halted).bind (.pure _ _))

/-- No step is refused, and the tokens are those of the source. -/
theorem scan_eq (source : String) : scan source = some (RubySyntax.scan source) := by
  obtain ⟨front, last, final, same, ended⟩ := RubySyntax.Lexer.toEnd_ended source
  have start : Stands source.toList (.ofSource source) (.ofSource source) :=
    ⟨[], .intro [] source.toList 0 (RubySyntax.Lexer.ofSource_at source) rfl nofun⟩
  obtain ⟨behind, run, stands⟩ :=
    leads_tokens ended.run (ended.run.halted.trans ended.terminal) _ start
  have report : behind.report = final.report := by
    obtain ⟨pend, _, _, _, _, _, _⟩ := stands
    rfl
  rw [scan, run, RubySyntax.scan, same, Option.map_some]
  exact congrArg (fun report => some (front ++ [last], report)) report

/-- The lexer never cuts before its mark. A step that cuts the pending text or the text
behind the cursor, that emits or jumps, runs exactly where the mark comes no later than the
cursor and both stand between two characters of the source; a jump has to land there as
well, a step back must not pass the mark, and a slice has to have its bounds in order, in
the source and between two characters. The lexer that is made of these steps, and looks for
the bodies of heredocs by such slices, reads every source to its end. -/
theorem scan_inBounds :
    (∀ cursor, (pending.run cursor).isSome = true ↔ cursor.Sound) ∧
      (∀ cursor, (pendingSpan.run cursor).isSome = true ↔ cursor.Sound) ∧
      (∀ cursor, (rest.run cursor).isSome = true ↔ cursor.Sound) ∧
      (∀ kind cursor, ((emit kind).run cursor).isSome = true ↔ cursor.Sound) ∧
      (∀ kind text cursor, ((emitText kind text).run cursor).isSome = true ↔ cursor.Sound) ∧
      (∀ target cursor, ((jumpTo target).run cursor).isSome = true ↔
        cursor.Sound ∧ IsBoundary cursor.source (min target (byteLength cursor.source))) ∧
      (∀ cursor, (backup.run cursor).isSome = true ↔
        cursor.Sound ∧ cursor.width ≤ cursor.pos - cursor.start) ∧
      (∀ source first stop, (slice source first stop).isSome = true ↔
        first ≤ stop ∧ stop ≤ byteLength source ∧ IsBoundary source first ∧ IsBoundary source stop) ∧
      ∀ source, scan source = some (RubySyntax.scan source) :=
  ⟨fun _ => pending_isSome_iff, fun _ => pendingSpan_isSome_iff, fun _ => rest_isSome_iff,
    fun _ _ => emit_isSome_iff, fun _ _ _ => emitText_isSome_iff, fun _ _ => jumpTo_isSome_iff,
    fun _ => backup_isSome_iff, fun _ _ _ => slice_isSome_iff, scan_eq⟩

end Bytes

end RubySyntax
