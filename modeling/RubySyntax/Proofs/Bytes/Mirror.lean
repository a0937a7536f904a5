import RubySyntax.Proofs.Bytes.Lexer
import RubySyntax.Proofs.Lexer.Taken

/-! The state of the lexer by the offsets of bytes. It goes through the same states as
the lexer that holds the text ahead itself, step by step. -/
namespace RubySyntax.Bytes

open Text (byteLength byteLength_append)
open Scan

variable {α β : Type} {P Q R : Lexer → Prop} {op : Step α} {more : α → Step β} {value : α}
  {result : β} {source : List Char} {lexer : RubySyntax.Lexer}

/-- From a state with `before` the step comes to one with `after` and yields `value`, and
so it is not refused. -/
def Leads (before : Lexer → Prop) (op : Step α) (value : α) (after : Lexer → Prop) : Prop :=
  ∀ bytes, before bytes → ∃ behind, op.run bytes = some (value, behind) ∧ after behind

namespace Leads

theorem pure (value : α) (P : Lexer → Prop) : Leads P (Pure.pure value) value P :=
  fun bytes holds => ⟨bytes, rfl, holds⟩

theorem bind (first : Leads P op value Q) (then_ : Leads Q (more value) result R) :
    Leads P (op >>= more) result R := by
  intro bytes holds
  obtain ⟨middle, reads, here⟩ := first bytes holds
  obtain ⟨behind, goes, there⟩ := then_ middle here
  exact ⟨behind, (run_bind_eq reads).trans goes, there⟩

theorem discard (first : Leads P op value Q) : Leads P (discard op) () Q := by
  intro bytes holds
  obtain ⟨behind, reads, here⟩ := first bytes holds
  exact ⟨behind, run_discard reads, here⟩

theorem before (imp : ∀ bytes, P bytes → Q bytes) (leads : Leads Q op value R) : Leads P op value R :=
  fun bytes holds => leads bytes (imp bytes holds)

theorem view {field : Lexer → α} (known : ∀ bytes, P bytes → field bytes = value) :
    Leads P (Lexer.view field) value P := by
  intro bytes holds
  refine ⟨bytes, ?_, holds⟩
  rw [← known bytes holds]
  rfl

end Leads

/-- The state of a lexer by offsets; `pend` stands between the mark and the cursor. -/
inductive Mirrors (source : List Char) (lexer : RubySyntax.Lexer) (pend : List Char) : Lexer → Prop
  | intro (front ahead : List Char) (width : Nat) (place : lexer.At (front ++ pend) ahead)
      (whole : front ++ pend ++ ahead = source)
      (placed : ∀ pending, lexer.pending = some pending → Placed source pending) :
      Mirrors source lexer pend
        { cursor := .between front pend ahead width
          last := lexer.last
          waiting := lexer.pending.map .of
          spacing := lexer.spacing
          report := lexer.report }

/-- The same state, wherever the mark is. -/
def Stands (source : List Char) (lexer : RubySyntax.Lexer) (bytes : Lexer) : Prop :=
  ∃ pend, Mirrors source lexer pend bytes

/-- The same state, with the mark at the cursor. -/
abbrev Marked (source : List Char) (lexer : RubySyntax.Lexer) : Lexer → Prop :=
  Mirrors source lexer []

theorem Marked.stands {bytes : Lexer} (marked : Marked source lexer bytes) :
    Stands source lexer bytes := ⟨[], marked⟩

theorem scan_run {op : Scan α} {bytes : Lexer} {cursor : Cursor}
    (reads : op.run bytes.cursor = some (value, cursor)) :
    (Lexer.scan op).run bytes = some (value, { bytes with cursor }) := by
  show (op.run bytes.cursor).map _ = _
  rw [reads]
  rfl

namespace Leads

theorem look {op : Scan α} (stands : ∀ bytes, P bytes → Stands source lexer bytes)
    (looks : ∀ front pend width, op.run (.between front pend lexer.scanner.ahead width) =
      some (value, .between front pend lexer.scanner.ahead width)) :
    Leads P (Lexer.scan op) value P := by
  intro bytes holds
  refine ⟨bytes, ?_, holds⟩
  obtain ⟨pend, front, ahead, width, place, _, _⟩ := stands bytes holds
  rw [place.ahead] at looks
  exact scan_run (looks front pend width)

theorem scan {op : Scan α} {count : Nat}
    (reads : Consumes op lexer.scanner.ahead value (lexer.scanner.ahead.drop count)) :
    Leads (Stands source lexer) (Lexer.scan op) value (Stands source (lexer.skip count)) := by
  rintro _ ⟨pend, front, ahead, width, place, whole, placed⟩
  rw [place.ahead] at reads
  obtain ⟨taken, split, goes⟩ := reads
  obtain rfl : ahead.take count = taken :=
    List.append_cancel_right ((List.take_append_drop count ahead).trans split)
  obtain ⟨width', went⟩ := goes front pend width
  refine ⟨_, scan_run went, pend ++ ahead.take count, .intro front (ahead.drop count) width' ?_ ?_ placed⟩
  · rw [← List.append_assoc]
    exact place.skip count
  · rw [← whole]
    simp

theorem ignore : Leads (Stands source lexer) (Lexer.scan ignore) () (Marked source lexer) := by
  rintro _ ⟨pend, front, ahead, width, place, whole, placed⟩
  refine ⟨_, scan_run ignore_between, .intro (front ++ pend) ahead width ?_ ?_ placed⟩
  · rwa [List.append_nil]
  · rwa [List.append_nil]

end Leads

/-- Where two splits of a source meet, the later one goes on from the earlier. -/
theorem split_later {front ahead passed rest : List Char} (same : front ++ ahead = passed ++ rest)
    (later : byteLength front ≤ byteLength passed) :
    ∃ skipped, passed = front ++ skipped ∧ ahead = skipped ++ rest := by
  rcases List.append_eq_append_iff.mp same with ⟨skipped, rfl, split⟩ | ⟨back, rfl, split⟩
  · exact ⟨skipped, rfl, split⟩
  · have empty : back = [] := by
      by_contra filled
      have wide := RubySyntax.Lexer.byteLength_pos filled
      rw [byteLength_append] at later
      omega
    subst empty
    exact ⟨[], by simp, by simpa using split.symm⟩

theorem jumpTo_between {front pend ahead passed rest : List Char}
    (split : front ++ pend ++ ahead = passed ++ rest) (width : Nat) :
    (jumpTo (byteLength passed)).run (.between front pend ahead width) =
      some ((), .between passed [] rest 0) := by
  have within : min (byteLength passed) (byteLength (front ++ pend ++ ahead)) = byteLength passed := by
    rw [split, byteLength_append]
    exact Nat.min_eq_left (Nat.le_add_right _ _)
  have lands : Cursor.mk (front ++ pend ++ ahead)
      (min (byteLength passed) (byteLength (front ++ pend ++ ahead)))
      (min (byteLength passed) (byteLength (front ++ pend ++ ahead))) 0 = .between passed [] rest 0 := by
    rw [within, split, Cursor.between, List.append_nil]
  rw [jumpTo, run_bind_eq (run_discard pending_between)]
  exact (congrArg (discard Scan.pending).run lands).trans (run_discard pending_between)

/-- Behind the line feed of their line the bodies read ahead are passed over. -/
theorem leads_resumeAfter {lineFeed : Nat} (behind : lexer.scanner.offset = lineFeed + 1) :
    Leads (Stands source lexer) (Lexer.resumeAfter lineFeed) ()
      (Stands source (lexer.resumeAfter lineFeed)) := by
  have waits : ∀ bytes, Stands source lexer bytes → bytes.waiting = lexer.pending.map .of := by
    rintro _ ⟨pend, front, ahead, width, place, whole, placed⟩
    rfl
  refine (Leads.view waits).bind ?_
  unfold RubySyntax.Lexer.resumeAfter
  cases pending : lexer.pending with
  | none => exact .pure () _
  | some bodies =>
    show Leads _ (if bodies.lineEnd = lineFeed then _ else _) _ _
    dsimp only
    split
    · rename_i ends
      rintro _ ⟨pend, front, ahead, width, place, whole, placed⟩
      obtain ⟨below, passed, split, resume⟩ := placed bodies pending
      have later : byteLength (front ++ pend) ≤ byteLength passed := by
        rw [← place.offset]
        omega
      obtain ⟨skipped, rfl, rfl⟩ := split_later (whole.trans split) later
      have jumps := jumpTo_between (whole.trans split) width
      rw [← resume] at jumps
      have count : lexer.scanner.ahead.length - bodies.rest.length = skipped.length := by
        rw [place.ahead, List.length_append, Nat.add_sub_cancel]
      rw [count]
      refine ⟨_, scan_run jumps, [], .intro (front ++ pend ++ skipped) bodies.rest 0 ?_ ?_ nofun⟩
      · rw [List.append_nil]
        exact place.skip_append
      · rw [List.append_nil, split]
    · exact .pure () _

theorem offset_of_stands : ∀ bytes, Stands source lexer bytes →
    bytes.cursor.pos = lexer.scanner.offset := by
  rintro _ ⟨pend, front, ahead, width, place, _, _⟩
  exact place.offset.symm

/-- A line feed is crossed, with the bodies that follow its line. -/
theorem leads_crossLineFeed {rest : List Char} (feed : lexer.scanner.ahead = '\n' :: rest) :
    Leads (Stands source lexer) Lexer.crossLineFeed true (Stands source lexer.crossLineFeed) := by
  have reads : Consumes Scan.next lexer.scanner.ahead (some '\n') (lexer.scanner.ahead.drop 1) := by
    rw [feed]
    exact .next '\n' rest
  refine (Leads.view offset_of_stands).bind ((Leads.scan reads).bind ?_)
  refine (leads_resumeAfter ?_).bind (.pure true _)
  show lexer.scanner.offset + byteLength (lexer.scanner.ahead.take 1) = _
  rw [feed]
  rfl

/-- At the end no bodies are waiting for their line. -/
theorem crossLineFeed_end {bytes : Lexer} (stands : Stands source lexer bytes)
    (ended : lexer.scanner.ahead = []) : lexer.crossLineFeed = lexer.skip 1 := by
  obtain ⟨pend, front, ahead, width, place, whole, placed⟩ := stands
  obtain rfl := place.ahead.symm.trans ended
  unfold RubySyntax.Lexer.crossLineFeed RubySyntax.Lexer.resumeAfter
  split
  · rfl
  · rename_i bodies pending
    obtain ⟨below, passed, split, resume⟩ := placed bodies pending
    refine if_neg fun same => ?_
    have size := congrArg byteLength (whole.trans split)
    rw [List.append_nil, byteLength_append passed, ← place.offset] at size
    omega

theorem leads_crossLineFeed_end (ended : lexer.scanner.ahead = []) :
    Leads (Stands source lexer) Lexer.crossLineFeed false (Stands source lexer.crossLineFeed) := by
  have reads : Consumes Scan.next lexer.scanner.ahead none (lexer.scanner.ahead.drop 1) := by
    rw [ended]
    exact .next_nil
  intro bytes stands
  rw [crossLineFeed_end stands ended]
  exact (Leads.view offset_of_stands).bind ((Leads.scan reads).bind (.pure false _)) bytes stands

end RubySyntax.Bytes
