import RubySyntax.Diagnostic.Report
import RubySyntax.Proofs.Bytes.Consume
import RubySyntax.Proofs.Lexeme.Extent

namespace RubySyntax

open Text (byteLength Span)

/-- A token, with the fault that it stands for if it is of unknown kind. -/
structure Bytes.Emitted where
  token : Token
  report : Option Diagnostic.Report := none
deriving DecidableEq, Repr

namespace Lexeme

def Reading.chars : Reading → List Char
  | .ok lexeme => lexeme.chars
  | .error fault => fault.chars

/-- The token of a reading behind `front`. -/
def Reading.emitted (front : List Char) : Reading → Bytes.Emitted
  | .ok lexeme =>
    { token := {
        kind := lexeme.kind
        text := .ofList lexeme.text
        span := .ofBounds (byteLength (front ++ lexeme.opening))
          (byteLength (front ++ lexeme.opening ++ lexeme.body))
        suffix := .ofList lexeme.options } }
  | .error fault =>
    let span := .ofBounds (byteLength (front ++ fault.opening))
      (byteLength (front ++ fault.opening ++ fault.body))
    { token := { kind := .unknown, text := .ofList fault.body, span }
      report := some (.raiseAt span fault.message fault.args) }

end Lexeme

namespace Bytes

open Lexeme (Reading)

namespace Scan

def emitted (kind : Token.Kind) : Scan Emitted := return { token := ← emit kind }

/-- Reads a character if nothing is pending. -/
def fill : Scan Unit := do
  if (← pending).isEmpty then discard next else pure ()

/-- Reports a fault over the pending text, or over the next character where there is none. -/
def fail (message : Diagnostic.Message) (args : List String) : Scan Emitted := do
  fill
  let report := .raiseAt (← pendingSpan) message args
  return { token := ← emit .unknown, report := some report }

/-- Cuts a token in front of the delimiter that was read last, and drops the delimiter. -/
def emitBeforeClosing (kind : Token.Kind) : Scan Token := do
  backup
  let token ← emit kind
  discard next
  ignore
  return token

def optionLetters : Scan (List Char) := do
  discard (acceptRun Text.regexOptions)
  let options ← pending
  ignore
  return options

end Scan

/-- Behind `opened`, with `pend` pending and in front of `ahead`, the step hands over what
is read, and leaves what the reading does not take. -/
def Recognises (op : Scan Emitted) (opened pend ahead : List Char) (reading : Reading) : Prop :=
  ∃ rest, opened ++ pend ++ ahead = reading.chars ++ rest ∧ ∀ front width, ∃ width',
    op.run (.between (front ++ opened) pend ahead width) =
      some (reading.emitted front, .between (front ++ reading.chars) [] rest width')

namespace Recognises

open Scan

variable {α : Type} {op : Scan α} {more : α → Scan Emitted} {value : α} {reading : Reading}
  {opened pend ahead middle taken : List Char} {kind : Token.Kind}

theorem consume (taken : List Char) (first : Consumes op ahead value middle) (split : ahead = taken ++ middle)
    (then_ : Recognises (more value) opened (pend ++ taken) middle reading) :
    Recognises (op >>= more) opened pend ahead reading := by
  obtain ⟨same, rfl, reads⟩ := first
  obtain rfl := List.append_cancel_right split
  obtain ⟨rest, whole, goes⟩ := then_
  refine ⟨rest, ?_, fun front width => ?_⟩
  · rw [← whole]
    simp only [List.append_assoc]
  · obtain ⟨width, read⟩ := reads (front ++ opened) pend width
    obtain ⟨width, went⟩ := goes front width
    exact ⟨width, (run_bind_eq read).trans went⟩

theorem take (first : Consumes op ahead value (ahead.drop taken.length)) (front : taken <+: ahead)
    (then_ : Recognises (more value) opened (pend ++ taken) (ahead.drop taken.length) reading) :
    Recognises (op >>= more) opened pend ahead reading :=
  consume taken first (List.prefix_iff_eq_append.mp front).symm then_

theorem look (first : Consumes op ahead value ahead)
    (then_ : Recognises (more value) opened pend ahead reading) :
    Recognises (op >>= more) opened pend ahead reading :=
  consume [] first rfl (by rwa [List.append_nil])

theorem ignore {more : Unit → Scan Emitted}
    (then_ : Recognises (more ()) (opened ++ pend) [] ahead reading) :
    Recognises (ignore >>= more) opened pend ahead reading := by
  obtain ⟨rest, whole, goes⟩ := then_
  refine ⟨rest, by simpa using whole, fun front width => ?_⟩
  obtain ⟨width', went⟩ := goes front width
  refine ⟨width', (run_bind_eq ignore_between).trans ?_⟩
  rwa [← List.append_assoc] at went

theorem pending {more : List Char → Scan Emitted}
    (then_ : Recognises (more pend) opened pend ahead reading) :
    Recognises (pending >>= more) opened pend ahead reading := by
  obtain ⟨rest, whole, goes⟩ := then_
  refine ⟨rest, whole, fun front width => ?_⟩
  obtain ⟨width', went⟩ := goes front width
  exact ⟨width', (run_bind_eq pending_between).trans went⟩

theorem emitted (kind : Token.Kind) (opened pend ahead : List Char) :
    Recognises (emitted kind) opened pend ahead (.ok { kind, opening := opened, body := pend }) := by
  refine ⟨ahead, by simp [Reading.chars, Lexeme.chars], fun front width => ⟨width, ?_⟩⟩
  rw [Scan.emitted, run_bind_eq (emit_between kind)]
  simp [Reading.chars, Lexeme.chars, Reading.emitted]

theorem emittedText (kind : Token.Kind) (text opened pend ahead : List Char) :
    Recognises (do return { token := ← emitText kind text }) opened pend ahead
      (.ok { kind, opening := opened, body := pend, text }) := by
  refine ⟨ahead, by simp [Reading.chars, Lexeme.chars], fun front width => ⟨width, ?_⟩⟩
  rw [run_bind_eq (emitText_between kind text)]
  simp [Reading.chars, Lexeme.chars, Reading.emitted]

theorem fail (message : Diagnostic.Message) (args : List String)
    (ends : pend ≠ [] ∨ ahead = []) :
    Recognises (fail message args) opened pend ahead
      (.error { opening := opened, body := pend, message, args }) := by
  have filled (front : List Char) (width : Nat) : ∃ width',
      fill.run (.between (front ++ opened) pend ahead width) =
        some ((), .between (front ++ opened) pend ahead width') := by
    cases pend with
    | cons c rest => exact ⟨width, run_bind_eq pending_between⟩
    | nil =>
      obtain rfl := ends.resolve_left (· rfl)
      exact ⟨0, (run_bind_eq pending_between).trans (run_discard next_between_nil)⟩
  refine ⟨ahead, by simp [Reading.chars, Lexeme.Fault.chars], fun front width => ?_⟩
  obtain ⟨width, filled⟩ := filled front width
  refine ⟨width, ?_⟩
  rw [Scan.fail, run_bind_eq filled, run_bind_eq pendingSpan_between, run_bind_eq (emit_between _)]
  simp [Reading.chars, Lexeme.Fault.chars, Reading.emitted]

end Recognises

end Bytes

end RubySyntax
