import RubySyntax.Proofs.Bytes.Cursor
import RubySyntax.Proofs.Scanner.Reader

/-! A cursor that counts bytes and undoes a step by the width of what it read last. Its mark
may be ahead of it. Whatever operations come in whatever order, it is never refused a slice
or a subtraction, and it stands where a reader of characters does. -/
namespace RubySyntax.Bytes

open Text (byteLength Span)
open RubySyntax.Scanner (Op Answer Call Reader)

/-- A cursor by the offsets of bytes, with the calls so far, the most recent one first. -/
structure Walker extends Cursor where
  calls : List Call := []
deriving DecidableEq, Repr

abbrev Walk := StateT Walker Option

namespace Walk

def note (call : Call) : Walk Unit :=
  modify fun walker => { walker with calls := call :: walker.calls }

def rest : Walk (List Char) := fun walker =>
  (slice walker.source walker.pos (byteLength walker.source)).map fun text => (text, walker)

def peek : Walk (Option Char) := return (← rest).head?

def peekNth (n : Nat) : Walk (Option Char) := return (← rest)[n]?

def next : Walk (Option Char) := do
  match ← peek with
  | some c =>
    modify fun walker => { walker with pos := walker.pos + c.utf8Size, width := c.utf8Size }
    note (.took c)
    return some c
  | none =>
    modify fun walker => { walker with width := 0 }
    note .ended
    return none

/-- Goes back by the width; refused where that would pass the start of the source. -/
def retreat : Walk Unit := fun walker =>
  if walker.width ≤ walker.pos then
    some ((), { walker with pos := walker.pos - walker.width, width := 0 })
  else none

def backup : Walk Unit := do
  retreat
  note .back

def ignore : Walk Unit := modify fun walker => { walker with start := walker.pos }

def accept (valid : List Char) : Walk Bool := do
  match ← next with
  | some c =>
    if valid.contains c then return true
    backup
    return false
  | none => return false

def acceptRun (valid : List Char) : Walk Nat :=
  -- The recursive calls are named as in the loops of a scan, to leave no place in the term.
  letI acceptRun : List Char → Walk Nat := by apply acceptRun
  do
    if ← accept valid then return (← acceptRun valid) + 1
    return 0
partial_fixpoint

def acceptWhile (holds : Char → Bool) : Walk Nat :=
  letI acceptWhile : (Char → Bool) → Walk Nat := by apply acceptWhile
  do
    if (← peek).any holds then
      discard next
      return (← acceptWhile holds) + 1
    return 0
partial_fixpoint

def acceptText (text : List Char) : Walk Bool := do
  if text.isPrefixOf (← rest) then
    modify fun walker => { walker with pos := walker.pos + byteLength text, width := 0 }
    note .moved
    return true
  return false

def pending : Walk (List Char) := fun walker =>
  (slice walker.source walker.start walker.pos).map fun text => (text, walker)

/-- The bounds of the pending text, which are in order. -/
def pendingSpan : Walk Span := fun walker =>
  if walker.start ≤ walker.pos then some (.ofBounds walker.start walker.pos, walker) else none

def emitText (kind : Token.Kind) (text : String) : Walk Token := do
  let span ← pendingSpan
  ignore
  return { kind, text, span }

def emit (kind : Token.Kind) : Walk Token := do emitText kind (.ofList (← pending))

def jumpTo (target : Nat) : Walk Unit := do
  modify fun walker =>
    let pos := min target (byteLength walker.source)
    { walker with start := pos, pos, width := 0 }
  note .moved

def advanceLine : Walk Unit := fun walker =>
  (lineEndFrom walker.source walker.pos).map fun pos => ((), { walker with pos, width := 0 })

def skipToLineEnd : Walk Unit := do
  advanceLine
  note .moved

/-- What the cursor does at an operation. -/
def perform : Op → Walk Answer
  | .next => Answer.char <$> next
  | .backup => (fun _ => Answer.nothing) <$> backup
  | .peek => Answer.char <$> peek
  | .peekNth n => Answer.char <$> peekNth n
  | .ignore => (fun _ => Answer.nothing) <$> ignore
  | .accept valid => Answer.found <$> accept valid
  | .acceptRun valid => Answer.count <$> acceptRun valid
  | .acceptWhile holds => Answer.count <$> acceptWhile holds
  | .acceptText text => Answer.found <$> acceptText text
  | .emit kind => Answer.token <$> emit kind
  | .emitText kind text => Answer.token <$> emitText kind text
  | .jumpTo target => (fun _ => Answer.nothing) <$> jumpTo target
  | .skipToLineEnd => (fun _ => Answer.nothing) <$> skipToLineEnd

end Walk

/-- The cursor at the place of a reader. A step back that has something to undo goes by the
width of the character that the last call read. -/
def Walker.ofReader (r : Reader) : Walker where
  source := r.chars
  start := r.mark
  pos := byteLength r.front
  width := r.undo.elim 0 Char.utf8Size
  calls := r.calls

namespace Walker

variable {r : Reader} {c : Char} {source : List Char}

theorem width_idle (idle : r.undo = none) : (ofReader r).width = 0 := by
  simp [ofReader, idle]

theorem width_undo (last : r.undo = some c) : (ofReader r).width = c.utf8Size := by
  simp [ofReader, last]

theorem pos_behind {front : List Char} (behind : r.front = front ++ [c]) :
    (ofReader r).pos = byteLength front + c.utf8Size := by
  simp [ofReader, behind]

/-- The cursor, and the place that a step back leads to, are between two characters of the
source, and no step back passes its start. -/
structure InPlace (source : List Char) (walker : Walker) : Prop where
  inside : walker.pos ≤ byteLength source
  pos : IsBoundary source walker.pos
  width : walker.width ≤ walker.pos
  undo : IsBoundary source (walker.pos - walker.width)

theorem inPlace_ofReader (coherent : r.Coherent source) : (ofReader r).InPlace source := by
  have here : IsBoundary source (ofReader r).pos := ⟨r.front, r.back, coherent.whole.symm, rfl⟩
  cases last : r.undo with
  | none =>
    have width := width_idle last
    exact ⟨here.le, here, width ▸ Nat.zero_le _, by rwa [width]⟩
  | some c =>
    obtain ⟨front, behind⟩ := coherent.undo c last
    have split : source = front ++ c :: r.back := by
      rw [← coherent.whole, Reader.chars, behind, List.append_assoc]
      rfl
    refine ⟨here.le, here, ?_, front, c :: r.back, split, ?_⟩
    · rw [width_undo last, pos_behind behind]
      exact Nat.le_add_left _ _
    · rw [width_undo last, pos_behind behind, Nat.add_sub_cancel]

end Walker

namespace Walk

open Walker (ofReader)
open Scan (run_bind_eq run_discard)

variable {r : Reader} {c : Char} {source ahead : List Char} {target : Nat}

theorem rest_ofReader (r : Reader) : rest.run (ofReader r) = some (r.back, ofReader r) := by
  show (slice (r.front ++ r.back) (byteLength r.front) (byteLength (r.front ++ r.back))).map _ = _
  rw [slice_end]
  rfl

theorem peek_ofReader (r : Reader) : peek.run (ofReader r) = some (r.back.head?, ofReader r) := by
  rw [peek, run_bind_eq (rest_ofReader r)]
  rfl

theorem peekNth_ofReader (n : Nat) (r : Reader) :
    (peekNth n).run (ofReader r) = some (r.back[n]?, ofReader r) := by
  rw [peekNth, run_bind_eq (rest_ofReader r)]
  rfl

theorem next_read (back : r.back = c :: ahead) :
    next.run (ofReader r) = some (some c, ofReader (r.read 1)) := by
  rw [next, run_bind_eq (peek_ofReader r), Reader.read_one back, back]
  show some (some c, Walker.mk _ _) = _
  simp [ofReader, Reader.chars, back]

theorem next_ended (ended : r.back = []) :
    next.run (ofReader r) = some (none, ofReader (r.note .ended)) := by
  rw [next, run_bind_eq (peek_ofReader r), ended]
  rfl

theorem next_ofReader (r : Reader) : next.run (ofReader r) =
    some (r.back.head?, ofReader (if r.back.isEmpty then r.note .ended else r.read 1)) := by
  cases back : r.back with
  | nil => exact next_ended back
  | cons c ahead => exact next_read back

theorem backup_within {walker : Walker} (within : walker.width ≤ walker.pos) :
    backup.run walker = some ((), { walker with
      pos := walker.pos - walker.width, width := 0, calls := .back :: walker.calls }) := by
  have back : retreat.run walker = some ((), { walker with
      pos := walker.pos - walker.width, width := 0 }) := if_pos within
  rw [backup, run_bind_eq back]
  rfl

theorem backup_ofReader (coherent : r.Coherent source) :
    backup.run (ofReader r) = some ((), ofReader r.stepBack) := by
  have within := (Walker.inPlace_ofReader coherent).width
  cases last : r.undo with
  | none =>
    rw [backup_within within, Walker.width_idle last, Reader.stepBack_eq_note last]
    rfl
  | some c =>
    obtain ⟨front, behind, same⟩ := coherent.stepBack_eq last
    rw [backup_within within, Walker.width_undo last, Walker.pos_behind behind,
      Nat.add_sub_cancel, same]
    simp [ofReader, Reader.chars, behind, Call.taken?]

/-- A character that is wanted is read; another one is read and put back. -/
theorem accept_ofReader (valid : List Char) (coherent : r.Coherent source) :
    (accept valid).run (ofReader r) = some (r.back.head?.any valid.contains,
      ofReader (if r.back.head?.any valid.contains then r.read 1 else r.refuse)) := by
  cases back : r.back with
  | nil =>
    have refused : r.refuse = r.note .ended := by rw [Reader.refuse, back]
    rw [accept, run_bind_eq (next_ended back), List.head?_nil, Option.any_none,
      if_neg Bool.false_ne_true, refused]
    rfl
  | cons c ahead =>
    rw [accept, run_bind_eq (next_read back), List.head?_cons, Option.any_some]
    cases wanted : valid.contains c with
    | true =>
      simp only [wanted, if_true]
      rfl
    | false =>
      have putBack := backup_ofReader (coherent.read_one back)
      rw [Reader.stepBack_read_one back] at putBack
      simp only [wanted, Bool.false_eq_true, if_false]
      rw [run_bind_eq putBack]
      rfl

theorem acceptRun_ofReader (valid : List Char) (coherent : r.Coherent source) :
    (acceptRun valid).run (ofReader r) = some ((r.back.takeWhile valid.contains).length,
      ofReader (r.read (r.back.takeWhile valid.contains).length).refuse) := by
  generalize back : r.back = text
  induction text generalizing r with
  | nil =>
    have first := accept_ofReader valid coherent
    rw [back, List.head?_nil, Option.any_none, if_neg Bool.false_ne_true] at first
    rw [acceptRun, run_bind_eq first, List.takeWhile_nil, List.length_nil, Reader.read_zero]
    rfl
  | cons c text ih =>
    have first := accept_ofReader valid coherent
    rw [back, List.head?_cons, Option.any_some] at first
    cases wanted : valid.contains c with
    | true =>
      have left : (r.read 1).back = text := by rw [Reader.read_one back]
      rw [wanted, if_pos rfl] at first
      rw [acceptRun, run_bind_eq first, if_pos rfl, run_bind_eq (ih (coherent.read_one back) left),
        List.takeWhile_cons_of_pos wanted, List.length_cons,
        Reader.read_succ back (text.takeWhile valid.contains).length]
      rfl
    | false =>
      rw [wanted, if_neg Bool.false_ne_true] at first
      rw [acceptRun, run_bind_eq first, List.takeWhile_cons_of_neg (Bool.eq_false_iff.mp wanted),
        List.length_nil, Reader.read_zero]
      rfl

theorem acceptWhile_ofReader (holds : Char → Bool) (r : Reader) :
    (acceptWhile holds).run (ofReader r) = some ((r.back.takeWhile holds).length,
      ofReader (r.read (r.back.takeWhile holds).length)) := by
  generalize back : r.back = text
  induction text generalizing r with
  | nil =>
    have peeked := peek_ofReader r
    rw [back] at peeked
    rw [acceptWhile, run_bind_eq peeked, List.takeWhile_nil, List.length_nil, Reader.read_zero]
    rfl
  | cons c text ih =>
    have peeked := peek_ofReader r
    rw [back] at peeked
    rw [acceptWhile, run_bind_eq peeked, List.head?_cons, Option.any_some]
    cases wanted : holds c with
    | true =>
      have left : (r.read 1).back = text := by rw [Reader.read_one back]
      rw [if_pos rfl, run_bind_eq (run_discard (next_read back)), run_bind_eq (ih _ left),
        List.takeWhile_cons_of_pos wanted, List.length_cons,
        Reader.read_succ back (text.takeWhile holds).length]
      rfl
    | false =>
      rw [if_neg Bool.false_ne_true, List.takeWhile_cons_of_neg (Bool.eq_false_iff.mp wanted),
        List.length_nil, Reader.read_zero]
      rfl

theorem ofReader_leap {text : List Char} (found : text <+: r.back) :
    ofReader (r.leap text.length) = { ofReader r with
      pos := (ofReader r).pos + byteLength text, width := 0, calls := .moved :: r.calls } := by
  obtain ⟨rest, whole⟩ := found
  simp [ofReader, Reader.leap, Reader.chars, ← whole, Call.taken?]

theorem acceptText_ofReader (text : List Char) (r : Reader) :
    (acceptText text).run (ofReader r) = some (text.isPrefixOf r.back,
      ofReader (if text.isPrefixOf r.back then r.leap text.length else r)) := by
  rw [acceptText, run_bind_eq (rest_ofReader r)]
  cases found : text.isPrefixOf r.back with
  | true =>
    rw [if_pos rfl, if_pos rfl, ofReader_leap (List.isPrefixOf_iff_prefix.mp found)]
    rfl
  | false =>
    rw [if_neg Bool.false_ne_true, if_neg Bool.false_ne_true]
    rfl

theorem skipToLineEnd_ofReader (r : Reader) : skipToLineEnd.run (ofReader r) =
    some ((), ofReader (r.leap (r.back.takeWhile fun c => !Text.isLineBreak c).length)) := by
  have first : advanceLine.run (ofReader r) = some ((), { ofReader r with
      pos := (ofReader r).pos + byteLength (r.back.takeWhile fun c => !Text.isLineBreak c),
      width := 0 }) := by
    show (lineEndFrom (r.front ++ r.back) (byteLength r.front)).map _ = _
    rw [lineEndFrom_append]
    rfl
  rw [skipToLineEnd, run_bind_eq first, ofReader_leap (List.takeWhile_prefix _)]
  rfl

theorem emitText_ofReader (kind : Token.Kind) (text : String)
    (ordered : r.mark ≤ byteLength r.front) :
    (emitText kind text).run (ofReader r) = some (r.token kind text, ofReader r.settle) := by
  have span : pendingSpan.run (ofReader r) =
      some (.ofBounds r.mark (byteLength r.front), ofReader r) := if_pos ordered
  rw [emitText, run_bind_eq span]
  rfl

theorem emit_ofReader (kind : Token.Kind) (coherent : r.Coherent source)
    (ordered : r.mark ≤ byteLength r.front) :
    (emit kind).run (ofReader r) =
      some (r.token kind (.ofList r.pending), ofReader r.settle) := by
  have cut : pending.run (ofReader r) = some (r.pending, ofReader r) :=
    congrArg (Option.map fun text => (text, ofReader r)) (coherent.slice_eq ordered)
  rw [emit, run_bind_eq cut, emitText_ofReader kind _ ordered]

theorem jumpTo_ofReader (lands : IsBoundary r.chars (min target (byteLength r.chars))) :
    (jumpTo target).run (ofReader r) = some ((), ofReader (r.jump target)) := by
  obtain ⟨front, back, whole, bytes, same⟩ := Reader.jump_eq lands
  have moved : (jumpTo target).run (ofReader r) = some ((), { ofReader r with
      start := min target (byteLength r.chars), pos := min target (byteLength r.chars), width := 0,
      calls := .moved :: r.calls }) := rfl
  rw [moved, bytes, same]
  simp [ofReader, Reader.chars, ← whole, Call.taken?]

theorem run_map_eq {α : Type} {op : Walk α} {value : α} {walker behind : Walker}
    (done : op.run walker = some (value, behind)) (answer : α → Answer) :
    (answer <$> op).run walker = some (answer value, behind) := by
  rw [StateT.run_map, done]
  rfl

/-- The cursor is not refused where a reader may go on, and stands where the reader does. -/
theorem perform_ofReader (coherent : r.Coherent source) (op : Op) (allowed : r.Allows op) :
    (perform op).run (ofReader r) =
      some ((Reader.perform op r).1, ofReader (Reader.perform op r).2) := by
  cases op with
  | next => exact run_map_eq (next_ofReader r) _
  | backup => exact run_map_eq (backup_ofReader coherent) _
  | peek => exact run_map_eq (peek_ofReader r) _
  | peekNth n => exact run_map_eq (peekNth_ofReader n r) _
  | ignore => rfl
  | accept valid => exact run_map_eq (accept_ofReader valid coherent) _
  | acceptRun valid => exact run_map_eq (acceptRun_ofReader valid coherent) _
  | acceptWhile holds => exact run_map_eq (acceptWhile_ofReader holds r) _
  | acceptText text => exact run_map_eq (acceptText_ofReader text r) _
  | emit kind => exact run_map_eq (emit_ofReader kind coherent allowed) _
  | emitText kind text => exact run_map_eq (emitText_ofReader kind text allowed) _
  | jumpTo target => exact run_map_eq (jumpTo_ofReader allowed) _
  | skipToLineEnd => exact run_map_eq (skipToLineEnd_ofReader r) _

theorem run_ofReader (coherent : r.Coherent source) (ops : List Op) (allowed : r.AllowsAll ops) :
    (ops.mapM perform).run (ofReader r) =
      some (((ops.mapM Reader.perform).run r).1,
        ofReader ((ops.mapM Reader.perform).run r).2) := by
  induction ops generalizing r with
  | nil => rfl
  | cons op ops ih =>
    obtain ⟨here, later⟩ := allowed
    rw [List.mapM_cons, run_bind_eq (perform_ofReader coherent op here),
      run_bind_eq (ih (coherent.perform op here) later), Scanner.run_mapM_cons]
    rfl

end Walk

/-- Operations in any order, from the start of a source: the cursor that counts bytes is never
refused and stays in place, and both it and the scanner hand back what the reader of characters
does and stand where it stands. -/
theorem Walk.refines_reader (source : String) (ops : List Op)
    (allowed : (Reader.ofSource source).AllowsAll ops) :
    let reached := (ops.mapM Reader.perform).run (.ofSource source)
    (ops.mapM perform).run { source := source.toList } = some (reached.1, .ofReader reached.2) ∧
      (ops.mapM Scanner.perform).run (.ofSource source) = (reached.1, reached.2.scanner) ∧
      (Walker.ofReader reached.2).InPlace source.toList := by
  intro reached
  have start := Reader.Coherent.ofSource source
  exact ⟨run_ofReader start ops allowed, Reader.scanner_run start ops allowed,
    Walker.inPlace_ofReader (start.run ops allowed)⟩

/-- With a mark that is ahead of the cursor for a while, and steps back that do nothing. -/
theorem Walk.refines_reader_mixed :
    let ops : List Op := [.next, .next, .ignore, .backup, .acceptRun ['x'], .backup, .next,
      .emit .identifier, .jumpTo 1, .acceptWhile (· ≠ 'b'), .emitText .identifier "c", .backup,
      .skipToLineEnd, .backup]
    (Reader.ofSource "aé\nb").AllowsAll ops ∧ ∃ answers calls,
      (ops.mapM perform).run { source := ['a', 'é', '\n', 'b'] } =
        some (answers, ⟨⟨['a', 'é', '\n', 'b'], 4, 3, 0⟩, calls⟩) ∧
      (ops.mapM Scanner.perform).run (.ofSource "aé\nb") =
        (answers, ⟨['é', 'a'], ['\n', 'b'], 3, 4, false⟩) := by
  refine ⟨by decide, ?_⟩
  obtain ⟨walked, scanned, _⟩ := Walk.refines_reader "aé\nb" [.next, .next, .ignore, .backup,
    .acceptRun ['x'], .backup, .next, .emit .identifier, .jumpTo 1, .acceptWhile (· ≠ 'b'),
    .emitText .identifier "c", .backup, .skipToLineEnd, .backup] (by decide)
  exact ⟨_, _, walked, scanned⟩

end RubySyntax.Bytes
