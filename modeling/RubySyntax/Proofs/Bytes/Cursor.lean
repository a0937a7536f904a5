import RubySyntax.Proofs.Bytes.Slice
import RubySyntax.Token.Basic

/-! A cursor that counts bytes. Its steps do arithmetic on offsets and cut slices out of
the source; a step is refused where the mark, the cursor or a slice would be out of
place. -/
namespace RubySyntax.Bytes

open Text (byteLength byteLength_append byteLength_cons Span)

/-- A cursor over a source, by the offsets of its bytes. -/
structure Cursor where
  source : List Char
  /-- The mark, where the pending text begins. -/
  start : Nat := 0
  pos : Nat := 0
  /-- How many bytes the last single step read. -/
  width : Nat := 0
deriving DecidableEq, Repr

namespace Cursor

/-- The mark comes no later than the cursor, and both stand between two characters of
the source. -/
structure Sound (cursor : Cursor) : Prop where
  ordered : cursor.start ≤ cursor.pos
  inside : cursor.pos ≤ byteLength cursor.source
  start : IsBoundary cursor.source cursor.start
  pos : IsBoundary cursor.source cursor.pos

/-- The cursor behind `front` and the pending text, with `ahead` left of the source. -/
def between (front pending ahead : List Char) (width : Nat) : Cursor where
  source := front ++ pending ++ ahead
  start := byteLength front
  pos := byteLength (front ++ pending)
  width := width

end Cursor

/-- Steps of a cursor; a step that is refused has no result. -/
abbrev Scan := StateT Cursor Option

namespace Scan

def pending : Scan (List Char) := fun cursor =>
  (slice cursor.source cursor.start cursor.pos).map fun text => (text, cursor)

def rest : Scan (List Char) := do
  discard pending
  fun cursor => (slice cursor.source cursor.pos (byteLength cursor.source)).map fun text => (text, cursor)

def pendingSpan : Scan Span := do
  discard pending
  fun cursor => some (.ofBounds cursor.start cursor.pos, cursor)

def peek : Scan (Option Char) := return (← rest).head?

def peekNth (n : Nat) : Scan (Option Char) := return (← rest)[n]?

def next : Scan (Option Char) := do
  match ← peek with
  | some c =>
    modify fun cursor => { cursor with pos := cursor.pos + c.utf8Size, width := c.utf8Size }
    return some c
  | none =>
    modify fun cursor => { cursor with width := 0 }
    return none

/-- Undoes the last `next`; refused where that would pass the mark. -/
def backup : Scan Unit := do
  discard pending
  fun cursor =>
    if cursor.width ≤ cursor.pos - cursor.start then
      some ((), { cursor with pos := cursor.pos - cursor.width, width := 0 })
    else none

def ignore : Scan Unit := modify fun cursor => { cursor with start := cursor.pos }

def accept (valid : List Char) : Scan Bool := do
  match ← next with
  | some c =>
    if valid.contains c then return true
    backup
    return false
  | none => return false

def acceptRun (valid : List Char) : Scan Nat :=
  -- A recursive call written out would leave its place in the file in the term of the
  -- fixed point; one named by `apply` leaves none, here and in the loops below.
  letI acceptRun : List Char → Scan Nat := by apply acceptRun
  do
    if ← accept valid then return (← acceptRun valid) + 1
    return 0
partial_fixpoint

def acceptWhile (holds : Char → Bool) : Scan Nat :=
  letI acceptWhile : (Char → Bool) → Scan Nat := by apply acceptWhile
  do
    if (← peek).any holds then
      discard next
      return (← acceptWhile holds) + 1
    return 0
partial_fixpoint

def acceptText (text : List Char) : Scan Bool := do
  if text.isPrefixOf (← rest) then
    modify fun cursor => { cursor with pos := cursor.pos + byteLength text, width := 0 }
    return true
  return false

def emitText (kind : Token.Kind) (text : List Char) : Scan Token := do
  let span ← pendingSpan
  ignore
  return { kind, text := .ofList text, span }

def emit (kind : Token.Kind) : Scan Token := do emitText kind (← pending)

def jumpTo (target : Nat) : Scan Unit := do
  discard pending
  modify fun cursor =>
    let pos := min target (byteLength cursor.source)
    { cursor with start := pos, pos, width := 0 }
  discard pending

def skipToLineEnd : Scan Unit := fun cursor =>
  (lineEndFrom cursor.source cursor.pos).map fun pos => ((), { cursor with pos, width := 0 })

variable {σ α β : Type}

theorem run_bind_eq {op : StateT σ Option α} {more : α → StateT σ Option β} {state behind : σ} {value : α}
    (first : op.run state = some (value, behind)) : (op >>= more).run state = (more value).run behind := by
  rw [StateT.run_bind, first]
  rfl

theorem run_discard {op : StateT σ Option α} {state behind : σ} {value : α}
    (first : op.run state = some (value, behind)) : (discard op).run state = some ((), behind) := by
  show ((fun _ => ()) <$> op).run state = _
  rw [StateT.run_map, first]
  rfl

variable {op : Scan α} {cursor : Cursor}

/-- The pending text is cut where the mark and the cursor are in place, and nowhere else. -/
theorem pending_isSome_iff : (pending.run cursor).isSome = true ↔ cursor.Sound := by
  show ((slice cursor.source cursor.start cursor.pos).map _).isSome = true ↔ _
  rw [Option.isSome_map, slice_isSome_iff]
  exact ⟨fun ⟨ordered, inside, start, pos⟩ => ⟨ordered, inside, start, pos⟩,
    fun ⟨ordered, inside, start, pos⟩ => ⟨ordered, inside, start, pos⟩⟩

/-- What a step does that cuts the pending text first. -/
theorem pending_bind_isSome_iff {more : Scan α} :
    ((do discard pending; more).run cursor).isSome = true ↔
      cursor.Sound ∧ (more.run cursor).isSome = true := by
  rw [← pending_isSome_iff]
  cases cut : slice cursor.source cursor.start cursor.pos with
  | none =>
    have none : pending.run cursor = none := by
      show (slice cursor.source cursor.start cursor.pos).map _ = none
      rw [cut]
      rfl
    have refused : (do discard pending; more).run cursor = Option.none := by
      show (((fun _ => ()) <$> pending) >>= fun _ => more).run cursor = _
      rw [StateT.run_bind, StateT.run_map, none]
      rfl
    rw [none, refused]
    exact ⟨nofun, fun ⟨absurd, _⟩ => nomatch absurd⟩
  | some text =>
    have taken : pending.run cursor = some (text, cursor) := by
      show (slice cursor.source cursor.start cursor.pos).map _ = _
      rw [cut]
      rfl
    rw [run_bind_eq (run_discard taken), taken]
    exact ⟨fun goes => ⟨rfl, goes⟩, And.right⟩

theorem rest_isSome_iff : (rest.run cursor).isSome = true ↔ cursor.Sound := by
  refine pending_bind_isSome_iff.trans (and_iff_left_of_imp fun sound => ?_)
  show ((slice cursor.source cursor.pos (byteLength cursor.source)).map _).isSome = true
  rw [Option.isSome_map, slice_isSome_iff]
  exact ⟨sound.inside, Nat.le_refl _, sound.pos, cursor.source, [], by simp, rfl⟩

theorem pendingSpan_isSome_iff : (pendingSpan.run cursor).isSome = true ↔ cursor.Sound :=
  pending_bind_isSome_iff.trans (and_iff_left rfl)

theorem backup_isSome_iff : (backup.run cursor).isSome = true ↔
    cursor.Sound ∧ cursor.width ≤ cursor.pos - cursor.start := by
  refine pending_bind_isSome_iff.trans (and_congr_right fun _ => ?_)
  show (if _ then some _ else none).isSome = true ↔ _
  rw [Option.isSome_ite]

theorem emitText_isSome_iff {kind : Token.Kind} {text : List Char} :
    ((emitText kind text).run cursor).isSome = true ↔ cursor.Sound := by
  refine Iff.trans ?_ pendingSpan_isSome_iff
  rw [emitText, StateT.run_bind]
  cases pendingSpan.run cursor with
  | none => rfl
  | some read => rfl

theorem emit_isSome_iff {kind : Token.Kind} :
    ((emit kind).run cursor).isSome = true ↔ cursor.Sound := by
  rw [emit, StateT.run_bind]
  cases read : pending.run cursor with
  | none =>
    rw [← pending_isSome_iff, read]
    rfl
  | some parts =>
    obtain ⟨_, _, rfl⟩ := Option.map_eq_some_iff.mp read
    exact emitText_isSome_iff

theorem discard_isSome : ((discard op).run cursor).isSome = (op.run cursor).isSome := by
  show (((fun _ => ()) <$> op).run cursor).isSome = _
  rw [StateT.run_map]
  exact Option.isSome_map

theorem jumpTo_isSome_iff {target : Nat} : ((jumpTo target).run cursor).isSome = true ↔
    cursor.Sound ∧ IsBoundary cursor.source (min target (byteLength cursor.source)) := by
  refine pending_bind_isSome_iff.trans (and_congr_right fun _ => ?_)
  show ((discard pending).run _).isSome = true ↔ _
  rw [discard_isSome, pending_isSome_iff]
  exact ⟨fun sound => sound.pos, fun lands => ⟨Nat.le_refl _, Nat.min_le_right _ _, lands, lands⟩⟩

end Scan
end RubySyntax.Bytes
