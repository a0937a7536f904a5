import RubySyntax.Proofs.Bytes.Cursor

/-! Steps that read. Such a step goes on over some of the text behind the cursor, whatever
stands in front of it, and is never refused. -/
namespace RubySyntax.Bytes

open Text (byteLength byteLength_append byteLength_cons Span)

namespace Scan

variable {α β : Type} {op : Scan α} {value : α} {front pend ahead middle rest : List Char}
  {width : Nat}

theorem pending_between : pending.run (.between front pend ahead width) =
    some (pend, .between front pend ahead width) := by
  show (slice (front ++ pend ++ ahead) (byteLength front) (byteLength (front ++ pend))).map _ = _
  rw [slice_append]
  rfl

theorem rest_between : Scan.rest.run (.between front pend ahead width) =
    some (ahead, .between front pend ahead width) := by
  rw [Scan.rest, run_bind_eq (run_discard pending_between)]
  show (slice (front ++ pend ++ ahead) (byteLength (front ++ pend))
    (byteLength (front ++ pend ++ ahead))).map _ = _
  rw [slice_end]
  rfl

theorem pendingSpan_between : pendingSpan.run (.between front pend ahead width) =
    some (.ofBounds (byteLength front) (byteLength (front ++ pend)),
      .between front pend ahead width) := by
  rw [pendingSpan, run_bind_eq (run_discard pending_between)]
  rfl

theorem ignore_between : ignore.run (.between front pend ahead width) =
    some ((), .between (front ++ pend) [] ahead width) := by
  show some ((), Cursor.mk _ _ _ _) = _
  simp [Cursor.between]

theorem emitText_between (kind : Token.Kind) (text : List Char) :
    (emitText kind text).run (.between front pend ahead width) =
      some ({ kind, text := .ofList text,
              span := .ofBounds (byteLength front) (byteLength (front ++ pend)) },
        .between (front ++ pend) [] ahead width) := by
  rw [emitText, run_bind_eq pendingSpan_between, run_bind_eq ignore_between]
  rfl

theorem emit_between (kind : Token.Kind) :
    (emit kind).run (.between front pend ahead width) =
      some ({ kind, text := .ofList pend,
              span := .ofBounds (byteLength front) (byteLength (front ++ pend)) },
        .between (front ++ pend) [] ahead width) := by
  rw [emit, run_bind_eq pending_between]
  exact emitText_between kind pend

theorem peek_between : peek.run (.between front pend ahead width) =
    some (ahead.head?, .between front pend ahead width) := by
  rw [peek, run_bind_eq rest_between]
  rfl

theorem next_between (c : Char) : next.run (.between front pend (c :: ahead) width) =
    some (some c, .between front (pend ++ [c]) ahead c.utf8Size) := by
  rw [next, run_bind_eq peek_between]
  show some (some c, Cursor.mk _ _ _ _) = _
  simp [Cursor.between, Nat.add_assoc]

theorem next_between_nil : next.run (.between front pend [] width) =
    some (none, .between front pend [] 0) := by
  rw [next, run_bind_eq peek_between]
  rfl

theorem backup_between (c : Char) : backup.run (.between front (pend ++ [c]) ahead c.utf8Size) =
    some ((), .between front pend (c :: ahead) 0) := by
  rw [backup, run_bind_eq (run_discard pending_between)]
  have within : c.utf8Size ≤ byteLength (front ++ (pend ++ [c])) - byteLength front := by
    simp only [byteLength_append, byteLength_cons]
    omega
  have back : byteLength (front ++ (pend ++ [c])) - c.utf8Size = byteLength (front ++ pend) := by
    simp only [byteLength_append, byteLength_cons, Text.byteLength_nil]
    omega
  show (if c.utf8Size ≤ byteLength (front ++ (pend ++ [c])) - byteLength front then
    some ((), Cursor.mk _ _ (byteLength (front ++ (pend ++ [c])) - c.utf8Size) _) else none) = _
  rw [if_pos within, back]
  simp [Cursor.between]

end Scan

open Scan

/-- In front of `ahead` the step yields `value` and leaves `rest`, whatever is pending. -/
def Consumes {α : Type} (op : Scan α) (ahead : List Char) (value : α) (rest : List Char) : Prop :=
  ∃ taken, ahead = taken ++ rest ∧ ∀ front pend width, ∃ width',
    op.run (.between front pend ahead width) = some (value, .between front (pend ++ taken) rest width')

namespace Consumes

variable {α β : Type} {op : Scan α} {value : α} {ahead middle : List Char}

theorem of_looks
    (looks : ∀ front pend width, op.run (.between front pend ahead width) =
      some (value, .between front pend ahead width)) : Consumes op ahead value ahead :=
  ⟨[], rfl, fun front pend width => ⟨width, by rw [List.append_nil, looks]⟩⟩

theorem pure (value : α) (ahead : List Char) : Consumes (Pure.pure value) ahead value ahead :=
  of_looks fun _ _ _ => rfl

theorem bind {more : α → Scan β} {result : β} {rest : List Char} (first : Consumes op ahead value middle)
    (then_ : Consumes (more value) middle result rest) : Consumes (op >>= more) ahead result rest := by
  obtain ⟨taken, rfl, reads⟩ := first
  obtain ⟨others, rfl, goes⟩ := then_
  refine ⟨taken ++ others, (List.append_assoc _ _ _).symm, fun front pend width => ?_⟩
  obtain ⟨width, read⟩ := reads front pend width
  obtain ⟨width, went⟩ := goes front (pend ++ taken) width
  exact ⟨width, by rw [run_bind_eq read, went, List.append_assoc]⟩

theorem discard {rest : List Char} (read : Consumes op ahead value rest) : Consumes (discard op) ahead () rest := by
  obtain ⟨taken, rfl, reads⟩ := read
  refine ⟨taken, rfl, fun front pend width => ?_⟩
  obtain ⟨width, read⟩ := reads front pend width
  exact ⟨width, run_discard read⟩

/-- What is read from the front becomes pending. -/
theorem front_between {taken : List Char} (read : Consumes op ahead value (ahead.drop taken.length))
    (first : taken <+: ahead) (front pend : List Char) (width : Nat) : ∃ width',
      op.run (.between front pend ahead width) =
        some (value, .between front (pend ++ taken) (ahead.drop taken.length) width') := by
  obtain ⟨same, split, reads⟩ := read
  obtain rfl : same = taken :=
    List.append_cancel_right (split.symm.trans (List.prefix_iff_eq_append.mp first).symm)
  exact reads front pend width

theorem rest (ahead : List Char) : Consumes Scan.rest ahead ahead ahead :=
  of_looks fun _ _ _ => rest_between

theorem peek (ahead : List Char) : Consumes peek ahead ahead.head? ahead :=
  of_looks fun _ _ _ => peek_between

theorem peekNth (n : Nat) (ahead : List Char) : Consumes (peekNth n) ahead ahead[n]? ahead :=
  (rest ahead).bind (pure _ _)

theorem next (c : Char) (rest : List Char) : Consumes next (c :: rest) (some c) rest :=
  ⟨[c], rfl, fun _ _ _ => ⟨_, next_between c⟩⟩

theorem next_nil : Consumes Scan.next [] none [] :=
  ⟨[], rfl, fun _ _ _ => ⟨0, by rw [List.append_nil, next_between_nil]⟩⟩

theorem accept {valid : List Char} (wanted : valid.contains c = true) (rest : List Char) :
    Consumes (accept valid) (c :: rest) true rest := by
  refine ⟨[c], rfl, fun front pend width => ⟨c.utf8Size, ?_⟩⟩
  rw [Scan.accept, run_bind_eq (next_between c)]
  simp only [wanted, if_true]
  rfl

/-- A character that is not wanted is read and put back. -/
theorem accept_not {valid : List Char} (other : ahead.head?.any valid.contains = false) :
    Consumes (Scan.accept valid) ahead false ahead := by
  refine ⟨[], rfl, fun front pend width => ⟨0, ?_⟩⟩
  rw [List.append_nil]
  cases ahead with
  | nil =>
    rw [Scan.accept, run_bind_eq next_between_nil]
    rfl
  | cons c rest =>
    have other : valid.contains c = false := other
    rw [Scan.accept, run_bind_eq (next_between c)]
    simp only [other, Bool.false_eq_true, if_false]
    rw [run_bind_eq (backup_between c)]
    rfl

theorem acceptRun (valid ahead : List Char) :
    Consumes (acceptRun valid) ahead (ahead.takeWhile valid.contains).length
      (ahead.drop (ahead.takeWhile valid.contains).length) := by
  induction ahead with
  | nil =>
    rw [Scan.acceptRun]
    exact (accept_not rfl).bind (pure _ _)
  | cons c ahead ih =>
    rw [Scan.acceptRun]
    cases wanted : valid.contains c with
    | true =>
      rw [List.takeWhile_cons_of_pos wanted]
      exact (accept wanted ahead).bind (ih.bind (pure _ _))
    | false =>
      rw [List.takeWhile_cons_of_neg (Bool.eq_false_iff.mp wanted)]
      exact (accept_not (show (c :: ahead).head?.any _ = false from wanted)).bind (pure _ _)

theorem acceptWhile (holds : Char → Bool) (ahead : List Char) :
    Consumes (acceptWhile holds) ahead (ahead.takeWhile holds).length
      (ahead.drop (ahead.takeWhile holds).length) := by
  induction ahead with
  | nil =>
    rw [Scan.acceptWhile]
    exact (peek []).bind (pure _ _)
  | cons c ahead ih =>
    rw [Scan.acceptWhile]
    refine (peek _).bind ?_
    cases wanted : holds c with
    | true =>
      rw [List.takeWhile_cons_of_pos wanted, List.head?_cons, Option.any_some, if_pos wanted]
      exact (next c ahead).discard.bind (ih.bind (pure _ _))
    | false =>
      have other := Bool.eq_false_iff.mp wanted
      rw [List.takeWhile_cons_of_neg other, List.head?_cons, Option.any_some, if_neg other]
      exact pure _ _

theorem acceptText (text rest : List Char) : Consumes (acceptText text) (text ++ rest) true rest := by
  refine ⟨text, rfl, fun front pend width => ⟨0, ?_⟩⟩
  rw [Scan.acceptText, run_bind_eq rest_between,
    if_pos (List.isPrefixOf_iff_prefix.mpr (List.prefix_append _ _))]
  show some (true, Cursor.mk _ _ _ _) = _
  simp [Cursor.between, Nat.add_assoc]

theorem acceptText_not {text : List Char} (other : text.isPrefixOf ahead = false) :
    Consumes (Scan.acceptText text) ahead false ahead := by
  refine (rest ahead).bind ?_
  rw [other, if_neg Bool.false_ne_true]
  exact pure _ _

theorem skipToLineEnd (ahead : List Char) :
    Consumes skipToLineEnd ahead () (ahead.dropWhile fun c => !Text.isLineBreak c) := by
  refine ⟨ahead.takeWhile fun c => !Text.isLineBreak c, List.takeWhile_append_dropWhile.symm,
    fun front pend width => ⟨0, ?_⟩⟩
  show (lineEndFrom (front ++ pend ++ ahead) (byteLength (front ++ pend))).map _ = _
  rw [lineEndFrom_append]
  simp [Cursor.between, List.takeWhile_append_dropWhile, Nat.add_assoc]

end Consumes

end RubySyntax.Bytes
