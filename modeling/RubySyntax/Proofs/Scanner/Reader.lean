import RubySyntax.Proofs.Bytes.Slice
import RubySyntax.Proofs.Lexer.Position
import RubySyntax.Scanner.Basic

/-! A cursor over characters, which says what the operations of a scanner are for. It has
no widths and no offsets but that of the mark: a step back goes by the calls that were made.
A scanner shows what such a reader does, whatever operations come in whatever order. -/
namespace RubySyntax

namespace Bytes

/-- Boundaries are found by counting bytes. -/
theorem isBoundary_iff {source : List Char} {offset : Nat} :
    IsBoundary source offset ↔ (takeBytes? offset source).isSome = true := by
  constructor
  · rintro ⟨front, back, rfl, rfl⟩
    rw [takeBytes?_append]
    rfl
  · intro taken
    obtain ⟨front, taken⟩ := Option.isSome_iff_exists.mp taken
    obtain ⟨back, whole, bytes⟩ := takeBytes?_eq_some taken
    exact ⟨front, back, whole, bytes⟩

instance (source : List Char) (offset : Nat) : Decidable (IsBoundary source offset) :=
  decidable_of_iff' _ isBoundary_iff

end Bytes

namespace Scanner

open Text (byteLength byteLength_append byteLength_cons byteLength_nil)
open Bytes (IsBoundary slice takeBytes? takeBytes?_append)

inductive Op where
  | next
  | backup
  | peek
  | peekNth (n : Nat)
  | ignore
  | accept (valid : List Char)
  | acceptRun (valid : List Char)
  | acceptWhile (holds : Char → Bool)
  | acceptText (text : List Char)
  | emit (kind : Token.Kind)
  | emitText (kind : Token.Kind) (text : String)
  | jumpTo (target : Nat)
  | skipToLineEnd

inductive Answer where
  | nothing
  | char (c? : Option Char)
  | found (found : Bool)
  | count (n : Nat)
  | token (token : Token)

/-- The calls that decide what a step back undoes, made directly or by other operations. -/
inductive Call where
  /-- The character was read. -/
  | took (c : Char)
  /-- There was none to read. -/
  | ended
  /-- The cursor was asked to step back. -/
  | back
  /-- The cursor was moved otherwise. -/
  | moved
deriving DecidableEq, Repr

def Call.taken? : Call → Option Char
  | took c => some c
  | _ => none

@[simp] theorem Call.taken?_took (c : Char) : (took c).taken? = some c := rfl

/-- The characters behind the cursor and those in front of it, the offset of the mark, and
the calls so far, the most recent one first. -/
structure Reader where
  front : List Char
  back : List Char
  mark : Nat := 0
  calls : List Call := []
deriving DecidableEq, Repr

namespace Reader

def ofSource (source : String) : Reader := { front := [], back := source.toList }

def chars (r : Reader) : List Char := r.front ++ r.back

/-- The character that a step back puts back: the last call read it. -/
def undo (r : Reader) : Option Char := r.calls.head?.bind Call.taken?

@[simp] theorem undo_mk (front back : List Char) (mark : Nat) (call : Call) (calls : List Call) :
    undo { front, back, mark, calls := call :: calls } = call.taken? := rfl

def note (call : Call) (r : Reader) : Reader := { r with calls := call :: r.calls }

/-- Over some characters one by one. -/
def read (count : Nat) (r : Reader) : Reader where
  front := r.front ++ r.back.take count
  back := r.back.drop count
  mark := r.mark
  calls := (r.back.take count).reverse.map .took ++ r.calls

/-- Over some characters at once. -/
def leap (count : Nat) (r : Reader) : Reader where
  front := r.front ++ r.back.take count
  back := r.back.drop count
  mark := r.mark
  calls := .moved :: r.calls

/-- Back over the character that the last call read. -/
def stepBack (r : Reader) : Reader :=
  match r.undo with
  | some c => { r with front := r.front.dropLast, back := c :: r.back, calls := .back :: r.calls }
  | none => r.note .back

/-- The next character is looked at and left, if there is one. -/
def refuse (r : Reader) : Reader :=
  match r.back with
  | [] => r.note .ended
  | c :: _ => (r.note (.took c)).note .back

/-- The mark is put beside the cursor. -/
def settle (r : Reader) : Reader := { r with mark := byteLength r.front }

def token (kind : Token.Kind) (text : String) (r : Reader) : Token where
  kind := kind
  text := text
  span := .ofBounds r.mark (byteLength r.front)

def pending (r : Reader) : List Char := (slice r.chars r.mark (byteLength r.front)).getD []

/-- The cursor stands behind that many bytes of the source, or behind all of it. -/
def jump (target : Nat) (r : Reader) : Reader :=
  let front := (takeBytes? (min target (byteLength r.chars)) r.chars).getD []
  { front, back := r.chars.drop front.length, mark := byteLength front, calls := .moved :: r.calls }

/-- What an operation hands back, and the reader behind it. -/
def perform : Op → StateM Reader Answer
  | .next => fun r =>
    (.char r.back.head?, if r.back.isEmpty then r.note .ended else r.read 1)
  | .backup => fun r => (.nothing, r.stepBack)
  | .peek => fun r => (.char r.back.head?, r)
  | .peekNth n => fun r => (.char r.back[n]?, r)
  | .ignore => fun r => (.nothing, r.settle)
  | .accept valid => fun r =>
    let found := r.back.head?.any valid.contains
    (.found found, if found then r.read 1 else r.refuse)
  | .acceptRun valid => fun r =>
    let length := (r.back.takeWhile valid.contains).length
    (.count length, (r.read length).refuse)
  | .acceptWhile holds => fun r =>
    let length := (r.back.takeWhile holds).length
    (.count length, r.read length)
  | .acceptText text => fun r =>
    let found := text.isPrefixOf r.back
    (.found found, if found then r.leap text.length else r)
  | .emit kind => fun r => (.token (r.token kind (.ofList r.pending)), r.settle)
  | .emitText kind text => fun r => (.token (r.token kind text), r.settle)
  | .jumpTo target => fun r => (.nothing, r.jump target)
  | .skipToLineEnd => fun r =>
    (.nothing, r.leap (r.back.takeWhile fun c => !Text.isLineBreak c).length)

/-- Tokens are cut where the mark is not ahead of the cursor, and jumps go to boundaries. -/
def Allows (r : Reader) : Op → Prop
  | .emit _ | .emitText _ _ => r.mark ≤ byteLength r.front
  | .jumpTo target => IsBoundary r.chars (min target (byteLength r.chars))
  | _ => True

/-- All the operations are allowed, each where the ones before it lead. -/
def AllowsAll (r : Reader) : List Op → Prop
  | [] => True
  | op :: ops => r.Allows op ∧ (perform op r).2.AllowsAll ops

instance decidableAllows (r : Reader) : (op : Op) → Decidable (r.Allows op)
  | .emit _ | .emitText _ _ => inferInstanceAs (Decidable (r.mark ≤ byteLength r.front))
  | .jumpTo target =>
    inferInstanceAs (Decidable (IsBoundary r.chars (min target (byteLength r.chars))))
  | .next | .backup | .peek | .peekNth _ | .ignore | .accept _ | .acceptRun _ | .acceptWhile _
  | .acceptText _ | .skipToLineEnd => .isTrue trivial

instance decidableAllowsAll : (r : Reader) → (ops : List Op) → Decidable (r.AllowsAll ops)
  | _, [] => .isTrue trivial
  | r, op :: ops =>
    letI := decidableAllowsAll (perform op r).2 ops
    inferInstanceAs (Decidable (r.Allows op ∧ (perform op r).2.AllowsAll ops))

/-- The reader is at a place of the source. The calls tell what is behind the cursor, and the
mark stands between two characters. -/
structure Coherent (r : Reader) (source : List Char) : Prop where
  whole : r.chars = source
  undo : ∀ c, r.undo = some c → ∃ front, r.front = front ++ [c]
  mark : IsBoundary source r.mark

def scanner (r : Reader) : Scanner :=
  ⟨r.front.reverse, r.back, byteLength r.front, r.mark, r.undo.isSome⟩

variable {r : Reader} {c : Char} {source rest : List Char} {target : Nat}

theorem chars_read (count : Nat) (r : Reader) : (r.read count).chars = r.chars := by
  simp [chars, read]

theorem chars_leap (count : Nat) (r : Reader) : (r.leap count).chars = r.chars := by
  simp [chars, leap]

theorem read_zero (r : Reader) : r.read 0 = r := by simp [read]

theorem read_ended (ended : r.back = []) (count : Nat) : r.read count = r := by
  cases r
  cases ended
  simp [read]

theorem read_one (ahead : r.back = c :: rest) :
    r.read 1 =
      { front := r.front ++ [c], back := rest, mark := r.mark, calls := .took c :: r.calls } := by
  simp [read, ahead]

/-- One more character is read in front of the others. -/
theorem read_succ (ahead : r.back = c :: rest) (count : Nat) :
    r.read (count + 1) = (r.read 1).read count := by
  simp [read, ahead]

theorem jump_eq (lands : IsBoundary r.chars (min target (byteLength r.chars))) :
    ∃ front back, r.chars = front ++ back ∧ min target (byteLength r.chars) = byteLength front ∧
      r.jump target = { front, back, mark := byteLength front, calls := .moved :: r.calls } := by
  obtain ⟨front, back, whole, bytes⟩ := lands
  refine ⟨front, back, whole, bytes, ?_⟩
  have taken : takeBytes? (min target (byteLength r.chars)) r.chars = some front := by
    rw [bytes, whole, takeBytes?_append]
  unfold jump
  rw [taken, whole]
  simp

theorem stepBack_eq_note (idle : r.undo = none) : r.stepBack = r.note .back := by
  unfold stepBack
  rw [idle]

namespace Coherent

theorem of_none (whole : r.chars = source) (idle : r.undo = none) (mark : IsBoundary source r.mark) :
    r.Coherent source where
  whole := whole
  undo c same := by
    rw [idle] at same
    cases same
  mark := mark

theorem ofSource (source : String) : (ofSource source).Coherent source.toList :=
  of_none rfl rfl ⟨[], source.toList, rfl, rfl⟩

/-- The text from the mark to the cursor is there to be cut. -/
theorem slice_eq (coherent : r.Coherent source) (ordered : r.mark ≤ byteLength r.front) :
    slice r.chars r.mark (byteLength r.front) = some r.pending := by
  have here : IsBoundary r.chars (byteLength r.front) := ⟨r.front, r.back, rfl, rfl⟩
  have mark : IsBoundary r.chars r.mark := coherent.whole ▸ coherent.mark
  obtain ⟨text, cut⟩ := Option.isSome_iff_exists.mp
    (Bytes.slice_isSome_iff.mpr ⟨ordered, here.le, mark, here⟩)
  rw [pending, cut]
  rfl

/-- It is the end of the text behind the cursor. -/
theorem front_eq (coherent : r.Coherent source) (ordered : r.mark ≤ byteLength r.front) :
    ∃ start, r.front = start ++ r.pending ∧ r.mark = byteLength start := by
  obtain ⟨start, behind, whole, lower, upper⟩ :=
    Bytes.slice_eq_some_iff.mp (coherent.slice_eq ordered)
  have taken : some r.front = some (start ++ r.pending) := by
    rw [← takeBytes?_append r.front r.back, upper, ← takeBytes?_append (start ++ r.pending) behind,
      ← whole]
    rfl
  exact ⟨start, Option.some.inj taken, lower⟩

/-- What is left behind the cursor by a step back over the last character. -/
theorem stepBack_eq (coherent : r.Coherent source) (last : r.undo = some c) :
    ∃ front, r.front = front ++ [c] ∧
      r.stepBack = { front, back := c :: r.back, mark := r.mark, calls := .back :: r.calls } := by
  obtain ⟨front, behind⟩ := coherent.undo c last
  refine ⟨front, behind, ?_⟩
  unfold Reader.stepBack
  rw [last, behind, List.dropLast_concat]

theorem read_one (coherent : r.Coherent source) (ahead : r.back = c :: rest) :
    (r.read 1).Coherent source where
  whole := (chars_read 1 r).trans coherent.whole
  undo d same := by
    rw [Reader.read_one ahead] at same ⊢
    cases same
    exact ⟨r.front, rfl⟩
  mark := coherent.mark

theorem read (coherent : r.Coherent source) (count : Nat) : (r.read count).Coherent source := by
  induction count generalizing r with
  | zero => rwa [read_zero]
  | succ count ih =>
    cases ahead : r.back with
    | nil => rwa [read_ended ahead]
    | cons c rest =>
      rw [read_succ ahead]
      exact ih (coherent.read_one ahead)

theorem leap (coherent : r.Coherent source) (count : Nat) : (r.leap count).Coherent source :=
  of_none ((chars_leap count r).trans coherent.whole) rfl coherent.mark

theorem refuse (coherent : r.Coherent source) : r.refuse.Coherent source := by
  unfold Reader.refuse
  split
  · exact of_none coherent.whole rfl coherent.mark
  · exact of_none coherent.whole rfl coherent.mark

theorem settle (coherent : r.Coherent source) : r.settle.Coherent source where
  whole := coherent.whole
  undo := coherent.undo
  mark := ⟨r.front, r.back, coherent.whole.symm, rfl⟩

theorem jump (coherent : r.Coherent source)
    (lands : IsBoundary r.chars (min target (byteLength r.chars))) :
    (r.jump target).Coherent source := by
  obtain ⟨front, back, whole, _, same⟩ := jump_eq lands
  have split : front ++ back = source := whole.symm.trans coherent.whole
  rw [same]
  exact of_none split rfl ⟨front, back, split.symm, rfl⟩

theorem stepBack (coherent : r.Coherent source) : r.stepBack.Coherent source := by
  cases last : r.undo with
  | none =>
    rw [stepBack_eq_note last]
    exact of_none coherent.whole rfl coherent.mark
  | some c =>
    obtain ⟨front, behind, same⟩ := coherent.stepBack_eq last
    have split : front ++ c :: r.back = source := by
      rw [← coherent.whole, chars, behind, List.append_assoc]
      rfl
    rw [same]
    exact of_none split rfl coherent.mark

/-- Every operation that is allowed leaves the reader at a place of the source. -/
theorem perform (coherent : r.Coherent source) (op : Op) (allowed : r.Allows op) :
    (Reader.perform op r).2.Coherent source := by
  cases op with
  | next =>
    show (if r.back.isEmpty then r.note .ended else r.read 1).Coherent source
    split
    · exact of_none coherent.whole rfl coherent.mark
    · exact coherent.read 1
  | backup => exact coherent.stepBack
  | peek | peekNth _ => exact coherent
  | ignore | emit _ | emitText _ _ => exact coherent.settle
  | accept valid =>
    show (if r.back.head?.any valid.contains then r.read 1 else r.refuse).Coherent source
    split
    · exact coherent.read 1
    · exact coherent.refuse
  | acceptRun valid => exact (coherent.read _).refuse
  | acceptWhile holds => exact coherent.read _
  | acceptText text =>
    show (if text.isPrefixOf r.back then r.leap text.length else r).Coherent source
    split
    · exact coherent.leap _
    · exact coherent
  | jumpTo target => exact coherent.jump allowed
  | skipToLineEnd => exact coherent.leap _

end Coherent

end Reader

def perform : Op → StateM Scanner Answer
  | .next => fun s => (.char s.next.1, s.next.2)
  | .backup => fun s => (.nothing, s.backup)
  | .peek => fun s => (.char s.peek, s)
  | .peekNth n => fun s => (.char (s.peekNth n), s)
  | .ignore => fun s => (.nothing, s.ignore)
  | .accept valid => fun s => (.found (s.accept valid).1, (s.accept valid).2)
  | .acceptRun valid => fun s => (.count (s.acceptRun valid).1, (s.acceptRun valid).2)
  | .acceptWhile holds => fun s => (.count (s.acceptWhile holds).1, (s.acceptWhile holds).2)
  | .acceptText text => fun s => (.found (s.acceptText text).1, (s.acceptText text).2)
  | .emit kind => fun s => (.token (s.emit kind).1, (s.emit kind).2)
  | .emitText kind text => fun s => (.token (s.emitText kind text).1, (s.emitText kind text).2)
  | .jumpTo target => fun s => (.nothing, s.jumpTo target)
  | .skipToLineEnd => fun s => (.nothing, s.skipToLineEnd)

/-- What one operation after the other hands back, and where they lead. -/
theorem run_mapM_cons {σ α β : Type} (step : α → StateM σ β) (first : α) (more : List α) (s : σ) :
    ((first :: more).mapM step).run s =
      ((step first s).1 :: ((more.mapM step).run (step first s).2).1,
        ((more.mapM step).run (step first s).2).2) := by
  rw [List.mapM_cons]
  rfl

namespace Reader

variable {r : Reader} {c : Char} {source rest front back : List Char} {target : Nat}

theorem scanner_read_one (ahead : r.back = c :: rest) :
    r.scanner.next = (some c, (r.read 1).scanner) := by
  rw [read_one ahead]
  simp [scanner, Scanner.next, ahead]

theorem scanner_ended (ended : r.back = []) :
    r.scanner.next = (none, (r.note .ended).scanner) := by
  simp [scanner, Scanner.next, ended, note, Call.taken?]

theorem scanner_next (r : Reader) : r.scanner.next =
    (r.back.head?, (if r.back.isEmpty then r.note .ended else r.read 1).scanner) := by
  cases ahead : r.back with
  | nil => exact scanner_ended ahead
  | cons c rest => exact scanner_read_one ahead

theorem scanner_leap (count : Nat) (r : Reader) :
    r.scanner.skip count = (r.leap count).scanner := by
  simp [scanner, Scanner.skip, leap, Call.taken?]

theorem scanner_stepBack (coherent : r.Coherent source) : r.scanner.backup = r.stepBack.scanner := by
  cases last : r.undo with
  | none =>
    rw [stepBack_eq_note last]
    simp [scanner, Scanner.backup, last, note, Call.taken?]
  | some c =>
    obtain ⟨front, behind, same⟩ := coherent.stepBack_eq last
    rw [same]
    simp [scanner, Scanner.backup, behind, last, Call.taken?]

/-- A character that is read and put back leaves the cursor where it was. -/
theorem stepBack_read_one (ahead : r.back = c :: rest) : (r.read 1).stepBack = r.refuse := by
  rw [read_one ahead]
  unfold refuse stepBack
  rw [ahead]
  simp [note, ahead]

theorem scanner_accept (valid : List Char) (coherent : r.Coherent source) : r.scanner.accept valid =
    (r.back.head?.any valid.contains,
      (if r.back.head?.any valid.contains then r.read 1 else r.refuse).scanner) := by
  unfold Scanner.accept
  cases ahead : r.back with
  | nil =>
    rw [scanner_ended ahead]
    simp [refuse, ahead]
  | cons c rest =>
    rw [scanner_read_one ahead]
    cases wanted : valid.contains c with
    | true => simp only [wanted, List.head?_cons, Option.any_some, if_true]
    | false =>
      have back := scanner_stepBack (coherent.read_one ahead)
      rw [stepBack_read_one ahead] at back
      simp only [wanted, back, List.head?_cons, Option.any_some, Bool.false_eq_true, if_false]

theorem scanner_acceptRunFrom (valid : List Char) (coherent : r.Coherent source) (fuel count : Nat)
    (enough : r.back.length < fuel) : acceptRunFrom valid fuel count r.scanner =
      (count + (r.back.takeWhile valid.contains).length,
        (r.read (r.back.takeWhile valid.contains).length).refuse.scanner) := by
  induction fuel generalizing r count with
  | zero => cases enough
  | succ fuel ih =>
    rw [acceptRunFrom, scanner_accept valid coherent]
    cases ahead : r.back with
    | nil =>
      rw [List.takeWhile_nil, List.length_nil, read_zero]
      rfl
    | cons c rest =>
      rw [ahead] at enough
      cases wanted : valid.contains c with
      | true =>
        have left : (r.read 1).back = rest := by rw [read_one ahead]
        have run := ih (coherent.read_one ahead) (count + 1) (left ▸ Nat.lt_of_succ_lt_succ enough)
        rw [left, Nat.add_assoc, Nat.add_comm 1] at run
        rw [List.takeWhile_cons_of_pos wanted, List.length_cons,
          read_succ ahead (rest.takeWhile valid.contains).length]
        simpa only [wanted, List.head?_cons, Option.any_some, if_true] using run
      | false =>
        rw [List.takeWhile_cons_of_neg (Bool.eq_false_iff.mp wanted), List.length_nil, read_zero]
        simp only [wanted, List.head?_cons, Option.any_some, Bool.false_eq_true, if_false,
          Nat.add_zero]

theorem scanner_acceptRun (valid : List Char) (coherent : r.Coherent source) : r.scanner.acceptRun valid =
    ((r.back.takeWhile valid.contains).length,
      (r.read (r.back.takeWhile valid.contains).length).refuse.scanner) := by
  have run := scanner_acceptRunFrom valid coherent _ 0 (Nat.lt_succ_self r.back.length)
  rwa [Nat.zero_add] at run

theorem scanner_acceptWhileFrom (holds : Char → Bool) (fuel count : Nat) (r : Reader)
    (enough : r.back.length < fuel) : acceptWhileFrom holds fuel count r.scanner =
      (count + (r.back.takeWhile holds).length,
        (r.read (r.back.takeWhile holds).length).scanner) := by
  induction fuel generalizing r count with
  | zero => cases enough
  | succ fuel ih =>
    have peeked : r.scanner.peek = r.back.head? := rfl
    rw [acceptWhileFrom, peeked]
    cases ahead : r.back with
    | nil =>
      rw [List.takeWhile_nil, List.length_nil, read_zero]
      rfl
    | cons c rest =>
      rw [ahead] at enough
      cases wanted : holds c with
      | true =>
        have left : (r.read 1).back = rest := by rw [read_one ahead]
        have run := ih (count + 1) (r.read 1) (left ▸ Nat.lt_of_succ_lt_succ enough)
        rw [left, Nat.add_assoc, Nat.add_comm 1] at run
        rw [List.takeWhile_cons_of_pos wanted, List.length_cons,
          read_succ ahead (rest.takeWhile holds).length]
        simpa only [wanted, scanner_read_one ahead, List.head?_cons, if_true] using run
      | false =>
        rw [List.takeWhile_cons_of_neg (Bool.eq_false_iff.mp wanted), List.length_nil, read_zero]
        simp only [wanted, List.head?_cons, Bool.false_eq_true, if_false, Nat.add_zero]

theorem scanner_acceptWhile (holds : Char → Bool) (r : Reader) : r.scanner.acceptWhile holds =
    ((r.back.takeWhile holds).length, (r.read (r.back.takeWhile holds).length).scanner) := by
  have run := scanner_acceptWhileFrom holds _ 0 r (Nat.lt_succ_self r.back.length)
  rwa [Nat.zero_add] at run

theorem scanner_acceptText (text : List Char) (r : Reader) : r.scanner.acceptText text =
    (text.isPrefixOf r.back,
      (if text.isPrefixOf r.back then r.leap text.length else r).scanner) := by
  have ahead : r.scanner.ahead = r.back := rfl
  unfold Scanner.acceptText
  rw [ahead, scanner_leap]
  split
  · rename_i found
    rw [found]
  · rename_i other
    rw [Bool.eq_false_iff.mpr other]

theorem scanner_pending (coherent : r.Coherent source) (ordered : r.mark ≤ byteLength r.front) :
    r.scanner.pending = r.pending := by
  obtain ⟨start, behind, lower⟩ := coherent.front_eq ordered
  have bytes : byteLength r.front - r.mark = byteLength r.pending.reverse := by
    rw [Text.byteLength_reverse, lower, congrArg byteLength behind, byteLength_append,
      Nat.add_sub_cancel_left]
  have reversed : r.front.reverse = r.pending.reverse ++ start.reverse := by
    rw [← List.reverse_append, ← behind]
  calc r.scanner.pending
    _ = lastBytes (byteLength r.pending.reverse) (r.pending.reverse ++ start.reverse) [] := by
      rw [← bytes, ← reversed]
      rfl
    _ = r.pending := by rw [lastBytes_append, List.reverse_reverse, List.append_nil]

theorem charsWithin_append (front back : List Char) (extra : Nat) :
    charsWithin (byteLength front + extra) (front ++ back) =
      front.length + charsWithin extra back := by
  induction front with
  | nil => rw [byteLength_nil, Nat.zero_add, List.nil_append, List.length_nil, Nat.zero_add]
  | cons c front ih =>
    have wide := c.utf8Size_pos
    obtain ⟨count, same⟩ : ∃ count, byteLength (c :: front) + extra = count + 1 :=
      ⟨c.utf8Size + byteLength front + extra - 1, by rw [byteLength_cons]; omega⟩
    have left : count + 1 - c.utf8Size = byteLength front + extra := by
      rw [← same, byteLength_cons]
      omega
    rw [same, List.cons_append, charsWithin, left, ih, List.length_cons, Nat.add_right_comm]

/-- Up to a boundary there are the characters in front of it. -/
theorem charsWithin_boundary (bytes : min target (byteLength (front ++ back)) = byteLength front) :
    charsWithin target (front ++ back) = front.length := by
  by_cases within : target ≤ byteLength (front ++ back)
  · have exact : target = byteLength front + 0 := (Nat.min_eq_left within).symm.trans bytes
    rw [exact, charsWithin_append]
    cases back <;> rfl
  · have beyond : byteLength (front ++ back) ≤ target := Nat.le_of_not_le within
    rw [Nat.min_eq_right beyond, byteLength_append] at bytes
    cases back with
    | nil =>
      obtain ⟨extra, rfl⟩ := Nat.exists_eq_add_of_le (List.append_nil front ▸ beyond)
      rw [charsWithin_append]
      cases extra <;> rfl
    | cons c back =>
      have wide := c.utf8Size_pos
      rw [byteLength_cons] at bytes
      omega

theorem scanner_jump (lands : IsBoundary r.chars (min target (byteLength r.chars))) :
    r.scanner.jumpTo target = (r.jump target).scanner := by
  obtain ⟨front, back, whole, bytes, same⟩ := jump_eq lands
  have chars : r.scanner.chars = front ++ back := by
    rw [← whole]
    simp [Scanner.chars, scanner, Reader.chars]
  rw [whole] at bytes
  unfold Scanner.jumpTo
  rw [chars, charsWithin_boundary bytes, same]
  simp [scanner, Scanner.skip, Scanner.ignore, Scanner.ofChars, Call.taken?]

/-- A scanner at the place of the reader does what the reader does. -/
theorem scanner_perform (coherent : r.Coherent source) (op : Op) (allowed : r.Allows op) :
    Scanner.perform op r.scanner =
      ((Reader.perform op r).1, (Reader.perform op r).2.scanner) := by
  cases op with
  | next => exact congrArg (fun read => (Answer.char read.1, read.2)) (scanner_next r)
  | backup => exact congrArg (Answer.nothing, ·) (scanner_stepBack coherent)
  | peek | peekNth _ | ignore | emitText _ _ => rfl
  | accept valid =>
    exact congrArg (fun read => (Answer.found read.1, read.2)) (scanner_accept valid coherent)
  | acceptRun valid =>
    exact congrArg (fun read => (Answer.count read.1, read.2)) (scanner_acceptRun valid coherent)
  | acceptWhile holds =>
    exact congrArg (fun read => (Answer.count read.1, read.2)) (scanner_acceptWhile holds r)
  | acceptText text =>
    exact congrArg (fun read => (Answer.found read.1, read.2)) (scanner_acceptText text r)
  | emit kind =>
    have cut : Scanner.perform (.emit kind) r.scanner =
        (.token (r.token kind (.ofList r.scanner.pending)), r.settle.scanner) := rfl
    rw [cut, scanner_pending coherent allowed]
    rfl
  | jumpTo target => exact congrArg (Answer.nothing, ·) (scanner_jump allowed)
  | skipToLineEnd => exact congrArg (Answer.nothing, ·) (scanner_leap _ r)

/-- So does every run of operations that are allowed. -/
theorem Coherent.run (coherent : r.Coherent source) (ops : List Op) (allowed : r.AllowsAll ops) :
    ((ops.mapM Reader.perform).run r).2.Coherent source := by
  induction ops generalizing r with
  | nil => exact coherent
  | cons op ops ih =>
    obtain ⟨here, later⟩ := allowed
    rw [run_mapM_cons]
    exact ih (coherent.perform op here) later

theorem scanner_run (coherent : r.Coherent source) (ops : List Op) (allowed : r.AllowsAll ops) :
    (ops.mapM Scanner.perform).run r.scanner =
      (((ops.mapM Reader.perform).run r).1, ((ops.mapM Reader.perform).run r).2.scanner) := by
  induction ops generalizing r with
  | nil => rfl
  | cons op ops ih =>
    obtain ⟨here, later⟩ := allowed
    rw [run_mapM_cons, run_mapM_cons, scanner_perform coherent op here,
      ih (coherent.perform op here) later]

end Reader

end Scanner

end RubySyntax
