/-! Offsets and lengths count bytes of the UTF-8 form. A span is half open and
may be empty. -/
namespace RubySyntax.Text

/-- The number of bytes of the UTF-8 form. -/
def byteLength : List Char → Nat
  | [] => 0
  | c :: rest => c.utf8Size + byteLength rest

@[simp] theorem byteLength_nil : byteLength [] = 0 := rfl

@[simp] theorem byteLength_cons (c : Char) (rest : List Char) :
    byteLength (c :: rest) = c.utf8Size + byteLength rest := rfl

@[simp] theorem byteLength_append (front back : List Char) :
    byteLength (front ++ back) = byteLength front + byteLength back := by
  induction front with
  | nil => simp
  | cons c rest ih => simp [ih, Nat.add_assoc]

@[simp] theorem byteLength_reverse (cs : List Char) : byteLength cs.reverse = byteLength cs := by
  induction cs with
  | nil => rfl
  | cons c rest ih => simp [ih, Nat.add_comm]

/-- The bytes `start, …, start + length - 1` of a source. -/
structure Span where
  start : Nat
  length : Nat
deriving DecidableEq, Repr, Inhabited

namespace Span

/-- The first offset after the span. -/
def stop (span : Span) : Nat := span.start + span.length

/-- The span from `start` up to `stop`; empty where the bounds are reversed. -/
def ofBounds (start stop : Nat) : Span := ⟨start, stop - start⟩

def emptyAt (offset : Nat) : Span := ⟨offset, 0⟩

def isEmpty (span : Span) : Bool := span.length == 0

/-- Both bounds, with two dots between them. -/
def render (span : Span) : String := s!"{span.start}..{span.stop}"

theorem stop_ofBounds {start stop : Nat} (ordered : start ≤ stop) :
    (ofBounds start stop).stop = stop := by
  simp [ofBounds, Span.stop]; omega

end Span

end RubySyntax.Text
