import RubySyntax.Text.CharClass
import RubySyntax.Token.Basic

/-! A cursor over a source with a mark. Tokens are cut between the mark and the
cursor, and the last single step can be undone once. -/
namespace RubySyntax

open Text (Span byteLength)

/-- The text before the cursor, in reverse, and the text after it, with the
offsets of the cursor and of the mark. -/
structure Scanner where
  behind : List Char
  ahead : List Char
  offset : Nat
  mark : Nat
  /-- Whether the character before the cursor was read by the last step. -/
  canUndo : Bool
deriving DecidableEq, Repr

namespace Scanner

def ofChars (cs : List Char) : Scanner := ⟨[], cs, 0, 0, false⟩

def ofSource (source : String) : Scanner := ofChars source.toList

def chars (s : Scanner) : List Char := s.behind.reverse ++ s.ahead

def atEnd (s : Scanner) : Bool := s.ahead.isEmpty

def rest (s : Scanner) : String := String.ofList s.ahead

/-- The next character, unread. -/
def peek (s : Scanner) : Option Char := s.ahead.head?

/-- The character `n` places after the next one, unread. -/
def peekNth (s : Scanner) (n : Nat) : Option Char := s.ahead[n]?

/-- Reads one character; at the end reads none and has nothing to undo. -/
def next (s : Scanner) : Option Char × Scanner :=
  match s.ahead with
  | [] => (none, { s with canUndo := false })
  | c :: ahead => (some c, ⟨c :: s.behind, ahead, s.offset + c.utf8Size, s.mark, true⟩)

/-- Undoes the last `next`, once. -/
def backup (s : Scanner) : Scanner :=
  match s.canUndo, s.behind with
  | true, c :: behind => ⟨behind, c :: s.ahead, s.offset - c.utf8Size, s.mark, false⟩
  | _, _ => { s with canUndo := false }

/-- Moves over `count` characters in one step that cannot be undone. -/
def skip (s : Scanner) (count : Nat) : Scanner :=
  ⟨(s.ahead.take count).reverse ++ s.behind, s.ahead.drop count,
    s.offset + byteLength (s.ahead.take count), s.mark, false⟩

/-- Moves the mark to the cursor. -/
def ignore (s : Scanner) : Scanner := { s with mark := s.offset }

/-- Reads the next character if it is one of `valid`. -/
def accept (valid : List Char) (s : Scanner) : Bool × Scanner :=
  match s.next with
  | (some c, s') => if valid.contains c then (true, s') else (false, s'.backup)
  | (none, s') => (false, s')

/-- Reads characters of `valid` while they come, within `fuel` steps. -/
def acceptRunFrom (valid : List Char) : Nat → Nat → Scanner → Nat × Scanner
  | 0, count, s => (count, s)
  | fuel + 1, count, s =>
    match s.accept valid with
    | (true, s') => acceptRunFrom valid fuel (count + 1) s'
    | (false, s') => (count, s')

/-- Reads the longest run of characters of `valid` and counts them. -/
def acceptRun (valid : List Char) (s : Scanner) : Nat × Scanner :=
  acceptRunFrom valid (s.ahead.length + 1) 0 s

/-- Reads characters while `holds`, within `fuel` steps. -/
def acceptWhileFrom (holds : Char → Bool) : Nat → Nat → Scanner → Nat × Scanner
  | 0, count, s => (count, s)
  | fuel + 1, count, s =>
    match s.peek with
    | some c => if holds c then acceptWhileFrom holds fuel (count + 1) s.next.2 else (count, s)
    | none => (count, s)

/-- Reads the longest run of characters with `holds` and counts them. -/
def acceptWhile (holds : Char → Bool) (s : Scanner) : Nat × Scanner :=
  acceptWhileFrom holds (s.ahead.length + 1) 0 s

/-- Moves over `text` if the input continues with it. -/
def acceptText (text : List Char) (s : Scanner) : Bool × Scanner :=
  if text.isPrefixOf s.ahead then (true, s.skip text.length) else (false, s)

/-- The last `count` bytes of a reversed text, in reading order. -/
def lastBytes : Nat → List Char → List Char → List Char
  | 0, _, taken => taken
  | _ + 1, [], taken => taken
  | count + 1, c :: behind, taken => lastBytes (count + 1 - c.utf8Size) behind (c :: taken)

/-- The text between the mark and the cursor. -/
def pending (s : Scanner) : List Char := lastBytes (s.offset - s.mark) s.behind []

def pendingSpan (s : Scanner) : Span := .ofBounds s.mark s.offset

/-- Cuts a token between the mark and the cursor that carries `text`. -/
def emitText (kind : Token.Kind) (text : String) (s : Scanner) : Token × Scanner :=
  ({ kind, text, span := s.pendingSpan }, s.ignore)

/-- Cuts a token between the mark and the cursor. -/
def emit (kind : Token.Kind) (s : Scanner) : Token × Scanner :=
  s.emitText kind (String.ofList s.pending)

/-- How many characters of a text begin in its first `bytes` bytes. -/
def charsWithin : Nat → List Char → Nat
  | 0, _ => 0
  | _ + 1, [] => 0
  | bytes + 1, c :: rest => charsWithin (bytes + 1 - c.utf8Size) rest + 1

/-- Moves the cursor and the mark to an offset, the end at most. -/
def jumpTo (target : Nat) (s : Scanner) : Scanner :=
  ((ofChars s.chars).skip (charsWithin target s.chars)).ignore

/-- Moves to the next line feed, or to the end. -/
def skipToLineEnd (s : Scanner) : Scanner :=
  s.skip (s.ahead.takeWhile (fun c => !Text.isLineBreak c)).length

end Scanner

end RubySyntax
