import RubySyntax.Text.Span

/-! Lines and columns. A line starts at the beginning of the source and after
every line feed, so a line feed belongs to the line it ends; columns count
characters. -/
namespace RubySyntax.Text

/-- A zero-based line and a zero-based column within it. -/
structure Position where
  line : Nat
  column : Nat
deriving DecidableEq, Repr, Inhabited

/-- Readers count lines and columns from one. -/
def Position.render (position : Position) : String :=
  s!"{position.line + 1}:{position.column + 1}"

/-- Offsets just after each line feed of a text that begins at `offset`. -/
def lineStartsFrom (offset : Nat) : List Char → List Nat
  | [] => []
  | c :: rest =>
    if c = '\n' then (offset + c.utf8Size) :: lineStartsFrom (offset + c.utf8Size) rest
    else lineStartsFrom (offset + c.utf8Size) rest

/-- How many characters of a text that begins at `offset` start at or after
`low` and before `high`. -/
def charsStartingIn (low high offset : Nat) : List Char → Nat
  | [] => 0
  | c :: rest =>
    (if low ≤ offset ∧ offset < high then 1 else 0) +
      charsStartingIn low high (offset + c.utf8Size) rest

structure LineMap where
  chars : List Char

namespace LineMap

def ofSource (source : String) : LineMap := ⟨source.toList⟩

/-- Offsets at which the lines start, ascending from zero. -/
def starts (map : LineMap) : List Nat := 0 :: lineStartsFrom 0 map.chars

def lineCount (map : LineMap) : Nat := map.starts.length

/-- The line that holds `offset`: the last one that starts at or before it. -/
def lineOf (map : LineMap) (offset : Nat) : Nat :=
  map.starts.countP (fun start => decide (start ≤ offset)) - 1

/-- The line and column of `offset`; one past the end reads as the end. -/
def locate (map : LineMap) (offset : Nat) : Position :=
  let offset := min offset (byteLength map.chars)
  let line := map.lineOf offset
  ⟨line, charsStartingIn (map.starts.getD line 0) offset 0 map.chars⟩

end LineMap

end RubySyntax.Text
