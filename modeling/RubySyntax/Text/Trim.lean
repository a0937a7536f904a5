/-! The white space of running text, which is wider than the blanks between
tokens: trimming a line and splitting a list of words go by it. -/
namespace RubySyntax.Text

/-- The characters with the Unicode property White_Space. -/
def isWhiteSpace (c : Char) : Bool :=
  let n := c.toNat
  (0x09 ≤ n && n ≤ 0x0d) || n == 0x20 || n == 0x85 || n == 0xa0 || n == 0x1680 ||
    (0x2000 ≤ n && n ≤ 0x200a) || n == 0x2028 || n == 0x2029 || n == 0x202f ||
    n == 0x205f || n == 0x3000

def trimStart (cs : List Char) : List Char := cs.dropWhile isWhiteSpace

/-- Drops the longest white suffix. -/
def trimEnd (cs : List Char) : List Char := (cs.reverse.dropWhile isWhiteSpace).reverse

def isWhite (cs : List Char) : Bool := cs.all isWhiteSpace

/-- The maximal runs without white space, where `word` holds the current run in
reverse. -/
def wordsFrom (word : List Char) : List Char → List (List Char)
  | [] => if word.isEmpty then [] else [word.reverse]
  | c :: rest =>
    if isWhiteSpace c then
      if word.isEmpty then wordsFrom [] rest else word.reverse :: wordsFrom [] rest
    else wordsFrom (c :: word) rest

/-- The maximal runs of a text without white space, in order. -/
def words (cs : List Char) : List (List Char) := wordsFrom [] cs

/-- The pieces between line feeds; a text without any is its own only piece. -/
def splitLines : List Char → List (List Char)
  | [] => [[]]
  | c :: rest =>
    if c = '\n' then [] :: splitLines rest
    else
      match splitLines rest with
      | [] => [[c]]
      | line :: lines => (c :: line) :: lines

def joinLines : List (List Char) → List Char
  | [] => []
  | [line] => line
  | line :: next :: lines => line ++ '\n' :: joinLines (next :: lines)

theorem splitLines_ne_nil (cs : List Char) : splitLines cs ≠ [] := by
  cases cs with
  | nil => simp [splitLines]
  | cons c rest => rw [splitLines]; split <;> (try split) <;> simp

theorem joinLines_splitLines (cs : List Char) : joinLines (splitLines cs) = cs := by
  induction cs with
  | nil => rfl
  | cons c rest ih =>
    rw [splitLines]
    split
    · rename_i feed
      cases found : splitLines rest with
      | nil => exact absurd found (splitLines_ne_nil rest)
      | cons line lines => rw [found] at ih; simp [joinLines, ih, feed]
    · split
      · rename_i found; exact absurd found (splitLines_ne_nil rest)
      · rename_i line lines found
        rw [found] at ih
        cases lines with
        | nil => simpa [joinLines] using ih
        | cons next more => simpa [joinLines] using ih

end RubySyntax.Text
