import RubySyntax.Lexer.Basic

namespace RubySyntax.Lexer

open Text (isBlank isLineBreak)

def fromLineEnd (input : List Char) : List Char := input.dropWhile fun c => !isLineBreak c

/-- The text from the end of the line that closes a block comment on. The
comment runs to the end where no line closes it. -/
def afterBlockComment : List Char → List Char
  | [] => []
  | c :: rest =>
    if isLineBreak c && "=end".toList.isPrefixOf rest then fromLineEnd rest
    else afterBlockComment rest

/-- The next line goes on with a method call: its first character that is not
blank is a dot, and does not begin a range, or the two characters of a safe call. -/
def leadingDotFollows (input : List Char) : Bool :=
  match input.dropWhile isBlank with
  | '.' :: rest => rest.head? != some '.'
  | '&' :: '.' :: _ => true
  | _ => false

/-- How many characters continue the line: a backslash and the line break
behind it. -/
def continuation (input : List Char) : Nat :=
  if ['\\', '\n'].isPrefixOf input then 2
  else if ['\\', '\r', '\n'].isPrefixOf input then 3
  else 0

theorem length_skip (lexer : Lexer) (count : Nat) :
    (lexer.skip count).scanner.ahead.length = lexer.scanner.ahead.length - count := by
  simp [Lexer.skip, Scanner.skip, Scanner.ignore]

theorem length_resumeAfter (lexer : Lexer) (lineEnd : Nat) :
    (lexer.resumeAfter lineEnd).scanner.ahead.length ≤ lexer.scanner.ahead.length := by
  unfold resumeAfter
  split
  · exact Nat.le_refl _
  · split
    · simp only [length_skip]; omega
    · exact Nat.le_refl _

theorem length_crossLineFeed (lexer : Lexer) :
    (lexer.crossLineFeed).scanner.ahead.length ≤ lexer.scanner.ahead.length - 1 :=
  Nat.le_trans (length_resumeAfter _ _) (Nat.le_of_eq (length_skip _ _))

/-- Moves to `rest`, which is what is left of the text ahead. -/
def skipTo (lexer : Lexer) (rest : List Char) : Lexer :=
  lexer.skip (lexer.scanner.ahead.length - rest.length)

def noteBlank (lexer : Lexer) : Lexer :=
  { lexer with spacing := { lexer.spacing with blankBefore := true } }

def noteBreak (lexer : Lexer) : Lexer :=
  { lexer with spacing := { lexer.spacing with breakBefore := true } }

/-- Continues the line over the line break behind a backslash. -/
def continueLine (lexer : Lexer) : Lexer :=
  (lexer.skip (continuation lexer.scanner.ahead - 1)).crossLineFeed.noteBlank

/-- A line break separates statements unless the previous token already does or
the next line begins with a dot. -/
def separates (lexer : Lexer) : Bool :=
  lexer.last.any (fun kind => !kind.isSeparator) && !leadingDotFollows lexer.scanner.ahead

/-- Moves to the line feed ahead, or to the end. -/
def skipLine (lexer : Lexer) : Lexer :=
  lexer.skip (lexer.scanner.ahead.takeWhile fun c => !isLineBreak c).length

/-- A comment, and behind a continued line its line feed as well. -/
def skipComment (continued : Bool) (lexer : Lexer) : Lexer :=
  if continued then lexer.skipLine.crossLineFeed else lexer.skipLine

theorem length_fromLineEnd (input : List Char) : (fromLineEnd input).length ≤ input.length :=
  (List.dropWhile_suffix _).length_le

theorem length_afterBlockComment (input : List Char) :
    (afterBlockComment input).length ≤ input.length := by
  induction input with
  | nil => simp [afterBlockComment]
  | cons c rest ih =>
    rw [afterBlockComment]
    split
    · exact Nat.le_succ_of_le (length_fromLineEnd rest)
    · exact Nat.le_succ_of_le ih

theorem length_skipTo {lexer : Lexer} {rest : List Char}
    (shorter : rest.length < lexer.scanner.ahead.length) :
    (lexer.skipTo rest).scanner.ahead.length < lexer.scanner.ahead.length := by
  rw [skipTo, length_skip]; omega

theorem length_skipComment {lexer : Lexer} {rest : List Char} (continued : Bool)
    (ahead : lexer.scanner.ahead = '#' :: rest) :
    (lexer.skipComment continued).scanner.ahead.length < lexer.scanner.ahead.length := by
  have skipped : lexer.skipLine.scanner.ahead.length < lexer.scanner.ahead.length := by
    rw [skipLine, length_skip, ahead,
      List.takeWhile_cons_of_pos (by decide), List.length_cons, List.length_cons]
    omega
  unfold skipComment
  split
  · have crossed := length_crossLineFeed lexer.skipLine
    omega
  · exact skipped

theorem length_continueLine {lexer : Lexer} (more : lexer.scanner.ahead ≠ []) :
    lexer.continueLine.scanner.ahead.length < lexer.scanner.ahead.length := by
  have some : 0 < lexer.scanner.ahead.length := List.length_pos_iff.mpr more
  have crossed := length_crossLineFeed (lexer.skip (continuation lexer.scanner.ahead - 1))
  rw [length_skip] at crossed
  have same : lexer.continueLine.scanner =
      (lexer.skip (continuation lexer.scanner.ahead - 1)).crossLineFeed.scanner := rfl
  rw [same]; omega

/-- Passes over everything that belongs to no token, up to a token or the end.
A line feed that separates statements is a token itself and is handed back.
Behind a continued line the lines that hold only a comment are passed whole. -/
def skipTrivia (continued : Bool) (lexer : Lexer) : Option Token × Lexer :=
  match _ahead : lexer.scanner.ahead with
  | [] => (none, lexer)
  | c :: rest =>
    if isBlank c then skipTrivia continued (lexer.skip 1).noteBlank
    else if isLineBreak c then
      if lexer.crossLineFeed.separates then
        (some { kind := .newLine, text := "\n", span := ⟨lexer.scanner.offset, 1⟩ },
          lexer.crossLineFeed)
      else skipTrivia false lexer.crossLineFeed.noteBreak
    else if _comment : c = '#' then skipTrivia continued (lexer.skipComment continued)
    else if continuation (c :: rest) ≠ 0 then skipTrivia true lexer.continueLine
    else if lexer.atLineStart && "=begin".toList.isPrefixOf (c :: rest) then
      skipTrivia false (lexer.skipTo (afterBlockComment rest))
    else (none, lexer)
termination_by lexer.scanner.ahead.length
decreasing_by
  · have shorter := length_skip lexer 1
    simp only [noteBlank]
    rw [shorter, _ahead, List.length_cons]; omega
  · have shorter := length_crossLineFeed lexer
    simp only [noteBreak]
    rw [_ahead, List.length_cons] at shorter ⊢; omega
  · subst _comment; exact length_skipComment continued _ahead
  · exact length_continueLine (by simp [_ahead])
  · apply length_skipTo
    have shorter := length_afterBlockComment rest
    rw [_ahead, List.length_cons]; omega

end RubySyntax.Lexer
