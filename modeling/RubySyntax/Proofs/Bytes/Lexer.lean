import RubySyntax.Proofs.Bytes.Read
import RubySyntax.Lexer.Next

namespace RubySyntax.Bytes

open Text (isBlank isLineBreak isSpace)

structure Lexer where
  cursor : Cursor
  /-- The kind of the previous token. -/
  last : Option Token.Kind := none
  /-- The bodies read ahead for the current line. -/
  waiting : Option Pending := none
  /-- The white space since the previous token. -/
  spacing : Token.Spacing := .unspaced
  /-- The fault behind a terminal token of unknown kind. -/
  report : Option Diagnostic.Report := none

abbrev Step := StateT Lexer Option

namespace Scan

def atLineStart : Scan Bool := fun cursor =>
  (slice cursor.source 0 cursor.pos).map fun passed => (passed.getLast?.all isLineBreak, cursor)

/-- The backslash that continues a line, and a carriage return behind it. -/
def backslash : Scan Unit := do
  discard next
  discard (accept ['\r'])

/-- A block comment, up to the end of the line that closes it. -/
def blockComment : Scan Unit :=
  -- The recursive calls are named as in `Scan.acceptRun`.
  letI blockComment : Scan Unit := by apply blockComment
  do
    skipToLineEnd
    match ← next with
    | none => return
    | some _ => if "=end".toList.isPrefixOf (← rest) then skipToLineEnd else blockComment
partial_fixpoint

end Scan

namespace Lexer

open Scan
open RubySyntax.Lexer (continuation leadingDotFollows)

def ofSource (source : String) : Lexer := { cursor := { source := source.toList } }

def context (lexer : Lexer) : Lexeme.Context := ⟨lexer.last, lexer.spacing.isSpacedBefore⟩

def halted (lexer : Lexer) : Bool := lexer.last.any Token.Kind.isTerminal

def scan {α : Type} (op : Scan α) : Step α := fun lexer =>
  (op.run lexer.cursor).map fun (value, cursor) => (value, { lexer with cursor })

def view {α : Type} (field : Lexer → α) : Step α := return field (← get)

def noteBlank : Step Unit :=
  modify fun lexer => { lexer with spacing := { lexer.spacing with blankBefore := true } }

def noteBreak : Step Unit :=
  modify fun lexer => { lexer with spacing := { lexer.spacing with breakBefore := true } }

def resumeAfter (lineFeed : Nat) : Step Unit := do
  match ← view waiting with
  | none => return
  | some pending =>
    if pending.lineEnd = lineFeed then
      modify fun lexer => { lexer with waiting := none }
      scan (jumpTo pending.resume)
    else return

/-- Reads the line feed at the cursor, unless the source has ended, and passes over the
bodies that follow its line. -/
def crossLineFeed : Step Bool := do
  let lineFeed ← view fun lexer => lexer.cursor.pos
  match ← scan next with
  | none => return false
  | some _ =>
    resumeAfter lineFeed
    return true

/-- A line feed; a token of its own if it separates statements. -/
def lineBreak : Step (Option Token) := do
  let lineFeed ← view fun lexer => lexer.cursor.pos
  discard crossLineFeed
  let last ← view last
  let separates := last.any (fun kind => !kind.isSeparator) && !leadingDotFollows (← scan rest)
  scan ignore
  if separates then return some { kind := .newLine, text := "\n", span := ⟨lineFeed, 1⟩ }
  else
    noteBreak
    return none

/-- Blanks and lines with nothing but a comment, behind a continued line. -/
def commentLines : Step Unit :=
  letI commentLines : Step Unit := by apply commentLines
  do
    discard (scan (acceptWhile isBlank))
    if (← scan peek) == some '#' then
      scan skipToLineEnd
      if ← crossLineFeed then commentLines else return
    else return
partial_fixpoint

/-- Continued lines, with the comments that they lead into. -/
def continuedLines : Step Unit :=
  letI continuedLines : Step Unit := by apply continuedLines
  do
    if continuation (← scan rest) ≠ 0 then
      scan backslash
      discard crossLineFeed
      commentLines
      continuedLines
    else return
partial_fixpoint

/-- What one look at the input comes to. -/
inductive Turn
  /-- Something was passed that belongs to no token. -/
  | passed
  /-- A token begins, or the token is that of a line feed. -/
  | stopped (token : Option Token)

/-- Passes over one piece of what belongs to no token. -/
def turn (c : Char) (input : List Char) : Step Turn :=
  if c = '\n' then do
    match ← lineBreak with
    | some token => return .stopped (some token)
    | none => return .passed
  else if c = '#' then do
    scan skipToLineEnd
    return .passed
  else if c = '\\' ∧ continuation input ≠ 0 then do
    noteBlank
    continuedLines
    return .passed
  else do
    if c = '=' && (← scan atLineStart) && "=begin".toList.isPrefixOf input then
      scan blockComment
      return .passed
    else if isBlank c then
      discard (scan next)
      noteBlank
      return .passed
    else return .stopped none

/-- Passes over everything that belongs to no token, up to a token or the end. -/
def trivia : Step (Option Token) :=
  letI trivia : Step (Option Token) := by apply trivia
  do
    scan ignore
    match ← scan rest with
    | [] => return none
    | c :: tail =>
      match ← turn c (c :: tail) with
      | .passed => trivia
      | .stopped token => return token
partial_fixpoint

def readToken : Step Token := do
  let (emitted, waiting) ← scan (read (← view context) (← view waiting))
  modify fun lexer => { lexer with waiting, report := emitted.report <|> lexer.report }
  return emitted.token

def finish (token : Token) : Step Token := do
  let spaceAfter := (← scan peek).all isSpace
  let spacing ← view spacing
  modify fun lexer => { lexer with last := some token.kind, spacing := .unspaced }
  return { token with spacing := { spacing with spaceAfter } }

def next : Step (Option Token) := do
  if ← view halted then return none
  else
    match ← trivia with
    | some newLine => return some (← finish newLine)
    | none => return some (← finish (← readToken))

def tokens : Step (List Token) :=
  letI tokens : Step (List Token) := by apply tokens
  do
    match ← next with
    | none => return []
    | some token => return token :: (← tokens)
partial_fixpoint

end Lexer

/-- The tokens of a source and the fault that ended them early, if one did; none if any
step is refused. -/
def scan (source : String) : Option (List Token × Option Diagnostic.Report) :=
  (Lexer.tokens.run (.ofSource source)).map fun (tokens, lexer) => (tokens, lexer.report)

end RubySyntax.Bytes
