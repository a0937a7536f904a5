import RubySyntax.Diagnostic.Report
import RubySyntax.Lexeme.Read
import RubySyntax.Scanner.Basic

/-! The state of reading tokens. Everything that decides the next token is the
text ahead, the kind of the previous token, the white space seen since, and the
heredoc bodies that are read ahead but not yet passed. -/
namespace RubySyntax

structure Lexer where
  scanner : Scanner
  /-- The kind of the previous token. -/
  last : Option Token.Kind := none
  /-- The bodies read ahead for the current line. -/
  pending : Option Lexeme.Pending := none
  /-- The white space since the previous token. -/
  spacing : Token.Spacing := .unspaced
  /-- The fault behind a terminal token of unknown kind. -/
  report : Option Diagnostic.Report := none

namespace Lexer

open Text (isSpace isBlank isLineBreak)

def ofSource (source : String) : Lexer := { scanner := .ofSource source }

/-- A terminal token has been read, and no other follows. -/
def halted (lexer : Lexer) : Bool := lexer.last.any Token.Kind.isTerminal

/-- The fault that ended the tokens; it is handed out once. -/
def takeReport (lexer : Lexer) : Option Diagnostic.Report × Lexer :=
  (lexer.report, { lexer with report := none })

def context (lexer : Lexer) : Lexeme.Context := ⟨lexer.last, lexer.spacing.isSpacedBefore⟩

/-- Moves over `count` characters that belong to no token. -/
def skip (lexer : Lexer) (count : Nat) : Lexer :=
  { lexer with scanner := (lexer.scanner.skip count).ignore }

/-- Passes over the bodies read ahead once the line feed at `lineEnd` is read. -/
def resumeAfter (lexer : Lexer) (lineEnd : Nat) : Lexer :=
  match lexer.pending with
  | none => lexer
  | some pending =>
    if pending.lineEnd = lineEnd then
      { lexer.skip (lexer.scanner.ahead.length - pending.rest.length) with pending := none }
    else lexer

/-- Reads the line feed ahead and passes over the bodies that follow its line. -/
def crossLineFeed (lexer : Lexer) : Lexer := (lexer.skip 1).resumeAfter lexer.scanner.offset

def atLineStart (lexer : Lexer) : Bool := lexer.scanner.behind.head?.all isLineBreak

/-- Gives a token the white space around it; what follows starts afresh. -/
def finish (lexer : Lexer) (token : Token) : Token × Lexer :=
  ({ token with
      spacing := { lexer.spacing with spaceAfter := lexer.scanner.peek.all isSpace } },
    { lexer with last := some token.kind, spacing := .unspaced })

/-- Cuts the characters of a lexeme; only its body lies between the mark and
the cursor. -/
def cut (lexer : Lexer) (lexeme : Lexeme) : Token × Lexer :=
  let opened := lexer.skip lexeme.opening.length
  let (token, scanner) :=
    (opened.scanner.skip lexeme.body.length).emitText lexeme.kind (String.ofList lexeme.text)
  ({ token with suffix := String.ofList lexeme.options },
    { opened with scanner }.skip (lexeme.closing ++ lexeme.options).length)

/-- Ends the tokens with one of unknown kind over the text of the fault. -/
def fail (lexer : Lexer) (fault : Lexeme.Fault) : Token × Lexer :=
  let opened := lexer.skip fault.opening.length
  let scanner := opened.scanner.skip fault.body.length
  let report := .raiseAt scanner.pendingSpan fault.message fault.args
  let (token, scanner) := scanner.emit .unknown
  (token, { opened with scanner, report := some report })

end Lexer

end RubySyntax
