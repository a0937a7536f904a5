import RubySyntax.Unicode.IdentifierStart
import RubySyntax.Unicode.IdentifierContinue
import RubySyntax.Unicode.Uppercase

/-! Character classes of the lexical grammar. ASCII is decided by its own
classes, other characters by the Unicode tables; every character that begins an
identifier also continues one. -/
namespace RubySyntax.Text

/-- Whether one of the closed ranges holds the code point of `c`. -/
def inRanges (ranges : List (Nat × Nat)) (c : Char) : Bool :=
  ranges.any fun range => range.1 ≤ c.toNat && c.toNat ≤ range.2

def isAscii (c : Char) : Bool := c.toNat < 0x80

def isLineBreak (c : Char) : Bool := c == '\n'

/-- White space within a line. A carriage return counts, so that lines may end
with or without one. -/
def isBlank (c : Char) : Bool :=
  [' ', '\t', '\r', '\x0b', '\x0c', '\u00a0', '\ufeff'].contains c

/-- White space within a line or between lines. -/
def isSpace (c : Char) : Bool := isBlank c || isLineBreak c

/-- A decimal digit of ASCII. -/
def isDigit (c : Char) : Bool := c.isDigit

/-- Digits of a numeric literal may be set apart by underscores. -/
def isDigitOrSeparator (c : Char) : Bool := isDigit c || c == '_'

def isIdentifierStart (c : Char) : Bool :=
  c == '_' || c.isAlpha || (!isAscii c && inRanges Unicode.identifierStart c)

def isIdentifierPart (c : Char) : Bool :=
  isIdentifierStart c || c.isDigit || (!isAscii c && inRanges Unicode.identifierExtend c)

/-- A name that begins with such a character is the name of a constant. -/
def isConstantStart (c : Char) : Bool :=
  c.isUpper || (!isAscii c && inRanges Unicode.uppercase c)

/-- Identifier starts that are letters: not the underscore, and not the two
symbols ℘ and ℮ that only begin identifiers for the sake of older tables. -/
def isLetter (c : Char) : Bool :=
  isIdentifierStart c && !(c == '_' || c == '\u2118' || c == '\u212e')

/-- The visible characters of ASCII. -/
def isPrintable (c : Char) : Bool := '!' ≤ c && c ≤ '~'

/-- The delimiter that closes a percent literal. Brackets pair up, three other
characters close what they open. -/
def closingDelimiter : Char → Option Char
  | '(' => some ')'
  | '[' => some ']'
  | '{' => some '}'
  | '<' => some '>'
  | '|' => some '|'
  | '!' => some '!'
  | '/' => some '/'
  | _ => none

/-- Characters that name a special global variable on their own. -/
def specialGlobals : List Char := "!@&`'+~=/\\,;.<>_*$?:\"0".toList

def regexOptions : List Char := "imxounse".toList

theorem isIdentifierPart_of_start {c : Char} (start : isIdentifierStart c = true) :
    isIdentifierPart c = true := by
  simp [isIdentifierPart, start]

theorem isSpace_of_isBlank {c : Char} (blank : isBlank c = true) : isSpace c = true := by
  simp [isSpace, blank]

end RubySyntax.Text
