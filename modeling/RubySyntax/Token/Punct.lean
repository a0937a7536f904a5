/-! Punctuation and operators. Each has one spelling, and the input is read as
the longest spelling it begins with. -/
namespace RubySyntax.Token

/-- What is fixed about a kind of token: its public name, its spelling, and its
number in the list of all kinds. -/
structure KindRow where
  name : String
  spelling : String
  number : Nat

inductive Punct
  | openBrace
  | closeBrace
  | openParen
  | closeParen
  | openBracket
  | closeBracket
  | dot
  | safeDot
  | range
  | exclusiveRange
  | comma
  | colon
  | scope
  | question
  | hashArrow
  | lambdaArrow
  | plus
  | minus
  | asterisk
  | power
  | slash
  | percent
  | less
  | greater
  | lessEqual
  | greaterEqual
  | compare
  | equal
  | caseEqual
  | notEqual
  | matching
  | notMatching
  | andAnd
  | orOr
  | ampersand
  | bar
  | caret
  | shiftLeft
  | shiftRight
  | bang
  | tilde
  | assign
  | plusAssign
  | minusAssign
  | timesAssign
  | divideAssign
  | moduloAssign
  | powerAssign
  | shiftLeftAssign
  | shiftRightAssign
  | ampersandAssign
  | barAssign
  | caretAssign
  | andAssign
  | orAssign
deriving DecidableEq, Repr

namespace Punct

def row : Punct → KindRow
  | openBrace => ⟨"OpenBraceToken", "\x7b", 50⟩
  | closeBrace => ⟨"CloseBraceToken", "\x7d", 51⟩
  | openParen => ⟨"OpenParenToken", "(", 52⟩
  | closeParen => ⟨"CloseParenToken", ")", 53⟩
  | openBracket => ⟨"OpenBracketToken", "[", 54⟩
  | closeBracket => ⟨"CloseBracketToken", "]", 55⟩
  | dot => ⟨"DotToken", ".", 56⟩
  | safeDot => ⟨"AmpersandDotToken", "&.", 57⟩
  | range => ⟨"DotDotToken", "..", 58⟩
  | exclusiveRange => ⟨"DotDotDotToken", "...", 59⟩
  | comma => ⟨"CommaToken", ",", 60⟩
  | colon => ⟨"ColonToken", ":", 61⟩
  | scope => ⟨"ColonColonToken", "::", 62⟩
  | question => ⟨"QuestionToken", "?", 63⟩
  | hashArrow => ⟨"EqualsGreaterThanToken", "=>", 64⟩
  | lambdaArrow => ⟨"MinusGreaterThanToken", "->", 65⟩
  | plus => ⟨"PlusToken", "+", 70⟩
  | minus => ⟨"MinusToken", "-", 71⟩
  | asterisk => ⟨"AsteriskToken", "*", 72⟩
  | power => ⟨"AsteriskAsteriskToken", "**", 73⟩
  | slash => ⟨"SlashToken", "/", 74⟩
  | percent => ⟨"PercentToken", "%", 75⟩
  | less => ⟨"LessThanToken", "<", 76⟩
  | greater => ⟨"GreaterThanToken", ">", 77⟩
  | lessEqual => ⟨"LessThanEqualsToken", "<=", 78⟩
  | greaterEqual => ⟨"GreaterThanEqualsToken", ">=", 79⟩
  | compare => ⟨"LessThanEqualsGreaterThanToken", "<=>", 80⟩
  | equal => ⟨"EqualsEqualsToken", "==", 81⟩
  | caseEqual => ⟨"EqualsEqualsEqualsToken", "===", 82⟩
  | notEqual => ⟨"ExclamationEqualsToken", "!=", 83⟩
  | matching => ⟨"EqualsTildeToken", "=~", 84⟩
  | notMatching => ⟨"ExclamationTildeToken", "!~", 85⟩
  | andAnd => ⟨"AmpersandAmpersandToken", "&&", 86⟩
  | orOr => ⟨"BarBarToken", "||", 87⟩
  | ampersand => ⟨"AmpersandToken", "&", 88⟩
  | bar => ⟨"BarToken", "|", 89⟩
  | caret => ⟨"CaretToken", "^", 90⟩
  | shiftLeft => ⟨"LessThanLessThanToken", "<<", 91⟩
  | shiftRight => ⟨"GreaterThanGreaterThanToken", ">>", 92⟩
  | bang => ⟨"ExclamationToken", "!", 93⟩
  | tilde => ⟨"TildeToken", "~", 94⟩
  | assign => ⟨"EqualsToken", "=", 100⟩
  | plusAssign => ⟨"PlusEqualsToken", "+=", 101⟩
  | minusAssign => ⟨"MinusEqualsToken", "-=", 102⟩
  | timesAssign => ⟨"AsteriskEqualsToken", "*=", 103⟩
  | divideAssign => ⟨"SlashEqualsToken", "/=", 104⟩
  | moduloAssign => ⟨"PercentEqualsToken", "%=", 105⟩
  | powerAssign => ⟨"AsteriskAsteriskEqualsToken", "**=", 106⟩
  | shiftLeftAssign => ⟨"LessThanLessThanEqualsToken", "<<=", 107⟩
  | shiftRightAssign => ⟨"GreaterThanGreaterThanEqualsToken", ">>=", 108⟩
  | ampersandAssign => ⟨"AmpersandEqualsToken", "&=", 109⟩
  | barAssign => ⟨"BarEqualsToken", "|=", 110⟩
  | caretAssign => ⟨"CaretEqualsToken", "^=", 111⟩
  | andAssign => ⟨"AmpersandAmpersandEqualsToken", "&&=", 112⟩
  | orAssign => ⟨"BarBarEqualsToken", "||=", 113⟩

def spelling (p : Punct) : String := p.row.spelling

/-- Every kind, by ascending number. -/
def all : List Punct :=
  [openBrace, closeBrace, openParen, closeParen, openBracket, closeBracket, dot, safeDot, range,
   exclusiveRange, comma, colon, scope, question, hashArrow, lambdaArrow, plus, minus, asterisk,
   power, slash, percent, less, greater, lessEqual, greaterEqual, compare, equal, caseEqual,
   notEqual, matching, notMatching, andAnd, orOr, ampersand, bar, caret, shiftLeft, shiftRight,
   bang, tilde, assign, plusAssign, minusAssign, timesAssign, divideAssign, moduloAssign,
   powerAssign, shiftLeftAssign, shiftRightAssign, ampersandAssign, barAssign, caretAssign,
   andAssign, orAssign]

/-- The operators that assign, plain or compound. -/
def isAssignment : Punct → Bool
  | assign | plusAssign | minusAssign | timesAssign | divideAssign | moduloAssign | powerAssign |
    shiftLeftAssign | shiftRightAssign | ampersandAssign | barAssign | caretAssign | andAssign |
    orAssign => true
  | _ => false

/-- The assignments that stand for an operator call; `=` and the conditional
assignment have nodes of their own. -/
def isCompoundAssignment (p : Punct) : Bool :=
  p.isAssignment && !(p == assign || p == orAssign)

def isMethodName : Punct → Bool
  | plus | minus | asterisk | power | slash | percent | less | greater | lessEqual |
    greaterEqual | compare | equal | caseEqual | notEqual | matching | notMatching | ampersand |
    bar | caret | shiftLeft | shiftRight | bang | tilde => true
  | _ => false

/-- The brackets that close a value. -/
def isCloser : Punct → Bool
  | closeParen | closeBracket | closeBrace => true
  | _ => false

/-- Every kind, longer spellings first. -/
def longestFirst : List Punct :=
  all.filter (fun p => p.spelling.length == 3) ++
    all.filter (fun p => p.spelling.length == 2) ++
    all.filter (fun p => p.spelling.length == 1)

/-- The longest spelling that the input begins with. -/
def read? (input : List Char) : Option Punct :=
  longestFirst.find? fun p => p.spelling.toList.isPrefixOf input

theorem mem_all (p : Punct) : p ∈ all := by cases p <;> decide

end Punct

end RubySyntax.Token
