import RubySyntax.Token.Keyword

namespace RubySyntax.Token

inductive LiteralKind
  | integer
  | float
  /-- Text in single quotes, or any other literal that is taken verbatim. -/
  | string
  /-- Text whose interpolated regions are delimited but not evaluated. -/
  | template
  | symbol
  | character
  | regex
  | subshell
  | wordList
deriving DecidableEq, Repr

/-- The public name and the number of a kind of literal. -/
def LiteralKind.entry : LiteralKind → String × Nat
  | integer => ("IntegerLiteral", 10)
  | float => ("FloatLiteral", 11)
  | string => ("StringLiteral", 12)
  | template => ("InterpolatedStringLiteral", 13)
  | symbol => ("SymbolLiteral", 14)
  | character => ("CharacterLiteral", 15)
  | regex => ("RegularExpressionLiteral", 16)
  | subshell => ("SubshellLiteral", 17)
  | wordList => ("WordListLiteral", 18)

def LiteralKind.all : List LiteralKind :=
  [integer, float, string, template, symbol, character, regex, subshell, wordList]

inductive Kind
  /-- The terminal token of a lexical fault. -/
  | unknown
  | endOfFile
  | newLine
  | semicolon
  | literal (kind : LiteralKind)
  | identifier
  | constant
  | instanceVariable
  | classVariable
  | globalVariable
  /-- A name with the colon that makes it a key. -/
  | label
  | punct (p : Punct)
  | keyword (k : Keyword)
deriving DecidableEq, Repr

instance : Coe Punct Kind := ⟨Kind.punct⟩

instance : Coe Keyword Kind := ⟨Kind.keyword⟩

namespace Kind

/-- The public name and the number of a kind. -/
def entry : Kind → String × Nat
  | unknown => ("Unknown", 0)
  | endOfFile => ("EndOfFileToken", 1)
  | newLine => ("NewLineToken", 2)
  | semicolon => ("SemicolonToken", 3)
  | literal kind => kind.entry
  | identifier => ("Identifier", 30)
  | constant => ("ConstantIdentifier", 31)
  | instanceVariable => ("InstanceVariable", 32)
  | classVariable => ("ClassVariable", 33)
  | globalVariable => ("GlobalVariable", 34)
  | label => ("Label", 35)
  | punct p => (p.row.name, p.row.number)
  | keyword k => (k.row.name, k.row.number)

def name (kind : Kind) : String := kind.entry.1

def number (kind : Kind) : Nat := kind.entry.2

/-- Every kind, by ascending number. -/
def all : List Kind :=
  [unknown, endOfFile, newLine, semicolon] ++ LiteralKind.all.map literal ++
    [identifier, constant, instanceVariable, classVariable, globalVariable, label] ++
    Punct.all.map punct ++ Keyword.all.map keyword

def ofName? (name : String) : Option Kind := all.find? fun kind => kind.name == name

def isKeyword : Kind → Bool
  | keyword _ => true
  | _ => false

/-- A semicolon separates statements and does not count as punctuation. -/
def isPunct : Kind → Bool
  | punct _ => true
  | _ => false

def isLiteral : Kind → Bool
  | literal _ => true
  | _ => false

def isAssignment : Kind → Bool
  | punct p => p.isAssignment
  | _ => false

def isCompoundAssignment : Kind → Bool
  | punct p => p.isCompoundAssignment
  | _ => false

/-- Line breaks and semicolons separate statements. -/
def isSeparator : Kind → Bool
  | newLine | semicolon => true
  | _ => false

/-- Nothing follows a token of such a kind. -/
def isTerminal : Kind → Bool
  | endOfFile | unknown => true
  | _ => false

/-- Whether a token of this kind ends an operand, so that what follows it is an
operator and does not open a literal. -/
def endsValue : Kind → Bool
  | literal _ | identifier | constant | instanceVariable | classVariable | globalVariable => true
  | punct p => p.isCloser
  | keyword k => k.endsValue
  | _ => false

def keywordText? : Kind → Option String
  | keyword k => some k.spelling
  | _ => none

def punctText? : Kind → Option String
  | punct p => some p.spelling
  | semicolon => some ";"
  | _ => none

/-- The fixed spelling of a keyword or of punctuation. -/
def spelling? (kind : Kind) : Option String := kind.keywordText? <|> kind.punctText?

/-- Whether the kind may name a method after a dot, in a definition or in an
alias. -/
def isMethodName : Kind → Bool
  | identifier | constant | keyword _ => true
  | punct p => p.isMethodName
  | _ => false

end Kind

end RubySyntax.Token
