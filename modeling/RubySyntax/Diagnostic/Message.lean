import RubySyntax.Diagnostic.Template

/-! The catalogue of faults. Each has a stable number and a template; numbers
below 1100 are faults of the lexical grammar, the others of the phrase grammar. -/
namespace RubySyntax.Diagnostic

inductive Message
  | unexpectedCharacter
  | unterminatedString
  | unterminatedHeredoc
  | unterminatedRegex
  | unterminatedPercentLiteral
  | unterminatedSubshell
  | unterminatedSymbol
  | invalidCharacterLiteral
  | invalidGlobalName
  | invalidVariableName
  | unknownPercentLiteral
  | unexpectedToken
  | expected
  | expectedButFound
  | expressionExpected
  | classNameNotConstant
  | moduleNameNotConstant
  | superclassNotConstant
  | cannotAssign
  | integerTooLarge
  | invalidNumber
  | methodNameExpected
  | parameterNameExpected
  | aliasNameExpected
  | exceptionClassExpected
  | multipleAssignmentWithoutEquals
  | takesNoValue
  | nestingTooDeep
  | unexpectedEnd
deriving DecidableEq, Repr

namespace Message

/-- The number and the template of a message. -/
def row : Message → Nat × String
  | unexpectedCharacter => (1001, "Unexpected character '\x7b0\x7d'.")
  | unterminatedString => (1002, "Unterminated string literal.")
  | unterminatedHeredoc => (1003, "Unterminated heredoc; terminator '\x7b0\x7d' not found.")
  | unterminatedRegex => (1004, "Unterminated regular expression literal.")
  | unterminatedPercentLiteral => (1005, "Unterminated percent literal; '\x7b0\x7d' expected.")
  | unterminatedSubshell => (1006, "Unterminated subshell command.")
  | unterminatedSymbol => (1007, "Unterminated symbol literal.")
  | invalidCharacterLiteral => (1008, "'?' must be followed by a printable character.")
  | invalidGlobalName => (1009, "'$' must be followed by a global variable name.")
  | invalidVariableName => (1010, "'\x7b0\x7d' must be followed by a variable name.")
  | unknownPercentLiteral => (1011, "Unknown type of percent literal '%\x7b0\x7d'.")
  | unexpectedToken => (1100, "Unexpected '\x7b0\x7d'.")
  | expected => (1101, "'\x7b0\x7d' expected.")
  | expectedButFound => (1102, "'\x7b0\x7d' expected, but found '\x7b1\x7d'.")
  | expressionExpected => (1103, "Expression expected, but found '\x7b0\x7d'.")
  | classNameNotConstant =>
    (1104, "Class name must begin with an uppercase letter, found '\x7b0\x7d'.")
  | moduleNameNotConstant =>
    (1105, "Module name must begin with an uppercase letter, found '\x7b0\x7d'.")
  | superclassNotConstant => (1106, "Superclass must be a constant, found '\x7b0\x7d'.")
  | cannotAssign => (1107, "Cannot assign to \x7b0\x7d.")
  | integerTooLarge => (1108, "Integer literal '\x7b0\x7d' is too large.")
  | invalidNumber => (1109, "Invalid numeric literal '\x7b0\x7d'.")
  | methodNameExpected => (1110, "Method name expected, but found '\x7b0\x7d'.")
  | parameterNameExpected => (1111, "Parameter name expected, but found '\x7b0\x7d'.")
  | aliasNameExpected =>
    (1112, "Method name or symbol expected after 'alias', but found '\x7b0\x7d'.")
  | exceptionClassExpected => (1113, "Exception class expected, but found '\x7b0\x7d'.")
  | multipleAssignmentWithoutEquals =>
    (1114, "A multiple assignment target list must be followed by '='.")
  | takesNoValue => (1115, "'\x7b0\x7d' does not take a value.")
  | nestingTooDeep => (1116, "Maximum nesting depth of \x7b0\x7d exceeded.")
  | unexpectedEnd => (1117, "Unexpected end of input; '\x7b0\x7d' expected.")

def code (message : Message) : Nat := message.row.1

def template (message : Message) : String := message.row.2

/-- Every message, by ascending number. -/
def all : List Message :=
  [unexpectedCharacter, unterminatedString, unterminatedHeredoc, unterminatedRegex,
   unterminatedPercentLiteral, unterminatedSubshell, unterminatedSymbol,
   invalidCharacterLiteral, invalidGlobalName, invalidVariableName, unknownPercentLiteral,
   unexpectedToken, expected, expectedButFound, expressionExpected, classNameNotConstant,
   moduleNameNotConstant, superclassNotConstant, cannotAssign, integerTooLarge, invalidNumber,
   methodNameExpected, parameterNameExpected, aliasNameExpected, exceptionClassExpected,
   multipleAssignmentWithoutEquals, takesNoValue, nestingTooDeep, unexpectedEnd]

def ofCode? (code : Nat) : Option Message := all.find? fun message => message.code == code

theorem mem_all (message : Message) : message ∈ all := by cases message <;> decide

theorem ofCode?_code (message : Message) : ofCode? message.code = some message := by
  cases message <;> decide

end Message

def isLexicalCode (code : Nat) : Bool := 1000 ≤ code && code < 1100

def Message.isLexical (message : Message) : Bool := isLexicalCode message.code

end RubySyntax.Diagnostic
