import RubySyntax.Token.Punct

namespace RubySyntax.Token

inductive Keyword
  | aliasKw
  | andKw
  | beginKw
  | breakKw
  | caseKw
  | classKw
  | defKw
  | doKw
  | elseKw
  | elsifKw
  | endKw
  | ensureKw
  | falseKw
  | forKw
  | ifKw
  | inKw
  | moduleKw
  | nextKw
  | nilKw
  | notKw
  | orKw
  | redoKw
  | rescueKw
  | retryKw
  | returnKw
  | selfKw
  | thenKw
  | trueKw
  | unlessKw
  | untilKw
  | whenKw
  | whileKw
  | yieldKw
  | fileKw
  | lineKw
deriving DecidableEq, Repr

namespace Keyword

def row : Keyword → KindRow
  | aliasKw => ⟨"AliasKeyword", "alias", 150⟩
  | andKw => ⟨"AndKeyword", "and", 151⟩
  | beginKw => ⟨"BeginKeyword", "begin", 152⟩
  | breakKw => ⟨"BreakKeyword", "break", 153⟩
  | caseKw => ⟨"CaseKeyword", "case", 154⟩
  | classKw => ⟨"ClassKeyword", "class", 155⟩
  | defKw => ⟨"DefKeyword", "def", 156⟩
  | doKw => ⟨"DoKeyword", "do", 157⟩
  | elseKw => ⟨"ElseKeyword", "else", 158⟩
  | elsifKw => ⟨"ElsifKeyword", "elsif", 159⟩
  | endKw => ⟨"EndKeyword", "end", 160⟩
  | ensureKw => ⟨"EnsureKeyword", "ensure", 161⟩
  | falseKw => ⟨"FalseKeyword", "false", 162⟩
  | forKw => ⟨"ForKeyword", "for", 163⟩
  | ifKw => ⟨"IfKeyword", "if", 164⟩
  | inKw => ⟨"InKeyword", "in", 165⟩
  | moduleKw => ⟨"ModuleKeyword", "module", 166⟩
  | nextKw => ⟨"NextKeyword", "next", 167⟩
  | nilKw => ⟨"NilKeyword", "nil", 168⟩
  | notKw => ⟨"NotKeyword", "not", 169⟩
  | orKw => ⟨"OrKeyword", "or", 170⟩
  | redoKw => ⟨"RedoKeyword", "redo", 171⟩
  | rescueKw => ⟨"RescueKeyword", "rescue", 172⟩
  | retryKw => ⟨"RetryKeyword", "retry", 173⟩
  | returnKw => ⟨"ReturnKeyword", "return", 174⟩
  | selfKw => ⟨"SelfKeyword", "self", 175⟩
  | thenKw => ⟨"ThenKeyword", "then", 176⟩
  | trueKw => ⟨"TrueKeyword", "true", 177⟩
  | unlessKw => ⟨"UnlessKeyword", "unless", 178⟩
  | untilKw => ⟨"UntilKeyword", "until", 179⟩
  | whenKw => ⟨"WhenKeyword", "when", 180⟩
  | whileKw => ⟨"WhileKeyword", "while", 181⟩
  | yieldKw => ⟨"YieldKeyword", "yield", 182⟩
  | fileKw => ⟨"FileKeyword", "__FILE__", 183⟩
  | lineKw => ⟨"LineKeyword", "__LINE__", 184⟩

def spelling (k : Keyword) : String := k.row.spelling

/-- Every keyword, by ascending number. -/
def all : List Keyword :=
  [aliasKw, andKw, beginKw, breakKw, caseKw, classKw, defKw, doKw, elseKw, elsifKw, endKw,
   ensureKw, falseKw, forKw, ifKw, inKw, moduleKw, nextKw, nilKw, notKw, orKw, redoKw, rescueKw,
   retryKw, returnKw, selfKw, thenKw, trueKw, unlessKw, untilKw, whenKw, whileKw, yieldKw, fileKw,
   lineKw]

def ofSpelling? (text : String) : Option Keyword := all.find? fun k => k.spelling == text

/-- The keywords that stand for a value or close one. -/
def endsValue : Keyword → Bool
  | endKw | selfKw | trueKw | falseKw | nilKw | fileKw | lineKw => true
  | _ => false

theorem mem_all (k : Keyword) : k ∈ all := by cases k <;> decide

theorem ofSpelling?_spelling (k : Keyword) : ofSpelling? k.spelling = some k := by
  cases k <;> decide

end Keyword

end RubySyntax.Token
