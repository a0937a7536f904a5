import RubySyntax.Grammar.Expression
import RubySyntax.Lexer.Next

namespace RubySyntax

open Grammar (Parser Nest Level Cursor Scope)
open Diagnostic (ParseError)

namespace Grammar.Parser

/-- The grammar with this many levels of nesting left. -/
def nested : Nat → Nest
  | 0, _ => do fail .nestingTooDeep [toString (← read).limit]
  | depth + 1, level => atLevel (nested depth) level

def program (depth : Nat) : Parser Tree.Program := do
  discard advance
  statements (nested depth) []

end Grammar.Parser

structure Options where
  /-- The name that messages give to the source. -/
  fileName : String := "<input>"
  /-- How deep expressions may nest. -/
  maxDepth : Nat := 256

/-- The program of a list of tokens, under the fault that ended them if one did. -/
def parseTokens (tokens : List Token) (fault : Option Diagnostic.Report) (maxDepth : Nat) :
    Except ParseError Tree.Program :=
  let start : Cursor :=
    { token := { kind := .endOfFile, text := "", span := .emptyAt 0 }, rest := tokens }
  (Parser.program maxDepth { limit := maxDepth, fault } start).map Prod.fst

/-- The program of a source, or its first fault and the place of it. -/
def parse (source : String) (options : Options := {}) : Except ParseError Tree.Program :=
  let (tokens, fault) := scan source
  (parseTokens tokens fault options.maxDepth).mapError fun error =>
    error.inFile options.fileName (.ofSource source)

/-- The programs of independent sources, in their order. -/
def parseAll (sources : List String) : List (Except ParseError Tree.Program) :=
  sources.map fun source => parse source

end RubySyntax
