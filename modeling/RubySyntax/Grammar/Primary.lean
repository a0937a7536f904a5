import RubySyntax.Grammar.Declaration
import RubySyntax.Grammar.Literal

namespace RubySyntax.Grammar.Parser

open RubySyntax.Tree (Node HashPair)
open Token (Kind Punct Keyword)

def group (nest : Nest) : Parser Node := do
  discard advance
  let body ← withNoDo false (statements nest [.punct .closeParen])
  discard (expect Punct.closeParen)
  return .group body

/-- A key and its value, the key a label or in front of an arrow. -/
def hashPair (nest : Nest) : Parser (HashPair Node) := do
  if ← isAt .label then
    let name := (← advance).text
    return ← keyedValue nest (.symbol name)
  let key ← nest .expression
  skipNewLines
  discard (expect Punct.hashArrow)
  keyedValue nest key

def hash (nest : Nest) : Parser Node := do
  discard advance
  let pairs ← withNoDo false <| list do
    skipNewLines
    if ← isAt Punct.closeBrace then return .stop
    let pair ← hashPair nest
    skipNewLines
    if ← eat Punct.comma then return .more pair
    return .last pair
  discard (expect Punct.closeBrace)
  return .hash pairs

def array (nest : Nest) : Parser Node := do
  discard advance
  return .array (← closedArguments nest .closeBracket)

/-- An expression that begins with punctuation. -/
def punctuated (nest : Nest) (p : Punct) : Parser Node :=
  match p with
  | .scope => constant nest
  | .openParen => group nest
  | .openBracket => array nest
  | .openBrace => hash nest
  | .lambdaArrow => arrowLambda nest
  | _ => failAt .expressionExpected

/-- An expression that begins with a reserved word. -/
def worded (nest : Nest) (k : Keyword) : Parser Node :=
  match k with
  | .trueKw => leaf (.boolean true)
  | .falseKw => leaf (.boolean false)
  | .nilKw => leaf .null
  | .selfKw => leaf .selfReference
  | .fileKw => leaf .fileName
  | .lineKw => leaf .lineNumber
  | .retryKw => jump .retry
  | .breakKw => jump .breakOut
  | .nextKw => jump .next
  | .ifKw | .unlessKw => conditional nest
  | .whileKw | .untilKw => loop nest
  | .caseKw => switch nest
  | .beginKw => guarded nest
  | .defKw => method nest
  | .classKw => classDecl nest
  | .moduleKw => moduleDecl nest
  | .aliasKw => aliasDecl
  | .returnKw => handBack nest
  | .yieldKw => handOver nest
  | _ => failAt .expressionExpected

def primary (nest : Nest) : Parser Node := do
  match ← kind with
  | .literal kind => literal kind
  | .instanceVariable => return .instanceVariable (withoutSigil '@' (← advance).text)
  | .classVariable => return .classVariable (withoutSigil '@' (← advance).text)
  | .globalVariable => return .globalVariable (String.ofList ((← advance).text.toList.drop 1))
  | .identifier => identifier nest
  | .constant => constant nest
  | .punct p => punctuated nest p
  | .keyword k => worded nest k
  | _ => failAt .expressionExpected

end RubySyntax.Grammar.Parser
