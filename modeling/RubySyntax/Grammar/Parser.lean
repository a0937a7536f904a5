import RubySyntax.Diagnostic.Report
import RubySyntax.Token.Basic

/-! Reading a list of tokens. A parser holds one token and sees the list behind
it; it fails at the first fault, and a token of unknown kind is a fault as soon
as it would become the current one. -/
namespace RubySyntax.Grammar

open Token (Kind Punct Keyword)
open Diagnostic (Message Report ParseError)

/-- What the surroundings say to a parser. -/
structure Scope where
  /-- How many levels of nesting the whole reading may use. -/
  limit : Nat
  /-- The lexical fault behind a terminal token of unknown kind. -/
  fault : Option Report := none
  /-- A `do` belongs to an enclosing loop or command, and opens no block here. -/
  noDo : Bool := false

/-- The current token and those behind it. -/
structure Cursor where
  token : Token
  rest : List Token
  /-- How many tokens are behind the current one; every loop runs down on it. -/
  remaining : Nat := rest.length
  remaining_eq : remaining = rest.length := by rfl

def Cursor.next? (cursor : Cursor) : Option Cursor :=
  match found : cursor.rest with
  | [] => none
  | token :: rest =>
    some { token, rest, remaining := cursor.remaining - 1
           remaining_eq := by simp [cursor.remaining_eq, found] }

abbrev Parser (α : Type) := ReaderT Scope (StateT Cursor (Except ParseError)) α

namespace Parser

def current : Parser Token := return (← get).token

def kind : Parser Kind := return (← current).kind

def isAt (kind : Kind) : Parser Bool := return (← current).kind == kind

/-- The current token is of this kind and touches the one before it. -/
def isAtGlued (kind : Kind) : Parser Bool := do
  let token ← current
  return token.kind == kind && !token.spacing.isSpacedBefore

def nextKind : Parser (Option Kind) := return (← get).rest.head?.map Token.kind

/-- Whether a `do` belongs to an enclosing construct. -/
def noDo : Parser Bool := return (← read).noDo

def fail (message : Message) (args : List String := []) : Parser α := do
  throw (.grammatical (.raiseAt (← current).span message args))

/-- Fails with a message about the current token. -/
def failAt (message : Message) : Parser α := do fail message [(← current).display]

def unexpected : Parser α := failAt .unexpectedToken

/-- Moves to the next token and hands back the one left behind. -/
def advance : Parser Token := do
  let cursor ← get
  match cursor.next? with
  | none => return cursor.token
  | some next =>
    let token := next.token
    if token.kind == .unknown then
      let fault := (← read).fault.getD (.raiseAt token.span .unexpectedCharacter [token.text])
      throw (.lexical fault)
    set next
    return cursor.token

/-- Moves on if the current token is of this kind. -/
def eat (kind : Kind) : Parser Bool := do
  if ← isAt kind then
    discard advance
    return true
  return false

/-- Moves on if the current token is of this kind and touches the one before it. -/
def eatGlued (kind : Kind) : Parser Bool := do
  if ← isAtGlued kind then
    discard advance
    return true
  return false

/-- Moves over a token of this kind, or fails. -/
def expect (kind : Kind) : Parser Token := do
  if ← isAt kind then advance
  else
    let expected := kind.spelling?.getD "token"
    if ← isAt .endOfFile then fail .unexpectedEnd [expected]
    fail .expectedButFound [expected, (← current).display]

/-- Runs a parser where a `do` opens a block, or where it does not. -/
def withNoDo (noDo : Bool) (parser : Parser α) : Parser α :=
  withReader (fun scope => { scope with noDo }) parser

/-- What one step of a list reads: nothing, its last element, or an element
that others may follow. -/
inductive Item (α : Type)
  | stop
  | last (value : α)
  | more (value : α)

/-- The elements that repeated steps read. A step that others follow moves on. -/
def list (step : Parser (Item α)) : Parser (List α) := fun scope cursor =>
  match step scope cursor with
  | .error error => .error error
  | .ok (.stop, cursor') => .ok ([], cursor')
  | .ok (.last value, cursor') => .ok ([value], cursor')
  | .ok (.more value, cursor') =>
    if cursor'.remaining < cursor.remaining then
      match list step scope cursor' with
      | .error error => .error error
      | .ok (values, cursor'') => .ok (value :: values, cursor'')
    else (unexpected : Parser (List α)) scope cursor'
termination_by _ cursor => cursor.remaining

/-- Builds a value up by repeated steps, each on what the ones before it built. -/
def chain (step : β → Parser (Option β)) (value : β) : Parser β := fun scope cursor =>
  match step value scope cursor with
  | .error error => .error error
  | .ok (none, cursor') => .ok (value, cursor')
  | .ok (some value', cursor') =>
    if cursor'.remaining < cursor.remaining then chain step value' scope cursor'
    else (unexpected : Parser β) scope cursor'
termination_by _ cursor => cursor.remaining

def skipWhile (holds : Kind → Bool) : Parser Unit :=
  chain (fun _ => do
    if holds (← kind) then
      discard advance
      return some ()
    return none) ()

def skipNewLines : Parser Unit := skipWhile (· == .newLine)

def skipSeparators : Parser Unit := skipWhile Kind.isSeparator

/-- A comma, and the line breaks behind it. -/
def eatComma : Parser Bool := do
  if ← eat Punct.comma then
    skipNewLines
    return true
  return false

def commaSeparated (element : Parser α) : Parser (List α) :=
  list do
    let value ← element
    if ← eatComma then return .more value
    return .last value

/-- The elements behind a first one, each after a comma. -/
def commaFollowed (element : Parser α) : Parser (List α) :=
  list do
    if ← eatComma then return .more (← element)
    return .stop

end Parser

end RubySyntax.Grammar
