import RubySyntax.Grammar.Control

namespace RubySyntax.Grammar.Parser

open RubySyntax.Tree (Node MethodParam)
open Token (Kind Punct Keyword)

/-- Adds an equals sign that touches the name: the name is then a setter's. -/
def finishMethodName (name : String) : Parser String := do
  if (← isAtGlued Punct.assign) && !endsWithMark name then
    discard advance
    return name ++ "="
  return name

def methodName : Parser String := do
  let kind ← kind
  if kind == .punct .openBracket then
    discard advance
    discard (expect Punct.closeBracket)
    return ← finishMethodName "[]"
  unless kind.isMethodName do failAt .methodNameExpected
  let name := (← advance).text
  if kind.isPunct then return name
  finishMethodName name

/-- The object that a method is defined on, if one stands before a dot, and the
name of the method. -/
def methodHead : Parser (Option Node × String) := do
  let kind ← kind
  unless kind == .keyword .selfKw || kind == .identifier || kind == .constant do
    return (none, ← methodName)
  let name := (← advance).text
  unless ← eatGlued Punct.dot do return (none, ← finishMethodName name)
  let target := if kind == .keyword .selfKw then .selfReference else .reference name
  return (some target, ← methodName)

/-- The default of a keyword parameter, if one follows its label. -/
def labelDefault (nest : Nest) : Parser (Option Node) := do
  let kind ← kind
  if kind == .punct .comma || kind == .punct .closeParen || kind.isSeparator then return none
  some <$> nest .ternary

def assignedDefault (nest : Nest) : Parser (Option Node) := do
  unless ← eat Punct.assign do return none
  skipNewLines
  some <$> nest .ternary

def parameterName : Parser String := do
  unless ← isAt .identifier do failAt .parameterNameExpected
  return (← advance).text

/-- A parameter: a splat, a block, a keyword, or a name. -/
def param (nest : Nest) : Parser (MethodParam Node) := do
  match ← kind with
  | .punct .asterisk =>
    discard advance
    return ⟨← parameterName, .splat⟩
  | .punct .ampersand =>
    discard advance
    return ⟨← parameterName, .block⟩
  | .label =>
    let name := (← advance).text
    return ⟨name, .single (← labelDefault nest)⟩
  | _ =>
    let name ← parameterName
    return ⟨name, .single (← assignedDefault nest)⟩

/-- The parameters of a method, in parentheses or up to the end of the line. -/
def params (nest : Nest) : Parser (List (MethodParam Node)) := do
  match ← kind with
  | .punct .openParen =>
    discard advance
    let params ← list do
      skipNewLines
      if ← isAt Punct.closeParen then return .stop
      let param ← param nest
      skipNewLines
      if ← eatComma then return .more param
      return .last param
    discard (expect Punct.closeParen)
    return params
  | .identifier | .label | .punct .asterisk | .punct .ampersand => commaSeparated (param nest)
  | _ => return []

/-- A method definition. An `else` behind its rescue clauses makes the body a
guarded one. -/
def method (nest : Nest) : Parser Node := do
  discard advance
  let (target?, name) ← methodHead
  let params ← params nest
  let body ← statements nest guardedEnd
  let rescues ← rescueClauses nest
  if ← eat Keyword.elseKw then
    let otherwise ← statements nest bodyEnd
    discard (expect Keyword.endKw)
    return .method target? name params [.guarded body rescues otherwise] []
  discard (expect Keyword.endKw)
  return .method target? name params body rescues

def declarationBody (nest : Nest) : Parser (List Node) := do
  let body ← statements nest bodyEnd
  discard (expect Keyword.endKw)
  return body

/-- The path behind the sign that names the class inherited from. -/
def superclass : Parser (Option Tree.ConstantPath) := do
  unless ← eat Punct.less do return none
  unless ← atConstantPath do failAt .superclassNotConstant
  some <$> constantPath

/-- A class, or the singleton class of an object. -/
def classDecl (nest : Nest) : Parser Node := do
  discard advance
  if ← eat Punct.shiftLeft then
    let target ← nest .expression
    return .singletonClass target (← declarationBody nest)
  unless ← atConstantPath do failAt .classNameNotConstant
  let path ← constantPath
  let superclass? ← superclass
  return .classDecl path superclass? (← declarationBody nest)

def moduleDecl (nest : Nest) : Parser Node := do
  discard advance
  unless ← atConstantPath do failAt .moduleNameNotConstant
  let path ← constantPath
  return .moduleDecl path (← declarationBody nest)

/-- A name in an alias: a method name, a symbol or a global variable. -/
def aliasName : Parser String := do
  let kind ← kind
  unless kind.isMethodName || kind == .literal .symbol || kind == .globalVariable do
    failAt .aliasNameExpected
  return (← advance).text

def aliasDecl : Parser Node := do
  discard advance
  let name ← aliasName
  return .aliasDecl name (← aliasName)

end RubySyntax.Grammar.Parser
