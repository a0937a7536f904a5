import RubySyntax.Lexeme.Basic

/-! Delimited bodies. A body runs up to its closing delimiter; a backslash
takes the next character with it, bracket pairs nest, and an interpolated
region runs to its own closing brace with quoted texts inside it skipped. -/
namespace RubySyntax.Lexeme

open Text

/-- An unfinished body or region around the current character. -/
inductive Frame
  /-- A body that ends at `closer`; `depth` counts the open `opener`s in it. -/
  | body (opener : Option Char) (closer : Char) (interpolates : Bool) (depth : Nat)
  /-- An interpolated region; `depth` counts the braces open in it. -/
  | region (depth : Nat)
  /-- A regular expression; a slash in a character class does not close it. -/
  | regex (inClass : Bool)
deriving DecidableEq, Repr

/-- What a character does to the innermost frame. -/
inductive Move
  | stay (frame : Frame)
  | enter (inner : Frame)
  | leave

namespace Frame

/-- A quoted text, with interpolated regions unless the quote is single. -/
def quoted (quote : Char) : Frame := .body none quote (quote != '\'') 0

def interpolates : Frame → Bool
  | body _ _ interpolates _ => interpolates
  | region _ => false
  | regex _ => true

/-- A closing delimiter goes before an opening one; inside a region the three
quotes begin a quoted text. -/
def move (c : Char) : Frame → Move
  | body opener closer interpolates depth =>
    if c = closer then
      match depth with
      | 0 => .leave
      | depth + 1 => .stay (body opener closer interpolates depth)
    else if some c = opener then .stay (body opener closer interpolates (depth + 1))
    else .stay (body opener closer interpolates depth)
  | region depth =>
    if c = '{' then .stay (region (depth + 1))
    else if c = '}' then
      match depth with
      | 0 => .leave
      | depth + 1 => .stay (region depth)
    else if c = '"' || c = '\'' || c = '`' then .enter (quoted c)
    else .stay (region depth)
  | regex inClass =>
    if c = '[' then .stay (regex true)
    else if c = ']' then .stay (regex false)
    else if c = '/' && !inClass then .leave
    else .stay (regex inClass)

end Frame

/-- How many characters stand before the delimiter that ends the outermost
frame, if it comes, `width` of them in front of the input. -/
def bodyWidth (frame : Frame) (outer : List Frame) (width : Nat) (input : List Char) :
    Option Nat :=
  match input with
  | [] => none
  | c :: rest =>
    if c = '\\' then bodyWidth frame outer (width + 2) (rest.drop 1)
    else if frame.interpolates && c == '#' && rest.head? == some '{' then
      bodyWidth (.region 0) (frame :: outer) (width + 2) (rest.drop 1)
    else
      match frame.move c with
      | .stay next => bodyWidth next outer (width + 1) rest
      | .enter inner => bodyWidth inner (frame :: outer) (width + 1) rest
      | .leave =>
        match outer with
        | [] => some width
        | next :: outer => bodyWidth next outer (width + 1) rest
termination_by input.length
decreasing_by all_goals grind

/-- The body at the front of the input and its closing delimiter. -/
def delimited (frame : Frame) (input : List Char) : Option (List Char × List Char) :=
  (bodyWidth frame [] 0 input).map fun width => (input.take width, (input.drop width).take 1)

/-- A delimited literal behind its opening; where it is not closed, the fault
spans all that is left. -/
def literal (kind : Token.LiteralKind) (opening : List Char) (frame : Frame)
    (message : Diagnostic.Message) (args : List String) (input : List Char) : Reading :=
  match delimited frame input with
  | some (body, closing) => .ok { kind := .literal kind, opening, body, closing }
  | none => .error { opening, body := input, message, args }

/-- Adds the option letters that follow a regular expression in `input`. -/
def withOptions (input : List Char) (lexeme : Lexeme) : Lexeme :=
  { lexeme with
    options := (input.drop lexeme.chars.length).takeWhile fun c => regexOptions.contains c }

end RubySyntax.Lexeme
