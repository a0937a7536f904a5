import RubySyntax.Lexeme.Basic
import RubySyntax.Text.Trim
import RubySyntax.Text.Span

/-! Heredocs. The body stands on the lines after the one that opens it; the
bodies of several heredocs opened on one line follow each other. -/
namespace RubySyntax.Lexeme

open Text

/-- A body that has been read ahead: where the line that opened it ends, and
where the text goes on behind the body. -/
structure Pending where
  /-- The offset of the line feed that ends the opening line. -/
  lineEnd : Nat
  /-- The offset just after the terminator's line. -/
  resume : Nat
  /-- The text from there on. -/
  rest : List Char
deriving DecidableEq, Repr

/-- What stands between two less-than signs and the body. -/
structure HeredocOpener where
  /-- The signs, the marks and the name, quotes included. -/
  chars : List Char
  name : List Char
  kind : Token.LiteralKind
  /-- The terminator may be indented. -/
  indented : Bool
  /-- The common indentation of the body is taken away. -/
  squiggly : Bool
deriving DecidableEq, Repr

def isHeredocMark (c : Char) : Bool := c == '-' || c == '~'

/-- Whether two less-than signs open a heredoc. In an argument of a command the
name has to be quoted, marked, or the name of a constant. -/
def heredocFollows (context : Context) (input : List Char) : Bool :=
  match input with
  | '<' :: '<' :: after =>
    let marked := after.head?.any isHeredocMark
    (context.expectsOperand || context.isCommandArgument input) &&
      (after.dropWhile isHeredocMark).head?.any fun c =>
        c == '\'' || c == '"' ||
          (isIdentifierStart c && (context.expectsOperand || marked || isConstantStart c))
  | _ => false

/-- Reads the opener of a heredoc; a quoted name has to be closed on its line. -/
def heredocOpener (input : List Char) : Except Fault HeredocOpener :=
  let mark := (input.drop 2).take 1 |>.filter isHeredocMark
  let signs := ['<', '<'] ++ mark
  let squiggly := mark == ['~']
  let indented := !mark.isEmpty
  let rest := input.drop signs.length
  match rest with
  | quote :: tail =>
    if quote = '\'' || quote = '"' then
      let name := tail.takeWhile fun c => c != quote && !isLineBreak c
      if (tail.drop name.length).head? == some quote then
        let kind := if quote = '\'' then .string else .template
        .ok { chars := signs ++ quote :: name ++ [quote], name, kind, indented, squiggly }
      else .error { body := signs ++ quote :: name, message := .unterminatedString }
    else
      let name := rest.takeWhile isIdentifierPart
      .ok { chars := signs ++ name, name, kind := .template, indented, squiggly }
  | [] => .ok { chars := signs, name := [], kind := .template, indented, squiggly }

/-- Whether a line is the terminator: its name, with white space behind it and,
where the terminator may be indented, in front of it. -/
def isTerminator (name : List Char) (indented : Bool) (line : List Char) : Bool :=
  let line := trimEnd line
  (if indented then trimStart line else line) == name

/-- The lines before the first terminator, joined, and the text after its line.
No line terminates a heredoc without a name. -/
def heredocBody (name : List Char) (indented : Bool) (text : List Char) :
    Option (List Char × List Char) :=
  if name.isEmpty then none
  else
    let lines := splitLines text
    let body := lines.takeWhile fun line => !isTerminator name indented line
    match lines.drop body.length with
    | [] => none
    | _ :: after => some (joinLines body, joinLines after)

/-- A line without the carriage return of its line break. -/
def dropReturn (line : List Char) : List Char :=
  if line.getLast? == some '\r' then line.dropLast else line

/-- The lines of a body. A carriage return before a line feed belongs to the
break, and nothing follows a final line feed. -/
def bodyLines (body : List Char) : List (List Char) :=
  let lines := splitLines body
  let broken := lines.dropLast.map dropReturn
  match lines.getLast? with
  | none | some [] => broken
  | some last => broken ++ [last]

/-- How many bytes of white space a line begins with. -/
def indentation (line : List Char) : Nat := byteLength (line.takeWhile isWhiteSpace)

/-- The text without its first `count` bytes, if they end between characters. -/
def dropBytes? : Nat → List Char → Option (List Char)
  | 0, text => some text
  | _ + 1, [] => none
  | count + 1, c :: text =>
    if c.utf8Size ≤ count + 1 then dropBytes? (count + 1 - c.utf8Size) text else none

/-- Takes `count` bytes from the front of a line, or all its leading white space
if those bytes do not end between two characters. -/
def outdent (count : Nat) (line : List Char) : List Char :=
  (dropBytes? count line).getD (trimStart line)

/-- Takes from each line the least indentation of those that are not blank. -/
def dedent (body : List Char) : List Char :=
  let lines := bodyLines body
  let indentations := (lines.filter fun line => !isWhite line).map indentation
  joinLines (lines.map (outdent (indentations.min?.getD 0)))

/-- Reads a heredoc that opens at `offset`. Its body follows the bodies already
read ahead for the line, or else the line itself. -/
def heredoc (offset : Nat) (pending : Option Pending) (input : List Char) :
    Except Fault (Lexeme × Pending) :=
  (heredocOpener input).bind fun opener =>
    let toLineEnd := input.takeWhile fun c => !isLineBreak c
    let start := pending.getD
      { lineEnd := offset + byteLength toLineEnd
        resume := offset + byteLength toLineEnd + 1
        rest := input.drop (toLineEnd.length + 1) }
    match heredocBody opener.name opener.indented start.rest with
    | none =>
      .error { body := opener.chars, message := .unterminatedHeredoc
               args := [String.ofList opener.name] }
    | some (body, rest) =>
      .ok ({ kind := .literal opener.kind, body := opener.chars
             text := if opener.squiggly then dedent body else body },
        { start with
          resume := start.resume + (byteLength start.rest - byteLength rest), rest })

end RubySyntax.Lexeme
