import RubySyntax.Diagnostic.Message
import RubySyntax.Text.Lines

/-! A raised fault: its filled-in message and where it was met. A failed
reading carries exactly one, and there is no partial result beside it. -/
namespace RubySyntax.Diagnostic

open Text (Span Position LineMap)

structure Report where
  file : Option String := none
  span : Option Span := none
  /-- Line and column of the start of the span, once it is resolved in a file. -/
  location : Option Position := none
  text : String
  code : Nat
deriving DecidableEq, Repr

namespace Report

/-- A fault without a place. -/
def raise (message : Message) (args : List String) : Report :=
  { text := fill message.template args, code := message.code }

def raiseAt (span : Span) (message : Message) (args : List String) : Report :=
  { raise message args with span := some span }

/-- Names the file and resolves the span to a line and a column. -/
def inFile (report : Report) (file : String) (map : LineMap) : Report :=
  { report with
    file := some file
    location := report.span.map fun span => map.locate span.start }

def isLexical (report : Report) : Bool := isLexicalCode report.code

/-- The place as it stands in front of the message: line and column where they
are known, else the offset, else the file alone. -/
def place (report : Report) : String :=
  match report.file with
  | none => ""
  | some file =>
    match report.location, report.span with
    | some location, _ => s!"{file}:{location.render}: "
    | none, some span => s!"{file}({span.start}): "
    | none, none => s!"{file}: "

def render (report : Report) : String :=
  s!"{report.place}error RB{report.code}: {report.text}"

end Report

/-- The single fault of a failed reading, of the lexical grammar or of the
phrase grammar. -/
inductive ParseError
  | lexical (report : Report)
  | grammatical (report : Report)
deriving DecidableEq, Repr

namespace ParseError

/-- Sorts a report by its number. -/
def ofReport (report : Report) : ParseError :=
  if report.isLexical then .lexical report else .grammatical report

def report : ParseError → Report
  | lexical report => report
  | grammatical report => report

def isLexical : ParseError → Bool
  | lexical _ => true
  | grammatical _ => false

def render (error : ParseError) : String := error.report.render

def inFile (error : ParseError) (file : String) (map : LineMap) : ParseError :=
  match error with
  | lexical report => .lexical (report.inFile file map)
  | grammatical report => .grammatical (report.inFile file map)

end ParseError

end RubySyntax.Diagnostic
