import RubySyntax.Grammar.Program

namespace RubySyntax.Conformance

open Diagnostic (ParseError)

inductive Expectation
  | accept
  | reject
deriving DecidableEq, Repr

structure Case where
  name : String
  category : String
  source : String
  expectation : Expectation

/-- A case and what became of its source. -/
structure Outcome where
  case : Case
  result : Except ParseError Tree.Program

namespace Outcome

def ofCase (case : Case) : Outcome := ⟨case, parse case.source⟩

/-- The source was read or refused, as the case expects. -/
def passed (outcome : Outcome) : Bool :=
  match outcome.case.expectation, outcome.result with
  | .accept, .ok _ => true
  | .reject, .error _ => true
  | _, _ => false

def describe (outcome : Outcome) : String :=
  match outcome.result with
  | .ok program => s!"parsed {program.length} statement(s)"
  | .error error => error.render

def failureLine (outcome : Outcome) : String :=
  s!"[{outcome.case.category}] {outcome.case.name}: {outcome.describe}"

end Outcome

/-- How many cases passed, of how many. -/
structure Tally where
  passed : Nat := 0
  total : Nat := 0
deriving DecidableEq, Repr

def Tally.add (tally : Tally) (passed : Bool) : Tally :=
  ⟨tally.passed + passed.toNat, tally.total + 1⟩

/-- Tallies by category, ascending by name. -/
abbrev Categories := List (String × Tally)

def Categories.count (category : String) (passed : Bool) : Categories → Categories
  | [] => [(category, Tally.add {} passed)]
  | (name, tally) :: rest =>
    if category = name then (name, tally.add passed) :: rest
    else if category < name then (category, Tally.add {} passed) :: (name, tally) :: rest
    else (name, tally) :: count category passed rest

structure Summary where
  total : Nat
  passed : Nat
  categories : Categories
  /-- One line for each case that failed, in the order of the cases. -/
  failures : List String

namespace Summary

def ofOutcomes (outcomes : List Outcome) : Summary where
  total := outcomes.length
  passed := (outcomes.filter Outcome.passed).length
  categories := outcomes.foldl
    (fun categories outcome => categories.count outcome.case.category outcome.passed) []
  failures := (outcomes.filter fun outcome => !outcome.passed).map Outcome.failureLine

def failed (summary : Summary) : Nat := summary.total - summary.passed

/-- The share of passed cases in hundredths, computed in binary floating point;
no cases are no share. -/
def passRate (summary : Summary) : Number.Binary64 :=
  if summary.total = 0 then .ofRatio 0 1
  else (Number.Binary64.ofRatio summary.passed summary.total).mulNat 100

def listedFailures : Nat := 10

def lines (summary : Summary) : List String :=
  ["=== Conformance Summary ===",
    s!"Total: {summary.total}  Passed: {summary.passed}  Failed: {summary.failed}",
    s!"Pass rate: {summary.passRate.toHundredths}%"] ++
  summary.categories.map (fun (name, tally) => s!"  {name}: {tally.passed}/{tally.total}") ++
  (summary.failures.take listedFailures).map (fun failure => s!"  FAILED {failure}")

/-- The lines of a summary, each with its line break. -/
def render (summary : Summary) : String := String.join (summary.lines.map (· ++ "\n"))

end Summary

def run (cases : List Case) : Summary := .ofOutcomes (cases.map Outcome.ofCase)

end RubySyntax.Conformance
