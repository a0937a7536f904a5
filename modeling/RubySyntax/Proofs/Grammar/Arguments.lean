import Mathlib.Logic.Relation
import RubySyntax.Grammar.Program
import RubySyntax.Proofs.Grammar.Evaluation

/-! Arguments as they are written and as they are passed. The order is the same
where the keyed arguments stand behind all the others; what is written behind a
keyed argument is passed in front of it. -/
namespace RubySyntax.Grammar

open RubySyntax.Tree (Node HashPair)
open Token (Kind Punct)
open Grammar.Parser

/-- The cursor moves over line breaks and commas. -/
def Cursor.Skips : Cursor → Cursor → Prop :=
  Relation.ReflTransGen fun cursor next => cursor.next? = some next ∧
    (cursor.token.kind = .newLine ∨ cursor.token.kind = .punct .comma)

namespace Arguments

/-- The arguments that are written from one cursor to another, each read where the
gap behind the one before it ends. -/
inductive Written (nest : Nest) (scope : Scope) : Cursor → List Argument → Cursor → Prop where
  | done (gap : cursor.Skips final) : Written nest scope cursor [] final
  | more (gap : cursor.Skips start) (read : argument nest scope start = .ok (first, stop))
      (rest : Written nest scope stop arguments final) :
      Written nest scope cursor (first :: arguments) final

/-- The nodes that are passed stand in the order of the arguments, with one hash in
the place of all the keyed ones. -/
inductive InOrder : List Argument → List Node → Prop where
  | none : InOrder [] []
  | positional (rest : InOrder arguments nodes) :
      InOrder (.positional value :: arguments) (value :: nodes)
  | keyed (some : pairs ≠ []) (rest : InOrder arguments nodes)
      (single : arguments.filterMap Argument.keyed? = []) :
      InOrder (pairs.map .keyed ++ arguments) (.hash pairs :: nodes)

end Arguments

variable {scope : Scope} {cursor middle final : Cursor} {nest : Nest}

namespace Parser

end Parser

namespace Arguments

theorem Written.skip (gap : cursor.Skips middle) (rest : Written nest scope middle arguments final) :
    Written nest scope cursor arguments final := by
  cases rest with
  | done other => exact .done (gap.trans other)
  | more other read rest => exact .more (gap.trans other) read rest

section

variable (value : Node) (pair : HashPair Node)

@[simp] theorem positional?_positional :
    Argument.positional? (.positional value) = some value := rfl

@[simp] theorem positional?_keyed : Argument.positional? (.keyed pair) = none := rfl

@[simp] theorem keyed?_positional : Argument.keyed? (.positional value) = none := rfl

@[simp] theorem keyed?_keyed : Argument.keyed? (.keyed pair) = some pair := rfl

end

theorem passed_trailing (values : List Node) (pairs : List (HashPair Node)) :
    Argument.passed (values.map .positional ++ pairs.map .keyed) =
      values ++ if pairs.isEmpty then [] else [.hash pairs] := by
  have noValue : (pairs.map .keyed).filterMap Argument.positional? = [] :=
    List.filterMap_eq_nil_iff.mpr (by simp)
  have noPair : (values.map .positional).filterMap Argument.keyed? = [] :=
    List.filterMap_eq_nil_iff.mpr (by simp)
  simp only [Argument.passed, List.filterMap_append, noValue, noPair]
  simp [List.filterMap_map, Function.comp_def]

theorem InOrder.positionals (rest : InOrder arguments nodes) (values : List Node) :
    InOrder (values.map .positional ++ arguments) (values ++ nodes) := by
  induction values with
  | nil => exact rest
  | cons value values ih => exact .positional ih

/-- The keyed arguments stand behind all the others. -/
def Trailing (arguments : List Argument) : Prop :=
  ∃ (values : List Node) (pairs : List (HashPair Node)),
    arguments = values.map .positional ++ pairs.map .keyed

theorem Trailing.inOrder (trailing : Trailing arguments) :
    InOrder arguments (Argument.passed arguments) := by
  obtain ⟨values, pairs, rfl⟩ := trailing
  rw [passed_trailing]
  refine InOrder.positionals ?_ values
  cases pairs with
  | nil => exact .none
  | cons pair pairs =>
    have keyed := InOrder.keyed (List.cons_ne_nil pair pairs) .none rfl
    rwa [List.append_nil] at keyed

end Arguments

end RubySyntax.Grammar

namespace RubySyntax

open RubySyntax.Tree (Node)
open Grammar.Arguments (InOrder)

end RubySyntax
