import RubySyntax.Proofs.Grammar.Definition
import RubySyntax.Proofs.Grammar.NestingLimit
import RubySyntax.Proofs.Grammar.WellFormed.Program

/-! What is assigned to. A list of targets takes more than a single assignment, and
a compound assignment takes whatever stands on its left. -/
namespace RubySyntax.Grammar

open RubySyntax.Tree (Node)
open Token (Kind)
open Diagnostic (Message ParseError)
open Grammar.Parser

/-- The two sides of an assignment and the operator between them. -/
def Parser.sides (nest : Nest) : Parser (Node × Token × Node) := do
  let target ← ternary nest
  let operator ← advance
  skipNewLines
  return (target, operator, ← assignedValue nest)

def assigned (target : Node) (operator : Token) (value : Node) : Node :=
  if operator.kind.isCompoundAssignment then .operatorCall target operator.text value
  else if operator.kind == .punct .orAssign then .conditionalAssignment target value
  else assign target value

/-- A reading is refused for the node on the left of an assignment. -/
def Refused (result : Except ParseError α) : Prop :=
  ∃ error, result = .error error ∧ error.report.code = Message.cannotAssign.code

theorem setterName_injective : Function.Injective setterName := by
  intro name other same
  have chars := congrArg String.toList same
  simp only [setterName, String.toList_append, List.append_cancel_right_eq] at chars
  exact String.toList_inj.mp chars

variable {nest : Nest} {scope : Scope} {start final : Cursor} {target value : Node} {operator : Token}

/-- Once both sides are read, only the check of the target is left. -/
theorem assignment_eq (read : sides nest scope start = .ok ((target, operator, value), final))
    (operates : operator.kind.isAssignment = true) :
    assignment nest scope start =
      if operator.kind.isCompoundAssignment ∨ isAssignable target then
        .ok (assigned target operator value, final)
      else fail .cannotAssign [target.describe] scope final := by
  obtain ⟨_, between, left, read⟩ := bind_eq_ok read
  obtain ⟨_, next, passed, read⟩ := bind_eq_ok read
  obtain ⟨_, behind, broken, read⟩ := bind_eq_ok read
  obtain ⟨_, _, right, same⟩ := bind_eq_ok read
  cases same
  have here : between.token.kind.isAssignment = true := (advance_eq_ok passed).1 ▸ operates
  unfold assignment assigned
  rw [bind_ok _ left, bind_ok _ (kind_eq ..), if_pos here, bind_ok _ passed, bind_ok _ broken,
    bind_ok _ right]
  by_cases compound : operator.kind.isCompoundAssignment = true
  · rw [if_pos compound, if_pos (Or.inl compound), if_pos compound]
    rfl
  by_cases assignable : isAssignable target = true
  · rw [if_neg compound, if_pos assignable, if_pos (Or.inr assignable), if_neg compound]
    dsimp only
    split
    · rfl
    · rfl
  · rw [if_neg compound, if_neg (not_or.mpr ⟨compound, assignable⟩), if_neg assignable]
    rfl

/-- An assignment is refused for its target exactly where no operator is called and
nothing can be assigned to it. -/
theorem refused_assignment_iff (read : sides nest scope start = .ok ((target, operator, value), final))
    (operates : operator.kind.isAssignment = true) :
    Refused (assignment nest scope start) ↔
      operator.kind.isCompoundAssignment = false ∧ isAssignable target = false := by
  rw [assignment_eq read operates]
  split
  · rename_i accepted
    refine ⟨fun ⟨_, absurd, _⟩ => (nomatch absurd), fun ⟨plain, other⟩ => ?_⟩
    simp [plain, other] at accepted
  · rename_i other
    exact ⟨fun _ => by simpa using other, fun _ => ⟨_, rfl, rfl⟩⟩

variable {first : Token} {rest : List Token}

/-- A program of one assignment is refused for its target where the assignment is. -/
theorem refused_program_iff (read : sides (nested depth) scope (.ofTokens first rest) =
      .ok ((target, operator, value), final)) (operates : operator.kind.isAssignment = true)
    (ended : final.token.kind = .endOfFile) (dummy : Token) :
    Refused (program (depth + 1) scope (.ofTokens dummy (first :: rest))) ↔
      Refused (nested (depth + 1) .expression scope (.ofTokens first rest)) := by
  have begins : BeginsStatement first.kind := by
    obtain ⟨_, between, left, _⟩ := bind_eq_ok read
    have left : atLevel (nested depth) .ternary scope _ = .ok _ := left
    exact beginsStatement_of_atLevel left
  have whole : nested (depth + 1) .expression scope (.ofTokens first rest) = _ :=
    assignment_eq read operates
  split at whole
  · rw [program_of_expression begins ended whole, whole]
    exact ⟨fun ⟨_, absurd, _⟩ => (nomatch absurd), fun ⟨_, absurd, _⟩ => (nomatch absurd)⟩
  · have failed : fail .cannotAssign [target.describe] scope final =
        (.error (.grammatical (.raiseAt final.token.span .cannotAssign [target.describe])) :
          Except ParseError (Node × Cursor)) := rfl
    rw [failed] at whole
    rw [program_of_refused begins whole, whole]
    exact ⟨fun _ => ⟨_, rfl, rfl⟩, fun _ => ⟨_, rfl, rfl⟩⟩

theorem refused_parse_iff {source fileName : String} :
    Refused (parse source { fileName, maxDepth }) ↔
      Refused (program maxDepth { limit := maxDepth, fault := (scan source).2 }
        (.ofTokens startToken (scan source).1)) := by
  rw [parse_eq]
  cases program maxDepth { limit := maxDepth, fault := (scan source).2 }
      (.ofTokens startToken (scan source).1) with
  | ok result => exact ⟨fun ⟨_, absurd, _⟩ => (nomatch absurd), fun ⟨_, absurd, _⟩ => (nomatch absurd)⟩
  | error error =>
    constructor
    · rintro ⟨_, ⟨⟩, code⟩
      exact ⟨error, rfl, (error.code_inFile ..).symm.trans code⟩
    · rintro ⟨_, ⟨⟩, code⟩
      exact ⟨_, rfl, (error.code_inFile ..).trans code⟩

end RubySyntax.Grammar

namespace RubySyntax

open RubySyntax.Tree (Node)
open Grammar (Cursor Scope Refused isAssignable listTarget setterName_injective)
open Grammar.Parser (sides nested)

/-- Every list that an accepted program assigns to is a list of targets: of what a
single assignment accepts, of splats, and of attributes without a setter. -/
theorem parse_targets {source : String} {options : Options} {program : Tree.Program}
    (parsed : parse source options = .ok program) :
    ∀ statement ∈ program, ∀ targets value,
      Node.Occurs (.assignment (.array targets) value) statement →
      ∀ target ∈ targets, target.IsTarget :=
  fun statement member targets _ occurs =>
    Grammar.WellFormed.allSound_parse parsed statement member _ occurs targets rfl

private theorem attribute_matches :
    (parse "a, b.c = 1" matches
      .ok [.assignment (.array [.reference "a", .call (some (.reference "b")) "c=" [] none])
        (.integer 1)]) := by
  decide +kernel

theorem parse_targets_attribute :
    parse "a, b.c = 1" =
        .ok [.assignment (.array [.reference "a", .methodCall (.reference "b") "c=" []])
          (.integer 1)] ∧
      ∀ target ∈ [Node.reference "a", .methodCall (.reference "b") "c=" []], target.IsTarget := by
  have found := attribute_matches
  split at found
  · rename_i parsed
    exact ⟨parsed, parse_targets parsed _ (List.mem_singleton_self _) _ _ .here⟩
  · cases found

private theorem predicate_matches :
    (parse "a, b.empty? = 1" matches
      .ok [.assignment (.array [.reference "a", .call (some (.reference "b")) "empty?=" [] none])
        (.integer 1)]) := by
  decide +kernel

/-- A predicate is no attribute, but stands in a list of targets: nothing that a single
assignment accepts, and no splat, makes the second target. -/
theorem not_targets_assignable_of_predicate :
    ∃ program, parse "a, b.empty? = 1" = .ok program ∧
      ¬ ∀ statement ∈ program, ∀ targets value,
        Node.Occurs (.assignment (.array targets) value) statement → ∀ target ∈ targets,
          (∃ node, isAssignable node = true ∧ target = listTarget node) ∨
            ∃ operand, isAssignable operand = true ∧ target = .splat operand := by
  have found := predicate_matches
  split at found
  · rename_i parsed
    refine ⟨_, parsed, fun claimed => ?_⟩
    obtain ⟨node, assignable, same⟩ | ⟨_, _, same⟩ :=
      claimed _ (List.mem_singleton_self _) _ _ .here _
        (List.mem_cons_of_mem _ (List.mem_singleton_self _))
    · unfold listTarget at same
      split at same
      · rename_i name args block?
        injection same with receiver setter arguments block
        have name_eq : name = "empty?" := setterName_injective setter.symm
        subst receiver name_eq arguments block
        exact absurd assignable (by decide)
      · rename_i other
        exact other _ _ _ _ same.symm
    · cases same
  · cases found

/-- What is assigned is refused for its target exactly where the operator is `=` or
`||=` and the target cannot be assigned to, wherever the assignment stands and where
it is the whole source. A compound operator never refuses its target. -/
theorem assignment_refused_iff {depth : Nat} {scope : Scope} {first : Token} {rest : List Token}
    {target value : Node} {operator : Token} {final : Cursor}
    (read : sides (nested depth) scope (.ofTokens first rest) =
      .ok ((target, operator, value), final))
    (operates : operator.kind.isAssignment = true) :
    (Refused (nested (depth + 1) .expression scope (.ofTokens first rest)) ↔
      operator.kind.isCompoundAssignment = false ∧ isAssignable target = false) ∧
    ∀ source fileName, (scan source).1 = first :: rest →
      scope = { limit := depth + 1, fault := (scan source).2 } → final.token.kind = .endOfFile →
      (Refused (parse source { fileName, maxDepth := depth + 1 }) ↔
        operator.kind.isCompoundAssignment = false ∧ isAssignable target = false) := by
  have here := Grammar.refused_assignment_iff read operates
  refine ⟨here, ?_⟩
  rintro source fileName tokens rfl ended
  rw [Grammar.refused_parse_iff, tokens]
  exact (Grammar.refused_program_iff read operates ended _).trans here

example : (parse "1 = 2" matches .error _) ∧ (parse "@a = 2" matches .ok _) := by decide +kernel

private theorem conditional_matches :
    (match (scan "1 ||= 2").1 with
      | first :: rest =>
        (sides (nested 255) { limit := 256, fault := (scan "1 ||= 2").2 } (.ofTokens first rest) matches
          .ok ((.integer 1, { kind := .punct .orAssign, .. }, .integer 2),
            { token := { kind := .endOfFile, .. }, .. }))
      | [] => false) = true := by
  decide +kernel

theorem assignment_refused_conditional :
    ∃ first rest operator final, (scan "1 ||= 2").1 = first :: rest ∧
      sides (nested 255) { limit := 256, fault := (scan "1 ||= 2").2 } (.ofTokens first rest) =
        .ok ((.integer 1, operator, .integer 2), final) ∧
      operator.kind.isAssignment = true ∧ final.token.kind = .endOfFile ∧
      Refused (parse "1 ||= 2") := by
  have found := conditional_matches
  split at found
  · rename_i first rest scanned
    split at found
    · rename_i read
      have refused := (assignment_refused_iff read rfl).2 "1 ||= 2" "<input>" scanned rfl rfl
      exact ⟨first, rest, _, _, scanned, read, rfl, rfl, refused.mpr ⟨rfl, rfl⟩⟩
    · cases found
  · cases found

private theorem compound_matches :
    (parse "1 += 2" matches .ok [.call (some (.integer 1)) "+=" [.integer 2] none]) ∧
    (match (scan "1 += 2").1 with
      | first :: rest =>
        (sides (nested 255) { limit := 256, fault := (scan "1 += 2").2 } (.ofTokens first rest) matches
          .ok ((.integer 1, { kind := .punct .plusAssign, .. }, .integer 2), _))
      | [] => false) = true := by
  decide +kernel

/-- An integer is no target, and a compound operator is called on it all the same. -/
theorem not_refused_of_compound :
    ∃ first rest operator final, (scan "1 += 2").1 = first :: rest ∧
      sides (nested 255) { limit := 256, fault := (scan "1 += 2").2 } (.ofTokens first rest) =
        .ok ((.integer 1, operator, .integer 2), final) ∧
      operator.kind.isAssignment = true ∧
      ¬ (Refused (parse "1 += 2") ↔ isAssignable (.integer 1) = false) := by
  obtain ⟨accepted, found⟩ := compound_matches
  split at accepted
  · rename_i parsed
    split at found
    · rename_i first rest scanned
      split at found
      · rename_i read
        refine ⟨first, rest, _, _, scanned, read, rfl, fun claimed => ?_⟩
        obtain ⟨_, failed, _⟩ := claimed.mpr rfl
        exact nomatch parsed.symm.trans failed
      · cases found
    · cases found
  · cases accepted

end RubySyntax
