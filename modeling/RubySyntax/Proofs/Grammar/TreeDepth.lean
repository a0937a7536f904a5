import RubySyntax.Proofs.Grammar.Depth.Expression
import RubySyntax.Proofs.Grammar.LexicalFault
import RubySyntax.Proofs.Lexer.Faithful
import RubySyntax.Proofs.Precedence

/-! The nesting limit and the tree. Each level of nesting adds a bounded number of steps
to the ways down into a tree; the repetitions of the grammar, which use up no nesting,
add steps to fronts only, and of these there is no bound. -/
namespace RubySyntax

open RubySyntax.Tree (Node Visit AllWithin Program)
open Grammar (BinaryOp IntegerText OpChain OpTree)

namespace Grammar.Depth

theorem nested (depth : Nat) : WithinNest (9 * depth) (Parser.nested depth) := by
  induction depth with
  | zero =>
    intro level scope cursor node final named done
    cases done
  | succ depth ih => exact fun level => atLevel ih level

theorem program (depth : Nat) : Yields (AllWithin (9 * depth + 3)) (Parser.program depth) :=
  .seq .advance (statements (nested depth) [])

end Grammar.Depth

/-- A way from a program down to a node that occurs in it. -/
def Tree.Program.Reaches (program : Program) (inside fronts : Nat) (node : Node) : Prop :=
  ∃ statement ∈ program, statement.Reaches inside fronts node

/-- A walk meets a node at as many steps as there are on the way to it. -/
theorem Tree.Program.mem_walk_iff {program : Program} {depth : Nat} {node : Node} :
    Visit.node depth node ∈ Program.walk program ↔
      ∃ inside fronts, Program.Reaches program inside fronts node ∧ depth = inside + fronts := by
  simp only [Program.walk, List.mem_flatMap, Node.mem_walk_iff, Program.Reaches, Nat.zero_add]
  constructor
  · rintro ⟨statement, member, inside, fronts, reaches, same⟩
    exact ⟨inside, fronts, ⟨statement, member, reaches⟩, same⟩
  · rintro ⟨inside, fronts, ⟨statement, member, reaches⟩, same⟩
    exact ⟨statement, member, inside, fronts, reaches, same⟩

/-- The nesting limit bounds the ways into a tree. A node is met at a depth that counts
the steps on the way to it, and of these no more than nine for each level of nesting go
past the front of a node. -/
theorem parse_bounds_inside {source : String} {options : Options} {program : Program}
    (parsed : parse source options = .ok program) :
    (∀ depth node, Visit.node depth node ∈ Program.walk program ↔
      ∃ inside fronts, Program.Reaches program inside fronts node ∧ depth = inside + fronts) ∧
    ∀ inside fronts node, Program.Reaches program inside fronts node →
      inside ≤ 9 * (options.maxDepth + 1) := by
  refine ⟨fun _ _ => Program.mem_walk_iff, ?_⟩
  rintro inside fronts node ⟨statement, member, reaches⟩
  obtain ⟨final, read⟩ := parse_eq_ok_iff.mp parsed
  have named : (Grammar.Cursor.ofTokens startToken (scan source).1).Named :=
    List.forall_mem_cons.mpr ⟨nofun, scan_constant source⟩
  have within := (Grammar.Depth.program _ _ _ _ _ named read).1
  have bounded := within statement member inside fronts node reaches
  omega

private theorem calls_match :
    (parse "a.b.c and d" { maxDepth := 3 } matches .ok [.weakLogical .andThen
      (.call (some (.call (some (.reference "a")) "b" [] none)) "c" [] none)
      (.reference "d")]) := by
  decide +kernel

/-- Three steps go to fronts on the way to `a`, and one goes inside on the way to `d`. -/
theorem parse_bounds_inside_calls :
    ∃ program, parse "a.b.c and d" { maxDepth := 3 } = .ok program ∧
      Program.Reaches program 0 3 (.reference "a") ∧ Program.Reaches program 1 0 (.reference "d") ∧
      (∀ depth node, Visit.node depth node ∈ Program.walk program ↔
        ∃ inside fronts, Program.Reaches program inside fronts node ∧ depth = inside + fronts) ∧
      ∀ inside fronts node, Program.Reaches program inside fronts node → inside ≤ 9 * (3 + 1) := by
  have found := calls_match
  split at found
  · rename_i parsed
    refine ⟨_, parsed, ⟨_, List.mem_cons_self, ?_⟩, ⟨_, List.mem_cons_self, ?_⟩,
      parse_bounds_inside parsed⟩
    · exact .front rfl (.front rfl (.front rfl .here))
    · exact .inside List.mem_cons_self .here
  · cases found

/-- A tree of one operator alone grows to the left, by one step for each operator. -/
theorem Grammar.OpTree.walk_of_replicate {tree : OpTree} (ordered : tree.Ordered)
    (same : tree.rest = List.replicate count (op, literal)) (depth : Nat) :
    Visit.node (depth + count) (.integer tree.first.value) ∈ tree.node.walk depth := by
  induction tree generalizing count depth with
  | operand first =>
    obtain rfl : count = 0 := by simpa [rest] using same
    exact Node.mem_walk.mpr (.inl ⟨rfl, rfl⟩)
  | call root receiver argument ih _ =>
    obtain ⟨_, tighter, left, _⟩ := ordered
    obtain ⟨total, front, back⟩ := List.append_eq_replicate_iff.mp same
    have alone {pair : BinaryOp × IntegerText}
        (member : pair ∈ (root, argument.first) :: argument.rest) : pair.1 = op := by
      rw [back] at member
      rw [List.eq_of_mem_replicate member]
    -- an operator at the root of the argument would bind more tightly than itself
    have lone : argument.rest = [] := by
      cases argument with
      | operand _ => rfl
      | call inner _ _ =>
        have sharper : root.level < inner.level := tighter _ rfl
        have outerSame := alone List.mem_cons_self
        have innerSame := alone
          (List.mem_cons_of_mem _ (List.mem_append_right _ List.mem_cons_self))
        dsimp only at outerSame innerSame
        rw [outerSame, innerSame] at sharper
        exact absurd sharper (Nat.lt_irrefl _)
    have count_eq : count = receiver.rest.length + 1 := by
      rw [← total, lone]
      rfl
    have below := ih left front (depth + 1)
    rw [count_eq, Nat.add_comm receiver.rest.length, ← Nat.add_assoc]
    exact Node.mem_walk.mpr (.inr ⟨_, List.mem_cons_self, below⟩)

def Grammar.BinaryOp.plus : BinaryOp := ⟨.plus, .additive, rfl⟩

/-- Sums are accepted however long they are, and each of their signs adds a step. -/
theorem not_parse_bounds_depth :
    ¬ ∃ bound, ∀ source options program, parse source options = .ok program →
      ∀ depth node, Visit.node depth node ∈ Program.walk program →
        depth ≤ bound * (options.maxDepth + 1) := by
  rintro ⟨bound, bounds⟩
  let signs := List.replicate (bound * 257 + 1) (BinaryOp.plus, IntegerText.one)
  let source := IntegerText.one.chars ++ OpChain.chars signs
  obtain ⟨token, next, tokens, final, run, halted, operand, written⟩ :=
    (Lexer.ofSource_awaits source).run_chain signs rfl
  have scanned := Lexer.scan_of_run run halted
  obtain ⟨tree, _, inOrder, ordered, reads⟩ := Grammar.parseTokens_chain operand written
    (scan (String.ofList source)).2 (show 10 ≤ 256 by decide)
  have parsed : parse (String.ofList source) = .ok [tree.node] := by
    unfold parse
    simp only [scanned, reads]
    rfl
  have deep := tree.walk_of_replicate ordered inOrder 0
  have met : Visit.node (0 + (bound * 257 + 1)) (.integer tree.first.value) ∈
      Program.walk [tree.node] := by
    simpa [Program.walk] using deep
  have within : 0 + (bound * 257 + 1) ≤ bound * 257 := bounds _ _ _ parsed _ _ met
  omega

end RubySyntax
