import RubySyntax.Proofs.Tree.Places

/-! Positions in a tree. A position is the way down from a statement of the program, place by
place. A walk goes over the positions of a program: over each of them once, and over that of a
node before those of its parts. -/
namespace RubySyntax.Tree

namespace Node

variable {place : Place} {node : Node}

/-- The node at the end of a way down. -/
def at? (node : Node) : List Place → Option Node
  | [] => some node
  | place :: path => (node.part? place).bind (·.at? path)

/-- The positions in a node: its own, and behind it those in its parts in source order. -/
def positions (node : Node) : List (List Place) :=
  [] :: node.parts.attach.flatMap fun ⟨(place, child), _⟩ => child.positions.map (place :: ·)
termination_by node
decreasing_by exact sizeOf_part_lt (by assumption)

private theorem flatMap_attach (items : List α) (f : α → List β) :
    (items.attach.flatMap fun item => f item.1) = items.flatMap f := by
  rw [← List.flatMap_map, List.attach_map_subtype_val]

theorem positions_eq (node : Node) :
    node.positions = [] :: node.parts.flatMap fun part => part.2.positions.map (part.1 :: ·) := by
  rw [positions]
  exact congrArg _ (flatMap_attach node.parts fun part => part.2.positions.map (part.1 :: ·))

variable {path : List Place}

theorem mem_positions_cons :
    place :: path ∈ node.positions ↔
      ∃ child, node.part? place = some child ∧ path ∈ child.positions := by
  rw [positions_eq]
  simp only [List.mem_cons, reduceCtorEq, false_or, List.mem_flatMap, List.mem_map,
    List.cons.injEq, Prod.exists, mem_parts]
  constructor
  · rintro ⟨_, child, found, _, member, rfl, rfl⟩
    exact ⟨child, found, member⟩
  · rintro ⟨child, found, member⟩
    exact ⟨place, child, found, path, member, rfl, rfl⟩

theorem mem_positions_iff : path ∈ node.positions ↔ (node.at? path).isSome := by
  induction path generalizing node with
  | nil => simp [positions_eq node, at?]
  | cons place path ih =>
    simp only [mem_positions_cons, ih, at?, Option.isSome_bind, Option.any_eq_true]

theorem at?_append (node : Node) (front back : List Place) :
    node.at? (front ++ back) = (node.at? front).bind (·.at? back) := by
  induction front generalizing node with
  | nil => rfl
  | cons place front ih => simp only [List.cons_append, at?, ih, Option.bind_assoc]

/-- No position in a node comes behind one below it; in particular none comes twice. -/
theorem positions_ordered (node : Node) :
    node.positions.Pairwise fun earlier later => ¬ later <+: earlier := by
  induction node using positions.induct with
  | case1 node ih =>
    rw [positions_eq]
    apply List.pairwise_cons.mpr
    constructor
    · rintro path member above
      rw [List.prefix_nil.mp above] at member
      simp at member
    · apply List.pairwise_flatMap.mpr
      constructor
      · intro part member
        apply List.pairwise_map.mpr
        apply (ih part.1 part.2 member).imp
        intro earlier later apart above
        exact apart (List.cons_prefix_cons.mp above).2
      · apply node.parts_distinct.imp
        intro part other different earlier member later present above
        obtain ⟨_, _, rfl⟩ := List.mem_map.mp member
        obtain ⟨_, _, rfl⟩ := List.mem_map.mp present
        exact different (List.cons_prefix_cons.mp above).1.symm

/-- What a walk makes of a node that it meets: a visit of the node, and one of the call if it
is a call. -/
def visits (depth : Nat) : Node → List Visit
  | call target? name args block? =>
    [.node depth (.call target? name args block?), .call (depth + 1) name args.length]
  | node => [.node depth node]

theorem walk_eq_visits (node : Node) (depth : Nat) :
    node.walk depth = node.visits depth ++ node.children.flatMap (walk (depth + 1)) := by
  rw [walk.eq_def, ← flatMap_attach node.children]
  cases node <;> rfl

/-- A walk meets the positions of a node one after the other, each at its depth. -/
theorem walk_eq_positions (node : Node) (start : Nat) :
    node.walk start =
      node.positions.flatMap fun path => (node.at? path).elim [] (visits (start + path.length)) := by
  induction node using positions.induct generalizing start with
  | case1 node ih =>
    rw [walk_eq_visits, positions_eq, List.flatMap_cons, ← parts_snd, List.flatMap_map,
      List.flatMap_assoc]
    congr 1
    apply List.flatMap_congr
    intro part member
    have found : node.part? part.1 = some part.2 := mem_parts.mp member
    rw [ih part.1 part.2 member, List.flatMap_map]
    simp only [at?, found, Option.bind_some, List.length_cons, Nat.add_assoc, Nat.add_comm 1]

end Node

/-- A way down into a program: a statement of it, and the places on the way from there. -/
structure Position where
  statement : Nat
  path : List Place

/-- The position of a part of the node at a position. -/
def Position.step (position : Position) (place : Place) : Position :=
  { position with path := position.path ++ [place] }

def Position.depth (position : Position) : Nat := position.path.length

namespace Program

def at? (program : Program) (position : Position) : Option Node :=
  program[position.statement]?.bind (·.at? position.path)

/-- The positions in a program, statement by statement. -/
def positions (program : Program) : List Position :=
  program.zipIdx.flatMap fun (node, index) => node.positions.map (Position.mk index)

variable {program : Program} {position : Position}

theorem mem_positions_iff : position ∈ program.positions ↔ (program.at? position).isSome := by
  obtain ⟨index, path⟩ := position
  simp only [positions, at?, List.mem_flatMap, Prod.exists, List.mk_mem_zipIdx_iff_getElem?,
    List.mem_map, Position.mk.injEq, Option.isSome_bind, Option.any_eq_true]
  constructor
  · rintro ⟨node, _, found, _, member, rfl, rfl⟩
    exact ⟨node, found, Node.mem_positions_iff.mp member⟩
  · rintro ⟨node, found, present⟩
    exact ⟨node, index, found, path, Node.mem_positions_iff.mpr present, rfl, rfl⟩

theorem positions_ordered (program : Program) :
    program.positions.Pairwise fun earlier later =>
      ¬ (later.statement = earlier.statement ∧ later.path <+: earlier.path) := by
  apply List.pairwise_flatMap.mpr
  constructor
  · intro item _
    apply List.pairwise_map.mpr
    exact item.1.positions_ordered.imp fun apart above => apart above.2
  · apply indices_distinct.imp
    intro item other different earlier member later present above
    obtain ⟨_, _, rfl⟩ := List.mem_map.mp member
    obtain ⟨_, _, rfl⟩ := List.mem_map.mp present
    exact different above.1.symm

private theorem sublist_of_ordered {R : α → α → Prop} {items : List α} {x y : α}
    (ordered : items.Pairwise R) (left : x ∈ items) (right : y ∈ items) (different : x ≠ y)
    (backward : ¬ R y x) : [x, y].Sublist items := by
  induction items with
  | nil => cases left
  | cons item rest ih =>
    obtain ⟨forward, ordered⟩ := List.pairwise_cons.mp ordered
    rcases List.mem_cons.mp left with rfl | behind
    · have after : y ∈ rest := List.mem_of_ne_of_mem different.symm right
      exact (List.singleton_sublist.mpr after).cons_cons x
    · have ahead : y ≠ item := by
        rintro rfl
        exact backward (forward x behind)
      exact (ih ordered behind (List.mem_of_ne_of_mem ahead right)).cons item

theorem positions_nodup (program : Program) : program.positions.Nodup := by
  apply program.positions_ordered.imp
  rintro position _ apart rfl
  exact apart ⟨rfl, List.prefix_rfl⟩

/-- The position of a node comes before those of its parts. -/
theorem positions_parent_first {place : Place} (member : position.step place ∈ program.positions) :
    [position, position.step place].Sublist program.positions := by
  have longer : position.path ≠ position.path ++ [place] := by simp
  have parent : position ∈ program.positions := by
    rw [mem_positions_iff, at?] at member ⊢
    rw [Position.step, Option.isSome_bind, Option.any_eq_true] at member
    obtain ⟨node, found, present⟩ := member
    rw [Node.at?_append] at present
    rw [found]
    exact Option.isSome_of_isSome_bind present
  apply sublist_of_ordered program.positions_ordered parent member
  · exact fun same => longer (congrArg Position.path same)
  · exact fun apart => apart ⟨rfl, List.prefix_append _ _⟩

theorem walk_eq_positions (program : Program) :
    walk program = program.positions.flatMap fun position =>
      (program.at? position).elim [] (Node.visits position.depth) := by
  have statements : program.zipIdx.flatMap (fun item => item.1.walk 0) = walk program := by
    rw [walk, ← List.flatMap_map, List.zipIdx_map_fst]
  rw [positions, ← statements, List.flatMap_assoc]
  apply List.flatMap_congr
  rintro ⟨node, index⟩ member
  have found : program[index]? = some node := List.mk_mem_zipIdx_iff_getElem?.mp member
  rw [Node.walk_eq_positions, List.flatMap_map]
  simp only [at?, found, Option.bind_some, Position.depth, Nat.zero_add]

/-- A walk over a program meets every node of it once: there is a list of all positions in the
program, each in it once and behind that of the node around it, and the walk is made of the
visits that the nodes at these positions get, one after the other, at the depths of their
positions. A call is visited as a call once, and no other node is. -/
theorem walk_meets_every_node_once (program : Program) :
    ∃ order : List Position, order.Nodup ∧
      (∀ position, position ∈ order ↔ (program.at? position).isSome) ∧
      (∀ position place, position.step place ∈ order →
        [position, position.step place].Sublist order) ∧
      walk program = order.flatMap fun position =>
        (program.at? position).elim [] (Node.visits position.depth) :=
  ⟨program.positions, program.positions_nodup, fun _ => mem_positions_iff,
    fun _ _ => positions_parent_first, program.walk_eq_positions⟩

end Program

end RubySyntax.Tree
