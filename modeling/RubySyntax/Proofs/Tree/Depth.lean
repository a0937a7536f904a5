import RubySyntax.Tree.Walk

/-! Depths in a tree. A node is met at a depth that counts every step down to it; the
steps to the part that a node was built up on are told from those into the rest of it. -/
namespace RubySyntax.Tree

namespace Node

/-- The part that was complete before the node began: the receiver of a call, the left
operand of a weak logical operator, the statement in front of a modifier. -/
def front? : Node → Option Node
  | call target? _ _ _ => target?
  | weakLogical _ lhs _ => some lhs
  | conditional _ [statement] [] | loop _ [statement] | rescueModifier statement _ => some statement
  | _ => none

/-- The children other than the front. -/
def behind : Node → List Node
  | call _ _ args block? => args ++ block?.toList.flatMap Block.nodes
  | weakLogical _ _ rhs => [rhs]
  | conditional condition [_] [] | loop condition [_] => [condition]
  | rescueModifier _ fallback => [fallback]
  | node => node.children

/-- The front and what is behind it are all the children of a node. -/
theorem children_perm (node : Node) : node.children.Perm (node.front?.toList ++ node.behind) := by
  unfold front?
  split
  · simp [behind, children]
  · exact .refl _
  · exact .swap _ _ _
  · exact .swap _ _ _
  · exact .refl _
  · rename_i call logical modified repeated rescued
    unfold behind
    split
    · exact absurd rfl (call _ _ _ _)
    · exact absurd rfl (logical _ _ _)
    · exact absurd rfl (modified _ _)
    · exact absurd rfl (repeated _ _)
    · exact absurd rfl (rescued _ _)
    · exact .refl _

theorem mem_children_iff {child node : Node} :
    child ∈ node.children ↔ node.front? = some child ∨ child ∈ node.behind := by
  rw [node.children_perm.mem_iff, List.mem_append, Option.mem_toList]

/-- The way from a node down to one that occurs in it: how many steps go to a front, and
how many go inside, past it. -/
inductive Reaches : Node → Nat → Nat → Node → Prop
  | here : Reaches node 0 0 node
  | front (found : parent.front? = some child) (more : Reaches child inside fronts node) :
      Reaches parent inside (fronts + 1) node
  | inside (member : child ∈ parent.behind) (more : Reaches child inside fronts node) :
      Reaches parent (inside + 1) fronts node

theorem mem_walk {node found : Node} {start depth : Nat} :
    Visit.node depth found ∈ node.walk start ↔
      (depth = start ∧ found = node) ∨
        ∃ child ∈ node.children, Visit.node depth found ∈ child.walk (start + 1) := by
  rw [walk.eq_def]
  constructor
  · intro member
    rcases List.mem_append.mp member with here | below
    · rcases List.mem_cons.mp here with same | called
      · cases same
        exact .inl ⟨rfl, rfl⟩
      · split at called
        · cases List.mem_singleton.mp called
        · cases called
    · obtain ⟨⟨child, present⟩, _, met⟩ := List.mem_flatMap.mp below
      exact .inr ⟨child, present, met⟩
  · rintro (⟨rfl, rfl⟩ | ⟨child, present, met⟩)
    · exact List.mem_append_left _ List.mem_cons_self
    · apply List.mem_append_right
      exact List.mem_flatMap.mpr ⟨⟨child, present⟩, List.mem_attach _ _, met⟩

/-- The depth at which a walk meets a node is the number of steps on the way to it. -/
theorem mem_walk_iff {root found : Node} {start depth : Nat} :
    Visit.node depth found ∈ root.walk start ↔
      ∃ inside fronts, root.Reaches inside fronts found ∧ depth = start + inside + fronts := by
  constructor
  · intro met
    induction size : sizeOf root using Nat.strongRecOn generalizing root start with
    | _ size ih =>
      subst size
      rcases mem_walk.mp met with ⟨rfl, rfl⟩ | ⟨child, present, met⟩
      · exact ⟨0, 0, .here, rfl⟩
      · obtain ⟨inside, fronts, reaches, same⟩ :=
          ih _ (sizeOf_lt_of_mem_children present) met rfl
        rcases mem_children_iff.mp present with first | rest
        · exact ⟨inside, fronts + 1, .front first reaches, by omega⟩
        · exact ⟨inside + 1, fronts, .inside rest reaches, by omega⟩
  · rintro ⟨inside, fronts, reaches, same⟩
    induction reaches generalizing start with
    | here => exact mem_walk.mpr (.inl ⟨same, rfl⟩)
    | front found more ih =>
      exact mem_walk.mpr (.inr ⟨_, mem_children_iff.mpr (.inl found), ih (by omega)⟩)
    | inside member more ih =>
      exact mem_walk.mpr (.inr ⟨_, mem_children_iff.mpr (.inr member), ih (by omega)⟩)

/-- No way down from a node goes inside more than `bound` times. -/
def Within (bound : Nat) (root : Node) : Prop :=
  ∀ inside fronts node, root.Reaches inside fronts node → inside ≤ bound

end Node

def AllWithin (bound : Nat) (nodes : List Node) : Prop := ∀ node ∈ nodes, node.Within bound

variable {bound wider : Nat} {node : Node} {nodes : List Node}

@[simp] theorem allWithin_nil : AllWithin bound [] := nofun

@[simp] theorem allWithin_cons :
    AllWithin bound (node :: nodes) ↔ node.Within bound ∧ AllWithin bound nodes :=
  List.forall_mem_cons

@[simp] theorem allWithin_append {front back : List Node} :
    AllWithin bound (front ++ back) ↔ AllWithin bound front ∧ AllWithin bound back :=
  List.forall_mem_append

@[simp] theorem allWithin_toList {node? : Option Node} :
    AllWithin bound node?.toList ↔ ∀ node ∈ node?, node.Within bound := by
  simp [AllWithin]

@[simp] theorem allWithin_flatMap {items : List α} {parts : α → List Node} :
    AllWithin bound (items.flatMap parts) ↔ ∀ item ∈ items, AllWithin bound (parts item) := by
  simp only [AllWithin, List.mem_flatMap]
  constructor
  · exact fun all item member node inside => all node ⟨item, member, inside⟩
  · rintro all node ⟨item, member, inside⟩
    exact all item member node inside

namespace Node

theorem Within.mono (within : node.Within bound) (wide : bound ≤ wider) : node.Within wider :=
  fun inside fronts _ reaches => Nat.le_trans (within inside fronts _ reaches) wide

/-- A step to the front is free, and a step past it counts once. -/
theorem Within.intro (front : ∀ first ∈ node.front?, first.Within (bound + 1))
    (behind : AllWithin bound node.behind) : node.Within (bound + 1) := by
  intro inside fronts inner reaches
  cases reaches with
  | here => exact Nat.zero_le _
  | front found more => exact front _ found _ _ _ more
  | inside member more => exact Nat.succ_le_succ (behind _ member _ _ _ more)

/-- A node is at most one step deeper than its children. -/
theorem Within.of_children (children : AllWithin bound node.children) :
    node.Within (bound + 1) := by
  apply Within.intro
  · intro first found
    exact (children first (mem_children_iff.mpr (.inl found))).mono (Nat.le_succ bound)
  · exact fun child member => children child (mem_children_iff.mpr (.inr member))

theorem Within.children (within : node.Within bound) : AllWithin bound node.children := by
  intro child member inside fronts inner reaches
  rcases mem_children_iff.mp member with found | past
  · exact within _ _ _ (.front found reaches)
  · exact Nat.le_of_succ_le (within _ _ _ (.inside past reaches))

/-- A node without children is no deeper than itself. -/
theorem Within.leaf (none : node.children = []) : node.Within bound := by
  intro inside fronts inner reaches
  cases reaches with
  | here => exact Nat.zero_le bound
  | front found more =>
    have child := mem_children_iff.mpr (.inl found)
    rw [none] at child
    cases child
  | inside member more =>
    have child := mem_children_iff.mpr (.inr member)
    rw [none] at child
    cases child

end Node

theorem AllWithin.mono (all : AllWithin bound nodes) (wide : bound ≤ wider) :
    AllWithin wider nodes := fun node member => (all node member).mono wide

end RubySyntax.Tree
