import RubySyntax.Tree.Children

namespace RubySyntax.Tree

/-- What a walk meets, with the depth at which it meets it. A call is met as a
node and, one level further in, as a call. -/
inductive Visit
  | node (depth : Nat) (node : Node)
  | call (depth : Nat) (name : String) (arity : Nat)

private theorem sizeOf_toList {α : Type} [SizeOf α] {x : α} {o : Option α}
    (member : x ∈ o.toList) : sizeOf x < sizeOf o := by
  cases o with
  | none => simp at member
  | some y => simp at member; subst member; simp

private theorem sizeOf_blockNodes {x : Node} {block : Block Node} (member : x ∈ block.nodes) :
    sizeOf x < sizeOf block := by
  obtain ⟨params, body⟩ := block
  rcases List.mem_append.mp member with inParams | inBody
  · have := List.sizeOf_lt_of_mem inParams; simp at this ⊢; omega
  · have := List.sizeOf_lt_of_mem inBody; simp at this ⊢; omega

private theorem sizeOf_pairNodes {x : Node} {pair : HashPair Node} (member : x ∈ pair.nodes) :
    sizeOf x < sizeOf pair := by
  obtain ⟨key, value⟩ := pair
  simp only [HashPair.nodes, List.mem_cons, List.not_mem_nil, or_false] at member
  rcases member with same | same <;> subst same <;> simp +arith

private theorem sizeOf_caseNodes {x : Node} {case : SwitchCase Node} (member : x ∈ case.nodes) :
    sizeOf x < sizeOf case := by
  obtain ⟨conditions, body⟩ := case
  rcases List.mem_append.mp member with inConditions | inBody
  · have := List.sizeOf_lt_of_mem inConditions; simp at this ⊢; omega
  · have := List.sizeOf_lt_of_mem inBody; simp at this ⊢; omega

private theorem sizeOf_clauseBody {x : Node} {clause : RescueClause Node}
    (member : x ∈ clause.body) : sizeOf x < sizeOf clause := by
  obtain ⟨classes, binding?, body⟩ := clause
  have := List.sizeOf_lt_of_mem member
  simp; simp at this; omega

private theorem sizeOf_paramNodes {x : Node} {param : MethodParam Node}
    (member : x ∈ param.nodes) : sizeOf x < sizeOf param := by
  obtain ⟨name, role⟩ := param
  cases role with
  | single default? =>
    have := @sizeOf_toList Node _ x default? member
    simp; omega
  | splat => simp [MethodParam.nodes] at member
  | block => simp [MethodParam.nodes] at member

private theorem sizeOf_payloadNodes {x : Node} {payload : Payload Node}
    (member : x ∈ payload.nodes) : sizeOf x < sizeOf payload := by
  cases payload with
  | single value => simp [Payload.nodes] at member; subst member; simp
  | multiple values =>
    have := List.sizeOf_lt_of_mem (show x ∈ values from member)
    simp; omega

private theorem sizeOf_flatMap {α : Type} [SizeOf α] {nodes : α → List Node} {x : Node}
    {items : List α} (smaller : ∀ item, x ∈ nodes item → sizeOf x < sizeOf item)
    (member : x ∈ items.flatMap nodes) : sizeOf x < sizeOf items := by
  obtain ⟨item, present, inItem⟩ := List.mem_flatMap.mp member
  exact Nat.lt_trans (smaller item inItem) (List.sizeOf_lt_of_mem present)

/-- Children are smaller than their parent. -/
theorem Node.sizeOf_lt_of_mem_children {x node : Node} (member : x ∈ node.children) :
    sizeOf x < sizeOf node := by
  cases node with
  | call target? name args block? =>
    simp only [children, List.mem_append] at member
    rcases member with (inTarget | inArgs) | inBlock
    · have := sizeOf_toList inTarget; simp; omega
    · have := List.sizeOf_lt_of_mem inArgs; simp; omega
    · cases block? with
      | none => simp at inBlock
      | some block =>
        have := @sizeOf_blockNodes x block (by simpa using inBlock)
        simp; omega
  | assignment target value | conditionalAssignment target value | weakLogical op lhs rhs
  | range first last exclusive | rescueModifier statement fallback =>
    simp only [children, List.mem_cons, List.not_mem_nil, or_false] at member
    rcases member with same | same <;> subst same <;> simp +arith
  | ternary condition ifTrue ifFalse =>
    simp only [children, List.mem_cons, List.not_mem_nil, or_false] at member
    rcases member with same | same | same <;> subst same <;> simp +arith
  | unary op operand | splat operand =>
    simp only [children, List.mem_cons, List.not_mem_nil, or_false] at member
    subst member; simp +arith
  | array nodes | group nodes =>
    have := List.sizeOf_lt_of_mem (show x ∈ nodes from member); simp; omega
  | classDecl path superclass? body | moduleDecl path body =>
    have := List.sizeOf_lt_of_mem (show x ∈ body from member); simp; omega
  | hash pairs =>
    have := sizeOf_flatMap (fun _ => sizeOf_pairNodes) (show x ∈ pairs.flatMap _ from member)
    simp; omega
  | conditional condition body otherwise =>
    simp only [children, List.mem_cons, List.mem_append] at member
    rcases member with same | inBody | inOther
    · subst same; simp; omega
    · have := List.sizeOf_lt_of_mem inBody; simp; omega
    · have := List.sizeOf_lt_of_mem inOther; simp; omega
  | loop condition body | singletonClass condition body =>
    simp only [children, List.mem_cons] at member
    rcases member with same | inBody
    · subst same; simp; omega
    · have := List.sizeOf_lt_of_mem inBody; simp; omega
  | switch subject? cases otherwise =>
    simp only [children, List.mem_append] at member
    rcases member with (inSubject | inCases) | inOther
    · have := sizeOf_toList inSubject; simp; omega
    · have := sizeOf_flatMap (fun _ => sizeOf_caseNodes) inCases; simp; omega
    · have := List.sizeOf_lt_of_mem inOther; simp; omega
  | guarded body rescues otherwise =>
    simp only [children, List.mem_append] at member
    rcases member with (inBody | inRescues) | inOther
    · have := List.sizeOf_lt_of_mem inBody; simp; omega
    · have := sizeOf_flatMap (fun _ => sizeOf_clauseBody) inRescues; simp; omega
    · have := List.sizeOf_lt_of_mem inOther; simp; omega
  | handBack value? | handOver value? =>
    cases value? with
    | none => simp [children] at member
    | some payload =>
      have := @sizeOf_payloadNodes x payload (by simpa [children] using member)
      simp; omega
  | method target? name params body rescues =>
    simp only [children, List.mem_append] at member
    rcases member with ((inTarget | inParams) | inBody) | inRescues
    · have := sizeOf_toList inTarget; simp; omega
    · have := sizeOf_flatMap (fun _ => sizeOf_paramNodes) inParams; simp; omega
    · have := List.sizeOf_lt_of_mem inBody; simp; omega
    · have := sizeOf_flatMap (fun _ => sizeOf_clauseBody) inRescues; simp; omega
  | lambda block =>
    have := @sizeOf_blockNodes x block member
    simp; omega
  | _ => simp [children] at member

/-- A node, as a call if it is one, and then its children one level further in. -/
def Node.walk (depth : Nat) (node : Node) : List Visit :=
  let called :=
    match node with
    | .call _ name args _ => [.call (depth + 1) name args.length]
    | _ => []
  .node depth node :: called ++
    node.children.attach.flatMap fun ⟨child, _⟩ => child.walk (depth + 1)
termination_by node
decreasing_by exact Node.sizeOf_lt_of_mem_children (by assumption)

/-- The statements of a program one after the other, all at depth zero. -/
def Program.walk (program : Program) : List Visit := program.flatMap (Node.walk 0)

end RubySyntax.Tree
