import RubySyntax.Proofs.Tree.WellFormed
import RubySyntax.Tree.Walk
import Mathlib.Data.List.Basic

/-! Places in a node. A place names one field that holds nodes, with an index where the field
is a list. What stands at the places of a node, place by place, are its children in order. -/
namespace RubySyntax.Tree

/-- Where in a node one of its parts stands. -/
inductive Place
  /-- The receiver of a call, what is assigned to, the object that a method or a singleton
  class belongs to. -/
  | target
  | argument (index : Nat)
  /-- A parameter of a block or of a lambda. -/
  | param (index : Nat)
  | body (index : Nat)
  /-- What is assigned, or the only value that is handed back or over. -/
  | value
  /-- One of several values that are handed back or over. -/
  | valueAt (index : Nat)
  | condition
  | ifTrue
  | ifFalse
  | operand
  | lhs
  | rhs
  | element (index : Nat)
  | pairKey (pair : Nat)
  | pairValue (pair : Nat)
  | first
  | last
  | otherwise (index : Nat)
  | subject
  | caseCondition (case index : Nat)
  | caseBody (case index : Nat)
  | rescueBody (clause index : Nat)
  | statement
  | fallback
  | default (param : Nat)

def Block.part? (block : Block Node) : Place → Option Node
  | .param index => block.params[index]?
  | .body index => block.body[index]?
  | _ => none

def Payload.part? : Payload Node → Place → Option Node
  | .single value, .value => some value
  | .multiple values, .valueAt index => values[index]?
  | _, _ => none

namespace Node

/-- The part of a node at a place: each field that holds nodes, by its own name. -/
def part? : Node → Place → Option Node
  | call target? _ args block? => fun
    | .target => target?
    | .argument index => args[index]?
    | place => block?.bind (·.part? place)
  | assignment target value | conditionalAssignment target value => fun
    | .target => some target
    | .value => some value
    | _ => none
  | ternary condition ifTrue ifFalse => fun
    | .condition => some condition
    | .ifTrue => some ifTrue
    | .ifFalse => some ifFalse
    | _ => none
  | unary _ operand | splat operand => fun
    | .operand => some operand
    | _ => none
  | weakLogical _ lhs rhs => fun
    | .lhs => some lhs
    | .rhs => some rhs
    | _ => none
  | array elements => fun
    | .element index => elements[index]?
    | _ => none
  | hash pairs => fun
    | .pairKey pair => pairs[pair]?.map HashPair.key
    | .pairValue pair => pairs[pair]?.map HashPair.value
    | _ => none
  | range first last _ => fun
    | .first => some first
    | .last => some last
    | _ => none
  | conditional condition body otherwise => fun
    | .condition => some condition
    | .body index => body[index]?
    | .otherwise index => otherwise[index]?
    | _ => none
  | loop condition body => fun
    | .condition => some condition
    | .body index => body[index]?
    | _ => none
  | switch subject? cases otherwise => fun
    | .subject => subject?
    | .caseCondition case index => cases[case]?.bind (·.conditions[index]?)
    | .caseBody case index => cases[case]?.bind (·.body[index]?)
    | .otherwise index => otherwise[index]?
    | _ => none
  | guarded body rescues otherwise => fun
    | .body index => body[index]?
    | .rescueBody clause index => rescues[clause]?.bind (·.body[index]?)
    | .otherwise index => otherwise[index]?
    | _ => none
  | rescueModifier statement fallback => fun
    | .statement => some statement
    | .fallback => some fallback
    | _ => none
  | handBack value? | handOver value? => fun place => value?.bind (·.part? place)
  | method target? _ params body rescues => fun
    | .target => target?
    | .default param => params[param]?.bind MethodParam.default?
    | .body index => body[index]?
    | .rescueBody clause index => rescues[clause]?.bind (·.body[index]?)
    | _ => none
  | classDecl _ _ body | moduleDecl _ body | group body => fun
    | .body index => body[index]?
    | _ => none
  | singletonClass target body => fun
    | .target => some target
    | .body index => body[index]?
    | _ => none
  | lambda block => block.part?
  | integer _ | float _ | string _ | template _ | symbol _ | character _ | regex _ _ | subshell _
  | boolean _ | null | reference _ | instanceVariable _ | classVariable _ | globalVariable _
  | constant _ | fileName | lineNumber | selfReference | retry | breakOut | next
  | aliasDecl _ _ => fun _ => none

end Node

/-- The nodes of a list, each under its place. -/
def placed (place : Nat → Place) (nodes : List Node) : List (Place × Node) :=
  nodes.zipIdx.map fun (node, index) => (place index, node)

/-- What the items of a list hold, each node under its place. -/
def placedIn (parts : Nat → α → List (Place × Node)) (items : List α) : List (Place × Node) :=
  items.zipIdx.flatMap fun (item, index) => parts index item

def placed? (place : Place) (node? : Option Node) : List (Place × Node) :=
  node?.toList.map (place, ·)

def Block.parts (block : Block Node) : List (Place × Node) :=
  placed .param block.params ++ placed .body block.body

def HashPair.parts (index : Nat) (pair : HashPair Node) : List (Place × Node) :=
  [(.pairKey index, pair.key), (.pairValue index, pair.value)]

def SwitchCase.parts (index : Nat) (case : SwitchCase Node) : List (Place × Node) :=
  placed (.caseCondition index) case.conditions ++ placed (.caseBody index) case.body

def RescueClause.parts (index : Nat) (clause : RescueClause Node) : List (Place × Node) :=
  placed (.rescueBody index) clause.body

def MethodParam.parts (index : Nat) (param : MethodParam Node) : List (Place × Node) :=
  placed? (.default index) param.default?

def Payload.parts : Payload Node → List (Place × Node)
  | .single value => [(.value, value)]
  | .multiple values => placed .valueAt values

/-- The children of a node, each under its place. -/
def Node.parts : Node → List (Place × Node)
  | integer _ | float _ | string _ | template _ | symbol _ | character _ | regex _ _ | subshell _
  | boolean _ | null | reference _ | instanceVariable _ | classVariable _ | globalVariable _
  | constant _ | fileName | lineNumber | selfReference | retry | breakOut | next
  | aliasDecl _ _ => []
  | call target? _ args block? =>
    placed? .target target? ++ placed .argument args ++ block?.elim [] Block.parts
  | assignment target value | conditionalAssignment target value =>
    [(.target, target), (.value, value)]
  | ternary condition ifTrue ifFalse =>
    [(.condition, condition), (.ifTrue, ifTrue), (.ifFalse, ifFalse)]
  | unary _ operand | splat operand => [(.operand, operand)]
  | weakLogical _ lhs rhs => [(.lhs, lhs), (.rhs, rhs)]
  | array elements => placed .element elements
  | hash pairs => placedIn HashPair.parts pairs
  | range first last _ => [(.first, first), (.last, last)]
  | conditional condition body otherwise =>
    (.condition, condition) :: (placed .body body ++ placed .otherwise otherwise)
  | loop condition body => (.condition, condition) :: placed .body body
  | switch subject? cases otherwise =>
    placed? .subject subject? ++ placedIn SwitchCase.parts cases ++ placed .otherwise otherwise
  | guarded body rescues otherwise =>
    placed .body body ++ placedIn RescueClause.parts rescues ++ placed .otherwise otherwise
  | rescueModifier statement fallback => [(.statement, statement), (.fallback, fallback)]
  | handBack value? | handOver value? => value?.elim [] Payload.parts
  | method target? _ params body rescues =>
    placed? .target target? ++ placedIn MethodParam.parts params ++ placed .body body ++
      placedIn RescueClause.parts rescues
  | classDecl _ _ body | moduleDecl _ body | group body => placed .body body
  | singletonClass target body => (.target, target) :: placed .body body
  | lambda block => block.parts

section parts

variable {place : Place} {child : Node} {part : Place × Node} {nodes : List Node}
variable {label : Nat → Place}
variable {items : List α} {parts : Nat → α → List (Place × Node)} {held : α → List Node}

@[simp] theorem placed_snd : (placed label nodes).map Prod.snd = nodes := by
  simp [placed, Function.comp_def]

@[simp] theorem placed?_snd {node? : Option Node} :
    (placed? place node?).map Prod.snd = node?.toList := by
  simp [placed?, Function.comp_def]

theorem placedIn_snd (each : ∀ index item, (parts index item).map Prod.snd = held item) :
    (placedIn parts items).map Prod.snd = items.flatMap held := by
  simp only [placedIn, List.map_flatMap, each]
  rw [← List.flatMap_map, List.zipIdx_map_fst]

@[simp, grind =] theorem mem_placed :
    part ∈ placed label nodes ↔ ∃ index, part.1 = label index ∧ nodes[index]? = some part.2 := by
  obtain ⟨place, child⟩ := part
  simp only [placed, List.mem_map, Prod.exists, List.mk_mem_zipIdx_iff_getElem?, Prod.mk.injEq]
  constructor
  · rintro ⟨_, index, found, same, rfl⟩
    exact ⟨index, same.symm, found⟩
  · rintro ⟨index, same, found⟩
    exact ⟨child, index, found, same.symm, rfl⟩

@[simp, grind =] theorem mem_placed? {node? : Option Node} :
    part ∈ placed? place node? ↔ part.1 = place ∧ node? = some part.2 := by
  obtain ⟨label, child⟩ := part
  simp [placed?, and_comm, eq_comm]

@[simp, grind =] theorem mem_placedIn :
    part ∈ placedIn parts items ↔
      ∃ index item, items[index]? = some item ∧ part ∈ parts index item := by
  simp only [placedIn, List.mem_flatMap, Prod.exists, List.mk_mem_zipIdx_iff_getElem?]
  exact exists_comm

def Distinct (parts : List (Place × Node)) : Prop :=
  parts.Pairwise fun earlier later => earlier.1 ≠ later.1

@[simp, grind ←] theorem distinct_nil : Distinct [] := .nil

@[simp, grind =] theorem distinct_cons {listed : List (Place × Node)} :
    Distinct ((place, child) :: listed) ↔ (∀ part ∈ listed, place ≠ part.1) ∧ Distinct listed :=
  List.pairwise_cons

@[simp, grind =] theorem distinct_append {front back : List (Place × Node)} :
    Distinct (front ++ back) ↔ Distinct front ∧ Distinct back ∧
      ∀ part ∈ front, ∀ other ∈ back, part.1 ≠ other.1 :=
  List.pairwise_append

theorem indices_distinct :
    items.zipIdx.Pairwise fun earlier later => earlier.2 ≠ later.2 := by
  have distinct : (items.zipIdx.map Prod.snd).Nodup := by
    rw [List.zipIdx_map_snd]
    exact List.nodup_range'
  exact List.pairwise_map.mp distinct

@[simp, grind ←] theorem placed_distinct (apart : ∀ i j, label i = label j → i = j) :
    Distinct (placed label nodes) :=
  List.pairwise_map.mpr (indices_distinct.imp fun different same => different (apart _ _ same))

@[simp, grind ←] theorem placed?_distinct {node? : Option Node} : Distinct (placed? place node?) := by
  cases node? <;> simp [placed?]

theorem placedIn_distinct (each : ∀ index item, Distinct (parts index item))
    (apart : ∀ i j first second, i ≠ j → ∀ part ∈ parts i first, ∀ other ∈ parts j second,
      part.1 ≠ other.1) :
    Distinct (placedIn parts items) := by
  apply List.pairwise_flatMap.mpr
  constructor
  · exact fun item _ => each item.2 item.1
  · exact indices_distinct.imp fun different part member other present =>
      apart _ _ _ _ different part member other present

theorem HashPair.parts_snd (index : Nat) (pair : HashPair Node) :
    (pair.parts index).map Prod.snd = pair.nodes := rfl

theorem SwitchCase.parts_snd (index : Nat) (case : SwitchCase Node) :
    (case.parts index).map Prod.snd = case.nodes := by
  simp [SwitchCase.parts, SwitchCase.nodes]

theorem RescueClause.parts_snd (index : Nat) (clause : RescueClause Node) :
    (clause.parts index).map Prod.snd = clause.body := placed_snd

theorem MethodParam.parts_snd (index : Nat) (param : MethodParam Node) :
    (param.parts index).map Prod.snd = param.nodes := by
  obtain ⟨name, role⟩ := param
  cases role <;> simp [MethodParam.parts, MethodParam.nodes, MethodParam.default?]

theorem Block.mem_parts {block : Block Node} :
    (place, child) ∈ block.parts ↔ block.part? place = some child := by
  cases place <;> simp [Block.parts, part?]

theorem Payload.mem_parts {payload : Payload Node} :
    (place, child) ∈ payload.parts ↔ payload.part? place = some child := by
  cases payload <;> cases place <;> simp [Payload.parts, part?, eq_comm]

end parts

namespace Node

variable {place : Place} {child node : Node}

theorem parts_snd (node : Node) : node.parts.map Prod.snd = node.children := by
  cases node with
  | call target? name args block? =>
    cases block? <;> simp [parts, children, Block.parts, Block.nodes]
  | hash pairs => exact placedIn_snd HashPair.parts_snd
  | switch subject? cases otherwise =>
    simp [parts, children, placedIn_snd SwitchCase.parts_snd]
  | guarded body rescues otherwise =>
    simp [parts, children, placedIn_snd RescueClause.parts_snd]
  | method target? name params body rescues =>
    simp [parts, children, placedIn_snd MethodParam.parts_snd, placedIn_snd RescueClause.parts_snd]
  | handBack value? | handOver value? =>
    rcases value? with _ | _ | _ <;> simp [parts, children, Payload.parts, Payload.nodes]
  | lambda block => simp [parts, children, Block.parts, Block.nodes]
  | _ => simp [parts, children]

theorem mem_parts : (place, child) ∈ node.parts ↔ node.part? place = some child := by
  cases node with
  | call target? name args block? =>
    cases block? <;> cases place <;> simp [parts, part?, Block.mem_parts, Block.part?]
  | hash pairs => cases place <;> simp [parts, part?, HashPair.parts, eq_comm (a := child)]
  | switch subject? cases otherwise =>
    cases place <;> simp [parts, part?, SwitchCase.parts, Option.bind_eq_some_iff]
  | guarded body rescues otherwise =>
    cases place <;> simp [parts, part?, RescueClause.parts, Option.bind_eq_some_iff]
  | method target? name params body rescues =>
    cases place <;>
      simp [parts, part?, RescueClause.parts, MethodParam.parts, Option.bind_eq_some_iff]
  | handBack value? | handOver value? =>
    cases value? <;> simp [parts, part?, Payload.mem_parts]
  | lambda block => exact Block.mem_parts
  | assignment _ _ | conditionalAssignment _ _ | ternary _ _ _ | unary _ _ | splat _
  | weakLogical _ _ _ | array _ | range _ _ _ | conditional _ _ _ | loop _ _
  | rescueModifier _ _ | classDecl _ _ _ | moduleDecl _ _ | singletonClass _ _ | group _ =>
    cases place <;> simp [parts, part?, eq_comm]
  | _ => simp [parts, part?]

theorem parts_distinct (node : Node) : Distinct node.parts := by
  have rescued (clauses : List (RescueClause Node)) :
      Distinct (placedIn RescueClause.parts clauses) := by
    apply placedIn_distinct <;> grind [RescueClause.parts]
  cases node with
  | call target? name args block? =>
    cases block? <;> grind [parts, Block.parts]
  | hash pairs =>
    apply placedIn_distinct <;> grind [HashPair.parts]
  | switch subject? cases otherwise =>
    have tried : Distinct (placedIn SwitchCase.parts cases) := by
      apply placedIn_distinct <;> grind [SwitchCase.parts]
    grind [parts, SwitchCase.parts]
  | guarded body rescues otherwise =>
    simp only [parts, distinct_append, List.mem_append]
    grind [RescueClause.parts]
  | method target? name params body rescues =>
    have taken : Distinct (placedIn MethodParam.parts params) := by
      apply placedIn_distinct <;> grind [MethodParam.parts]
    simp only [parts, distinct_append, List.mem_append]
    grind [MethodParam.parts, RescueClause.parts]
  | handBack value? | handOver value? =>
    rcases value? with _ | _ | _ <;> grind [parts, Payload.parts]
  | conditional _ _ _ | loop _ _ | singletonClass _ _ | lambda _ => grind [parts, Block.parts]
  | _ => simp [parts]

/-- A part is smaller than the node it is a part of. -/
theorem sizeOf_part_lt {place : Place} {child : Node} (member : (place, child) ∈ node.parts) :
    sizeOf child < sizeOf node := by
  apply sizeOf_lt_of_mem_children
  rw [← parts_snd]
  exact List.mem_map_of_mem member

end Node

end RubySyntax.Tree
