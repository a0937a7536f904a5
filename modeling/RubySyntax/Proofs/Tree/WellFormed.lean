import RubySyntax.Grammar.Target
import RubySyntax.Number.Decimal

namespace RubySyntax.Tree

open Grammar (isAssignable isListTarget listTarget hasSetter setterName)

/-- The name begins like the name of a constant. -/
def NamesConstant (name : String) : Prop := name.toList.head?.any Text.isConstantStart = true

/-- The names on a path are names of constants. -/
def ConstantPath.Named (path : ConstantPath) : Prop :=
  NamesConstant path.name ∧ ∀ name ∈ path.outer, NamesConstant name

def MethodParam.default? (param : MethodParam α) : Option α :=
  match param.role with
  | .single default? => default?
  | .splat | .block => none

namespace Node

/-- A parameter of a block: a name, a splat of one, or the block that is passed. -/
inductive IsBlockParam : Node → Prop
  | reference (name : String) : IsBlockParam (.reference name)
  | splat (name : String) : IsBlockParam (.splat (.reference name))
  | block (name : String) : IsBlockParam (.methodCall (.reference name) "to_proc" [])

/-- The branches behind the first one of a conditional: none, or conditionals
without further branches, the last of them taken always. -/
def AreBranches (otherwise : List Node) : Prop :=
  otherwise = [] ∨
    (∀ branch ∈ otherwise, ∃ condition body, branch = .conditional condition body []) ∧
      ∃ body, otherwise.getLast? = some (.conditional (.boolean true) body [])

/-- More than one value is handed on as a list, and only then. -/
def IsPayload (value? : Option (Payload Node)) : Prop :=
  ∀ values, value? = some (.multiple values) → 2 ≤ values.length

/-- A parameter takes all arguments that are left, or the block, or neither of
them; only then can it have a default. -/
def IsMethodParam (param : MethodParam Node) : Prop :=
  ¬ (param.role = .splat ∧ param.role = .block) ∧
    (param.role = .splat ∨ param.role = .block → param.default? = none)

def IsMethodTarget (target : Node) : Prop :=
  target = .selfReference ∨ ∃ name, target = .reference name

def AreClauses (rescues : List (RescueClause Node)) : Prop :=
  ∀ clause ∈ rescues, ∀ path ∈ clause.classes, path.Named

/-- What a node requires of its direct parts. -/
def WellFormed : Node → Prop
  | integer value => value ≤ Number.maxInteger
  | constant path => path.Named ∧ (path.outer ≠ [] ∨ path.isGlobal = true)
  | call _ _ _ block? => ∀ block ∈ block?, ∀ param ∈ block.params, param.IsBlockParam
  | lambda block => ∀ param ∈ block.params, param.IsBlockParam
  | conditionalAssignment target _ => isAssignable target = true
  | conditional _ _ otherwise => AreBranches otherwise
  | switch _ cases _ => ∀ case ∈ cases, case.conditions ≠ []
  | guarded _ rescues _ => AreClauses rescues
  | handBack value? | handOver value? => IsPayload value?
  | method target? _ params _ rescues =>
    (∀ target ∈ target?, target.IsMethodTarget) ∧ (∀ param ∈ params, IsMethodParam param) ∧
      AreClauses rescues
  | classDecl path superclass? _ => path.Named ∧ ∀ superclass ∈ superclass?, superclass.Named
  | moduleDecl path _ => path.Named
  | _ => True

/-- A target in a list: what a single assignment assigns to, by its setter where
it is a call. A splat is taken whatever its operand is, and so is a call of a
receiver without arguments whose name has no setter. -/
inductive IsTarget : Node → Prop
  | assigned (assignable : isAssignable node = true) : IsTarget (listTarget node)
  | gathered (operand : Node) : IsTarget (.splat operand)
  | unset (receiver : Node) (lacks : hasSetter name [] = false) :
    IsTarget (.methodCall receiver (setterName name) [])

/-- A list that is assigned to is made of targets. -/
def AreTargets (target : Node) : Prop :=
  ∀ targets, target = .array targets → ∀ target ∈ targets, target.IsTarget

/-- What a parser sees to in a node: it is well formed, and assigns to targets. -/
def Built : Node → Prop
  | assignment target _ => target.AreTargets
  | node => node.WellFormed

/-- A node occurs in itself, and where it occurs in a child it occurs in the parent. -/
inductive Occurs (node : Node) : Node → Prop
  | here : Occurs node node
  | inside (member : child ∈ parent.children) (occurs : Occurs node child) : Occurs node parent

/-- Every node that occurs in the tree is built as it should be. -/
def Sound (root : Node) : Prop := ∀ node, Occurs node root → node.Built

end Node

theorem forall_mem_some {p : α → Prop} {value : α} (holds : p value) : ∀ other ∈ some value, p other :=
  fun _ member => Option.mem_some.mp member ▸ holds

theorem forall_mem_none {p : α → Prop} : ∀ other ∈ (none : Option α), p other := by simp

def AllSound (nodes : List Node) : Prop := ∀ node ∈ nodes, node.Sound

@[simp] theorem allSound_nil : AllSound [] := nofun

@[simp] theorem allSound_cons {node : Node} {nodes : List Node} :
    AllSound (node :: nodes) ↔ node.Sound ∧ AllSound nodes := List.forall_mem_cons

@[simp] theorem allSound_append {front back : List Node} :
    AllSound (front ++ back) ↔ AllSound front ∧ AllSound back := List.forall_mem_append

@[simp] theorem allSound_toList {node? : Option Node} :
    AllSound node?.toList ↔ ∀ node ∈ node?, node.Sound := by
  simp [AllSound]

@[simp] theorem allSound_flatMap {items : List α} {nodes : α → List Node} :
    AllSound (items.flatMap nodes) ↔ ∀ item ∈ items, AllSound (nodes item) := by
  simp only [AllSound, List.mem_flatMap]
  constructor
  · exact fun all item member node inside => all node ⟨item, member, inside⟩
  · rintro all node ⟨item, member, inside⟩
    exact all item member node inside

namespace Node

theorem Built.wellFormed {node : Node} (built : node.Built) : node.WellFormed := by
  cases node with
  | assignment target value => trivial
  | _ => exact built

/-- A list accepts what it can assign to, splats, and attributes without a setter. -/
theorem isTarget_listTarget {node : Node} (accepted : isListTarget node = true) :
    (listTarget node).IsTarget := by
  by_cases assignable : isAssignable node = true
  · exact .assigned assignable
  unfold isListTarget at accepted
  split at accepted
  iterate 5 exact absurd rfl assignable
  · exact .gathered _
  · rename_i receiver name args
    simp only [isAssignable, Bool.not_eq_true] at assignable
    have index : (name == "[]") = false := (Bool.or_eq_false_iff.mp assignable).1
    rw [index, Bool.false_or] at accepted
    rw [List.isEmpty_iff.mp accepted] at assignable ⊢
    exact .unset receiver assignable
  · cases accepted

theorem Sound.intro {node : Node} (here : node.Built) (below : AllSound node.children) :
    node.Sound := by
  intro inner occurs
  cases occurs with
  | here => exact here
  | inside member occurs => exact below _ member inner occurs

theorem Sound.built {node : Node} (sound : node.Sound) : node.Built := sound node .here

theorem Sound.children {node : Node} (sound : node.Sound) : AllSound node.children :=
  fun _ member inner occurs => sound inner (.inside member occurs)

theorem sound_reference (name : String) : (reference name).Sound := .intro trivial allSound_nil

theorem Sound.methodCall {target : Node} (sound : target.Sound) (args : AllSound nodes)
    (name : String) : (target.methodCall name nodes).Sound := by
  refine .intro nofun ?_
  show AllSound ((some target).toList ++ nodes ++ [])
  simp [sound, args]

theorem IsBlockParam.sound {param : Node} (valid : param.IsBlockParam) : param.Sound := by
  cases valid with
  | reference name => exact sound_reference name
  | splat name => exact .intro trivial (by simp [Node.children, sound_reference])
  | block name => exact (sound_reference name).methodCall allSound_nil _

/-- How a parameter takes its arguments is one thing. -/
theorem isMethodParam (param : MethodParam Node) : IsMethodParam param := by
  obtain ⟨name, role⟩ := param
  cases role with
  | single default? => exact ⟨nofun, nofun⟩
  | splat => exact ⟨nofun, fun _ => rfl⟩
  | block => exact ⟨nofun, fun _ => rfl⟩

theorem isPayload_ofList? (values : List Node) : IsPayload (Payload.ofList? values) := by
  intro multiple same
  match values with
  | [] => cases same
  | [_] => cases same
  | _ :: _ :: _ =>
    cases same
    simp

end Node

def HashPair.Sound (pair : HashPair Node) : Prop := pair.key.Sound ∧ pair.value.Sound

def Block.Sound (block : Block Node) : Prop :=
  (∀ param ∈ block.params, param.IsBlockParam) ∧ AllSound block.body

def SwitchCase.Sound (case : SwitchCase Node) : Prop :=
  case.conditions ≠ [] ∧ AllSound case.conditions ∧ AllSound case.body

def RescueClause.Sound (clause : RescueClause Node) : Prop :=
  (∀ path ∈ clause.classes, path.Named) ∧ AllSound clause.body

def MethodParam.Sound (param : MethodParam Node) : Prop := ∀ value ∈ param.default?, value.Sound

@[simp] theorem MethodParam.nodes_eq (param : MethodParam Node) :
    param.nodes = param.default?.toList := by
  obtain ⟨name, role⟩ := param
  cases role <;> rfl

theorem Block.Sound.nodes {block : Block Node} (sound : block.Sound) : AllSound block.nodes := by
  obtain ⟨params, body⟩ := sound
  exact allSound_append.mpr ⟨fun param member => (params param member).sound, body⟩

end RubySyntax.Tree
