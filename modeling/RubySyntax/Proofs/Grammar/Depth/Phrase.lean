import RubySyntax.Grammar.Call
import RubySyntax.Proofs.Grammar.Phrase
import RubySyntax.Proofs.Grammar.Yields
import RubySyntax.Proofs.Tree.Depth

/-! How far statements, arguments, blocks and calls go past what nests in them. A
repetition builds on what it has as its front, so it costs no depth however long it is. -/
namespace RubySyntax.Grammar.Depth

open RubySyntax.Tree
open Token (Kind Punct Keyword)
open Grammar.Parser (Argument)

/-- What nests goes inside at most `bound` times. -/
abbrev WithinNest (bound : Nat) (nest : Nest) : Prop :=
  ∀ level, Yields (Node.Within bound) (nest level)

variable {bound : Nat} {nest : Nest}

theorem within_listTarget {node : Node} (within : node.Within bound) :
    (listTarget node).Within bound := by
  unfold listTarget
  split
  · rename_i target? name args block?
    intro inside fronts inner reaches
    cases reaches with
    | here => exact Nat.zero_le bound
    | front found more => exact within _ _ _ (.front found more)
    | inside member more => exact within _ _ _ (.inside member more)
  · exact within

theorem acceptTarget {node : Node} (within : node.Within bound) :
    Yields (Node.Within bound) (Parser.acceptTarget node) := by
  unfold Parser.acceptTarget
  exact .unlessThen (.fail _ _) (.pure (within_listTarget within))

theorem within_splat {node : Node} (within : node.Within bound) :
    (Node.splat node).Within (bound + 1) := .of_children (by simpa [Node.children])

theorem splatOrExpression (nests : WithinNest bound nest) :
    Yields (Node.Within (bound + 1)) (Parser.splatOrExpression nest) := by
  refine .after (Runs.laws.eat _) fun splat => .ite ?_ ?_
  · exact (nests _).bind fun value within => .pure (within_splat within)
  · exact (nests _).weaken fun value within => within.mono (Nat.le_succ bound)

abbrev WithinPair (bound : Nat) (pair : HashPair Node) : Prop := AllWithin bound pair.nodes

theorem keyedValue (nests : WithinNest bound nest) {key : Node} (within : key.Within (bound + 1)) :
    Yields (WithinPair (bound + 1)) (Parser.keyedValue nest key) := by
  refine .after Runs.laws.skipNewLines fun _ => (nests _).bind fun value deep => .pure ?_
  simp [WithinPair, HashPair.nodes, within, deep.mono (Nat.le_succ bound)]

def WithinArgument (bound : Nat) : Argument → Prop
  | .positional value => value.Within bound
  | .keyed pair => WithinPair bound pair

/-- A call without arguments and without a block is no deeper than its receiver. -/
theorem within_methodCall {target : Node} {args : List Node} (within : target.Within (bound + 1))
    (arguments : AllWithin bound args) (name : String) :
    (target.methodCall name args).Within (bound + 1) := by
  apply Node.Within.intro
  · exact forall_mem_some within
  · simpa [Node.methodCall, Node.behind] using arguments

theorem argument (nests : WithinNest bound nest) :
    Yields (WithinArgument (bound + 1)) (Parser.argument nest) := by
  refine .after Runs.laws.kind fun kind => ?_
  split
  · refine .after .advance fun label => ?_
    have key : (Node.symbol label.text).Within (bound + 1) := .leaf rfl
    exact (keyedValue nests key).bind fun _ pair => .pure pair
  · refine .seq .advance ((nests _).bind fun value within => ?_)
    exact .pure (within_methodCall (within.mono (Nat.le_succ bound)) allWithin_nil _)
  · refine (splatOrExpression nests).bind fun value within => ?_
    refine .after (Runs.laws.eat _) fun arrow => .ite ?_ (.pure within)
    exact (keyedValue nests within).bind fun _ pair => .pure pair

theorem passed {arguments : List Argument}
    (within : ∀ argument ∈ arguments, WithinArgument bound argument) :
    AllWithin (bound + 1) (Argument.passed arguments) := by
  have values : AllWithin bound (arguments.filterMap Argument.positional?) := fun value member =>
    within _ (Argument.mem_positional.mp member)
  have pairs : ∀ pair ∈ arguments.filterMap Argument.keyed?, AllWithin bound pair.nodes :=
    fun pair member => within _ (Argument.mem_keyed.mp member)
  refine allWithin_append.mpr ⟨values.mono (Nat.le_succ bound), ?_⟩
  split
  · exact allWithin_nil
  · refine allWithin_cons.mpr ⟨.of_children ?_, allWithin_nil⟩
    exact allWithin_flatMap.mpr pairs

theorem openArguments (nests : WithinNest bound nest) :
    Yields (AllWithin (bound + 2)) (Parser.openArguments nest) :=
  (argument nests).commaSeparated.map _ fun _ read => passed read.2

theorem closedArguments (nests : WithinNest bound nest) (close : Punct) :
    Yields (AllWithin (bound + 2)) (Parser.closedArguments nest close) := by
  refine ((Yields.list (p := WithinArgument (bound + 1)) ?_).withNoDo false).bind
    fun arguments within => ?_
  · refine .after Runs.laws.skipNewLines fun _ => .after (Runs.laws.isAt _) fun closed => ?_
    refine .ite (.pure trivial) ((argument nests).bind fun argument within => ?_)
    refine .after Runs.laws.skipNewLines fun _ => .after Runs.laws.eatComma fun more => ?_
    exact .ite (.pure within) (.pure within)
  · exact .expect _ (.pure (passed within))

theorem target (nests : WithinNest bound nest) :
    Yields (Node.Within (bound + 1)) (Parser.target nest) := by
  refine .after (Runs.laws.eat _) fun splat => .ite ?_ ?_
  · exact (nests _).bind fun value within => acceptTarget (within_splat within)
  · exact (nests _).bind fun value within => acceptTarget (within.mono (Nat.le_succ bound))

theorem multipleAssignment (nests : WithinNest bound nest) {first : Node}
    (within : first.Within (bound + 1)) :
    Yields (Node.Within (bound + 3)) (Parser.multipleAssignment nest first) := by
  refine (acceptTarget within).bind fun first within => ?_
  refine (target nests).commaFollowed.bind fun targets (all : AllWithin (bound + 1) targets) => ?_
  refine .after (Runs.laws.eat _) fun assigns => .unlessThen (.fail _ _) ?_
  refine .after Runs.laws.skipNewLines fun _ => ?_
  refine (splatOrExpression nests).bind fun value single => ?_
  refine (splatOrExpression nests).commaFollowed.bind
    fun values (more : AllWithin (bound + 1) values) => ?_
  have left : (Node.array (first :: targets)).Within (bound + 2) :=
    .of_children (by simp [Node.children, within, all])
  have right : (if values.isEmpty then value else .array (value :: values)).Within (bound + 2) := by
    split
    · exact single.mono (Nat.le_succ _)
    · exact .of_children (by simp [Node.children, single, more])
  refine .pure (.of_children ?_)
  exact allWithin_cons.mpr ⟨left, allWithin_cons.mpr ⟨right, allWithin_nil⟩⟩

theorem plainStatement (nests : WithinNest bound nest) :
    Yields (Node.Within (bound + 3)) (Parser.plainStatement nest) := by
  have deeper : bound + 1 ≤ bound + 3 := by omega
  refine .after (Runs.laws.eat _) fun splat => .ite ?_ ?_
  · refine (nests _).bind fun value within => ?_
    have target := within_splat within
    refine .after (Runs.laws.isAt _) fun comma => .after (Runs.laws.isAt _) fun assigns => ?_
    exact .ite (multipleAssignment nests target) (.pure (target.mono deeper))
  · refine (nests _).bind fun expression within => .after (Runs.laws.isAt _) fun comma => ?_
    have within := within.mono (Nat.le_succ bound)
    exact .ite (multipleAssignment nests within) (.pure (within.mono deeper))

theorem within_guarding (negated : Bool) {condition : Node} (within : condition.Within bound) :
    (Parser.guarding negated condition).Within (bound + 1) := by
  unfold Parser.guarding
  split
  · exact .of_children (by simpa [Node.children])
  · exact within.mono (Nat.le_succ bound)

/-- A modifier has the statement that it follows as its front. -/
theorem modifier (nests : WithinNest bound nest) {node : Node} (within : node.Within (bound + 3)) :
    Yields (fun built => ∀ node ∈ built, node.Within (bound + 3)) (Parser.modifier nest node) := by
  have built {parent asked : Node} (front : parent.front? = some node)
      (behind : parent.behind = [asked]) (deep : asked.Within (bound + 1)) :
      parent.Within (bound + 3) := by
    apply Node.Within.intro
    · rw [front]
      exact forall_mem_some within
    · rw [behind]
      exact allWithin_cons.mpr ⟨deep.mono (Nat.le_succ _), allWithin_nil⟩
  refine .after Runs.laws.kind fun kind => ?_
  split
  iterate 2
    refine .after .advance fun word => ?_
    dsimp only
    refine (nests _).bind fun condition asked => .pure (forall_mem_some ?_)
    exact built rfl rfl (within_guarding _ asked)
  iterate 2
    refine .after .advance fun word => ?_
    dsimp only
    refine (nests _).bind fun condition asked => .pure (forall_mem_some ?_)
    exact built rfl rfl (within_guarding _ asked)
  · refine .seq .advance ((nests _).bind fun fallback asked => .pure (forall_mem_some ?_))
    exact built rfl rfl (asked.mono (Nat.le_succ bound))
  · exact .pure forall_mem_none

theorem statement (nests : WithinNest bound nest) :
    Yields (Node.Within (bound + 3)) (Parser.statement nest) :=
  (plainStatement nests).bind fun _ within =>
    .chain (fun _ built => modifier nests built) within

theorem statements (nests : WithinNest bound nest) (ends : List Kind) :
    Yields (AllWithin (bound + 3)) (Parser.statements nest ends) := by
  refine .list (.after Runs.laws.skipSeparators fun _ => ?_)
  refine .after Runs.laws.kind fun first => .after Runs.laws.kind fun second => ?_
  refine .ite (.pure trivial) ((statement nests).bind fun node within => ?_)
  refine .after Runs.laws.kind fun kind => .ite (.pure within) ?_
  exact .ite (.pure within) .unexpected

theorem blockParam : Yields (Node.Within 1) Parser.blockParam := by
  refine .after Runs.laws.kind fun mark => .whenThen (.discard .advance) ?_
  refine .after (Runs.laws.isAt _) fun found => .unlessThen (.failAt _) ?_
  refine .after .advance fun name => ?_
  have reference (deep : Nat) : (Node.reference name.text).Within deep := .leaf rfl
  dsimp only
  split
  · exact .pure (within_splat (reference 0))
  · exact .pure (within_methodCall (reference 1) allWithin_nil _)
  · exact .pure (reference 1)

theorem blockParams : Yields (AllWithin 1) Parser.blockParams := by
  refine .after (Runs.laws.eat _) fun empty => .ite (.pure nofun) ?_
  refine .after (Runs.laws.eat _) fun opened => .ite ?_ (.pure nofun)
  refine (Yields.list (p := Node.Within 1) ?_).bind fun params within => .expect _ (.pure within)
  refine .after (Runs.laws.isAt _) fun closed => .ite (.pure trivial) ?_
  refine blockParam.bind fun param within => .after (Runs.laws.eat _) fun more => ?_
  exact .ite (.pure within) (.pure within)

theorem lambdaParams : Yields (AllWithin 1) Parser.lambdaParams := by
  refine .after (Runs.laws.eat _) fun opened => .ite ?_ ?_
  · refine (Yields.list (p := Node.Within 1) ?_).bind fun params within =>
      .expect _ (.pure within)
    refine .after Runs.laws.skipNewLines fun _ => .after (Runs.laws.isAt _) fun closed => ?_
    refine .ite (.pure trivial) (blockParam.bind fun param within => ?_)
    refine .after Runs.laws.skipNewLines fun _ => .after (Runs.laws.eat _) fun more => ?_
    exact .ite (.pure within) (.pure within)
  · refine .list (.after (Runs.laws.isAt _) fun found => .ite ?_ (.pure trivial))
    refine blockParam.bind fun param within => .after (Runs.laws.eat _) fun more => ?_
    exact .ite (.pure within) (.pure within)

abbrev WithinBlock (bound : Nat) (block? : Option (Tree.Block Node)) : Prop :=
  ∀ block ∈ block?, AllWithin bound block.nodes

theorem blockUpTo (nests : WithinNest bound nest) (close : Kind) :
    Yields (WithinBlock (bound + 3)) (Parser.blockUpTo nest close) := by
  refine .seq .advance (blockParams.bind fun params shallow => ?_)
  refine ((statements nests _).withNoDo false).bind fun body within => ?_
  refine .expect _ (.pure (forall_mem_some ?_))
  exact allWithin_append.mpr ⟨shallow.mono (by omega), within⟩

theorem block (nests : WithinNest bound nest) :
    Yields (WithinBlock (bound + 3)) (Parser.block nest) := by
  rw [Parser.block_eq]
  refine .after Runs.laws.kind fun kind => .ite ?_ ?_
  · exact .after .noDo fun noDo => .ite (.pure forall_mem_none) (blockUpTo nests _)
  · exact .ite (blockUpTo nests _) (.pure forall_mem_none)

theorem arrowLambda (nests : WithinNest bound nest) :
    Yields (Node.Within (bound + 4)) (Parser.arrowLambda nest) := by
  refine .seq .advance (lambdaParams.bind fun params shallow => ?_)
  refine ((block nests).withNoDo false).bind fun block? within => ?_
  split
  · rename_i block
    have nodes := within block rfl
    rw [Tree.Block.nodes, allWithin_append] at nodes
    refine .pure (.of_children ?_)
    simp [Node.children, Tree.Block.nodes, shallow.mono (show 1 ≤ bound + 3 by omega), nodes]
  · exact .after .current fun _ => .fail _ _

/-- A call is as deep as its receiver, or one deeper than its arguments and its block. -/
theorem within_call {target? : Option Node} {args : List Node} {block? : Option (Tree.Block Node)}
    (target : ∀ node ∈ target?, node.Within (bound + 1)) (arguments : AllWithin bound args)
    (block : WithinBlock bound block?) (name : String) :
    (Node.call target? name args block?).Within (bound + 1) := by
  refine .intro target ?_
  simp only [Node.behind, allWithin_append, allWithin_flatMap]
  exact ⟨arguments, fun inner member => block inner (Option.mem_toList.mp member)⟩

theorem callRest (nests : WithinNest bound nest) {target? : Option Node}
    (target : ∀ node ∈ target?, node.Within (bound + 5)) (name : String) :
    Yields (Node.Within (bound + 5)) (Parser.callRest nest target? name) := by
  have rest (args : List Node) (arguments : AllWithin (bound + 2) args) :
      Yields (Node.Within (bound + 5)) (do
        return Node.call target? name args (← Parser.block nest)) := by
    refine (block nests).bind fun block within => .pure ?_
    refine within_call target (arguments.mono (by omega)) ?_ name
    exact fun inner member => (within inner member).mono (by omega)
  refine .after (Runs.laws.isAtGlued _ nofun) fun opened => .after .current fun token => ?_
  refine .ite (.seq .advance ((closedArguments nests _).bind rest)) ?_
  refine .ite (((openArguments nests).withNoDo true).bind rest) ?_
  exact (Yields.pure allWithin_nil).bind rest

theorem methodCall (nests : WithinNest bound nest) {receiver : Node}
    (within : receiver.Within (bound + 5)) :
    Yields (Node.Within (bound + 5)) (Parser.methodCall nest receiver) := by
  refine .after Runs.laws.kind fun kind => .unlessThen (.failAt _) ?_
  exact .after .advance fun name => callRest nests (forall_mem_some within) _

theorem plainIdentifier (nests : WithinNest bound nest) (name : String) :
    Yields (Node.Within (bound + 5)) (Parser.plainIdentifier nest name) := by
  refine .after (Runs.laws.isAtGlued _ nofun) fun opened => .after .current fun next => ?_
  refine .after Runs.laws.startsBlock fun blockFollows => .ite ?_ (.ite (.pure ?_) (.pure ?_))
  · exact callRest nests forall_mem_none name
  · exact .leaf rfl
  · exact .leaf rfl

theorem identifier (nests : WithinNest bound nest) :
    Yields (Node.Within (bound + 5)) (Parser.identifier nest) := by
  refine .after .advance fun name => ?_
  dsimp only
  split
  · refine (block nests).bind fun block? within => ?_
    split
    · rename_i block
      have lambda : (Node.lambda block).Within (bound + 4) := .of_children (within block rfl)
      exact .pure (lambda.mono (Nat.le_succ _))
    · exact plainIdentifier nests name.text
  · exact plainIdentifier nests name.text

theorem within_constantReference (path : ConstantPath) :
    (Parser.constantReference path).Within bound := by
  unfold Parser.constantReference
  split
  · exact .leaf rfl
  · exact .leaf rfl

theorem constant (nests : WithinNest bound nest) :
    Yields (Node.Within (bound + 5)) (Parser.constant nest) := by
  refine .after Runs.laws.opening.leadingConstant fun first => ?_
  have inner (path : ConstantPath) := (Runs.laws.innerConstant path).weaken
    fun built _ next (_ : next ∈ built) => trivial
  refine .after (.chain (q := fun _ => True) (fun path _ => inner path) trivial) fun path => ?_
  refine .after (Runs.laws.eatGlued _ nofun) fun scope => .ite (methodCall nests ?_) ?_
  · exact within_constantReference path
  · refine .after (Runs.laws.isAtGlued _ nofun) fun opened => ?_
    exact .ite (callRest nests forall_mem_none _) (.pure (within_constantReference path))

end RubySyntax.Grammar.Depth
