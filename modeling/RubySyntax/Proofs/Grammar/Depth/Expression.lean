import RubySyntax.Grammar.Expression
import RubySyntax.Proofs.Grammar.Expression
import RubySyntax.Proofs.Grammar.Depth.Construct

namespace RubySyntax.Grammar.Depth

open RubySyntax.Tree
open Token (Kind Punct Keyword)

variable {bound : Nat} {nest : Nest}

theorem leaf {node : Node} (within : node.Within bound) :
    Yields (Node.Within bound) (Parser.leaf node) := .seq .advance (.pure within)

theorem integer : Yields (Node.Within bound) Parser.integer := by
  refine .after .current fun token => ?_
  split
  · exact leaf (.leaf rfl)
  · exact .fail _ _
  · exact .fail _ _

theorem float : Yields (Node.Within bound) Parser.float := by
  refine .after .current fun token => ?_
  split
  · exact leaf (.leaf rfl)
  · exact .fail _ _

theorem within_wordList (text : String) : (Parser.wordList text).Within (bound + 1) := by
  refine .of_children fun word member => ?_
  obtain ⟨_, _, rfl⟩ := List.mem_map.mp member
  exact .leaf rfl

theorem literal (kind : Token.LiteralKind) :
    Yields (Node.Within (bound + 1)) (Parser.literal kind) := by
  unfold Parser.literal
  cases kind with
  | integer => exact integer
  | float => exact float
  | character =>
    refine .after .current fun token => ?_
    split
    · exact leaf (.leaf rfl)
    · exact .unexpected
  | wordList => exact .after .advance fun token => .pure (within_wordList _)
  | _ => exact .after .advance fun token => .pure (.leaf rfl)

theorem group (nests : WithinNest bound nest) :
    Yields (Node.Within (bound + 4)) (Parser.group nest) := by
  refine .seq .advance (((statements nests _).withNoDo false).bind fun body within => ?_)
  exact .expect _ (.pure (.of_children within))

theorem hashPair (nests : WithinNest bound nest) :
    Yields (WithinPair (bound + 1)) (Parser.hashPair nest) := by
  refine .after (Runs.laws.isAt _) fun label => .ite ?_ ?_
  · refine .after .advance fun name => keyedValue nests ?_
    exact .leaf rfl
  · refine (nests _).bind fun key within => .after Runs.laws.skipNewLines fun _ => ?_
    exact .expect _ (keyedValue nests (within.mono (Nat.le_succ bound)))

theorem hash (nests : WithinNest bound nest) :
    Yields (Node.Within (bound + 2)) (Parser.hash nest) := by
  refine .seq .advance ?_
  refine ((Yields.list (p := WithinPair (bound + 1)) ?_).withNoDo false).bind
    fun pairs within => ?_
  · refine .after Runs.laws.skipNewLines fun _ => .after (Runs.laws.isAt _) fun closed => ?_
    refine .ite (.pure trivial) ((hashPair nests).bind fun pair within => ?_)
    refine .after Runs.laws.skipNewLines fun _ => .after (Runs.laws.eat _) fun more => ?_
    exact .ite (.pure within) (.pure within)
  · exact .expect _ (.pure (.of_children (allWithin_flatMap.mpr within)))

theorem array (nests : WithinNest bound nest) :
    Yields (Node.Within (bound + 3)) (Parser.array nest) :=
  .seq .advance ((closedArguments nests _).bind fun _ within => .pure (.of_children within))

theorem punctuated (nests : WithinNest bound nest) (p : Punct) :
    Yields (Node.Within (bound + 5)) (Parser.punctuated nest p) := by
  unfold Parser.punctuated
  split
  · exact constant nests
  · exact (group nests).weaken fun _ within => within.mono (by omega)
  · exact (array nests).weaken fun _ within => within.mono (by omega)
  · exact (hash nests).weaken fun _ within => within.mono (by omega)
  · exact (arrowLambda nests).weaken fun _ within => within.mono (by omega)
  · exact .failAt _

theorem worded (nests : WithinNest bound nest) (k : Keyword) :
    Yields (Node.Within (bound + 5)) (Parser.worded nest k) := by
  unfold Parser.worded
  split
  iterate 6 exact leaf (.leaf rfl)
  iterate 3 exact jump (.leaf rfl)
  iterate 2 exact conditional nests
  iterate 2 exact (loop nests).weaken fun _ within => within.mono (by omega)
  · exact (switch nests).weaken fun _ within => within.mono (by omega)
  · exact (guarded nests).weaken fun _ within => within.mono (by omega)
  · exact method nests
  · exact (classDecl nests).weaken fun _ within => within.mono (by omega)
  · exact (moduleDecl nests).weaken fun _ within => within.mono (by omega)
  · exact aliasDecl
  · exact (handBack nests).weaken fun _ within => within.mono (by omega)
  · exact (handOver nests).weaken fun _ within => within.mono (by omega)
  · exact .failAt _

theorem primary (nests : WithinNest bound nest) :
    Yields (Node.Within (bound + 5)) (Parser.primary nest) := by
  refine .after Runs.laws.kind fun kind => ?_
  split
  · exact literal _
  iterate 3 exact .after .advance fun _ => .pure (.leaf rfl)
  · exact identifier nests
  · exact constant nests
  · exact punctuated nests _
  · exact worded nests _
  · exact .failAt _

/-- What follows a receiver has the receiver as its front. -/
theorem postfixStep (nests : WithinNest bound nest) {receiver : Node}
    (within : receiver.Within (bound + 5)) :
    Yields (fun built => ∀ node ∈ built, node.Within (bound + 5))
      (Parser.postfixStep nest receiver) := by
  have called : Yields (fun built => ∀ node ∈ built, node.Within (bound + 5))
      (some <$> Parser.methodCall nest receiver) :=
    (methodCall nests within).map _ fun _ => forall_mem_some
  refine .after .current fun token => ?_
  split
  iterate 2 exact .seq .advance (.after Runs.laws.skipNewLines fun _ => called)
  · exact .ite (.pure forall_mem_none) (.seq .advance called)
  · refine .ite (.seq .advance ((closedArguments nests _).bind fun args arguments => ?_))
      (.pure forall_mem_none)
    exact .pure (forall_mem_some (within_methodCall within (arguments.mono (by omega)) _))
  · exact .pure forall_mem_none

theorem postfixed (nests : WithinNest bound nest) :
    Yields (Node.Within (bound + 5)) (Parser.postfixed nest) :=
  (primary nests).bind fun _ within => .chain (fun _ built => postfixStep nests built) within

/-- An operator has its left operand as its front. -/
theorem within_operatorCall {lhs rhs : Node} (left : lhs.Within (bound + 1))
    (right : rhs.Within bound) (operator : String) :
    (Node.operatorCall lhs operator rhs).Within (bound + 1) :=
  within_methodCall left (by simpa using right) operator

theorem power (nests : WithinNest bound nest) :
    Yields (Node.Within (bound + 5)) (Parser.power nest) := by
  refine (postfixed nests).bind fun base within => .after (Runs.laws.eat _) fun found => ?_
  refine .ite (.after Runs.laws.skipNewLines fun _ => ?_) (.pure within)
  refine (nests _).bind fun _ exponent => .pure ?_
  exact within_operatorCall within (exponent.mono (by omega)) _

theorem unary (nests : WithinNest bound nest) :
    Yields (Node.Within (bound + 5)) (Parser.unary nest) := by
  refine .after Runs.laws.kind fun kind => ?_
  split
  · exact power nests
  · refine .seq .advance ((nests _).bind fun operand within => .pure (.of_children ?_))
    exact allWithin_cons.mpr ⟨within.mono (by omega), allWithin_nil⟩

theorem binaryStep (nests : WithinNest bound nest) (above : Precedence) {lhs : Node}
    (left : lhs.Within (bound + 5)) :
    Yields (fun built => ∀ node ∈ built, node.Within (bound + 5))
      (Parser.binaryStep nest above lhs) := by
  refine .after Runs.laws.kind fun kind => ?_
  split
  · exact .pure forall_mem_none
  · refine .ite (.pure forall_mem_none) (.after .advance fun operator => ?_)
    refine .after Runs.laws.skipNewLines fun _ => (nests _).bind fun rhs right => .pure ?_
    exact forall_mem_some (within_operatorCall left (right.mono (by omega)) _)

theorem binary (nests : WithinNest bound nest) (above : Precedence) :
    Yields (Node.Within (bound + 5)) (Parser.binary nest above) :=
  (unary nests).bind fun _ within => .chain (fun _ built => binaryStep nests above built) within

theorem range (nests : WithinNest bound nest) :
    Yields (Node.Within (bound + 6)) (Parser.range nest) := by
  refine (binary nests _).bind fun first start => .after Runs.laws.kind fun kind => ?_
  refine .ite (.seq .advance (.after Runs.laws.skipNewLines fun _ => ?_)) (.pure ?_)
  · refine (binary nests _).bind fun last stop => .pure (.of_children ?_)
    simp [Node.children, start, stop]
  · exact start.mono (Nat.le_succ _)

theorem negation (nests : WithinNest bound nest) :
    Yields (Node.Within (bound + 6)) (Parser.negation nest) := by
  refine .after (Runs.laws.eat _) fun found => .ite ?_ (range nests)
  refine (nests _).bind fun operand within => .pure (.of_children ?_)
  exact allWithin_cons.mpr ⟨within.mono (by omega), allWithin_nil⟩

/-- A weak logical operator has its left operand as its front. -/
theorem weakLogicalStep (nests : WithinNest bound nest) {lhs : Node}
    (left : lhs.Within (bound + 7)) :
    Yields (fun built => ∀ node ∈ built, node.Within (bound + 7))
      (Parser.weakLogicalStep nest lhs) := by
  have rest (op : WeakOp) : Yields (fun built => ∀ node ∈ built, node.Within (bound + 7)) (do
      discard Parser.advance
      Parser.skipNewLines
      return some (Node.weakLogical op lhs (← Parser.negation nest))) := by
    refine .seq .advance (.after Runs.laws.skipNewLines fun _ => ?_)
    refine (negation nests).bind fun rhs right => .pure (forall_mem_some ?_)
    exact .intro (forall_mem_some left) (allWithin_cons.mpr ⟨right, allWithin_nil⟩)
  refine .after Runs.laws.kind fun kind => ?_
  dsimp only
  split
  · exact .after (.pure trivial) rest
  · exact .after (.pure trivial) rest
  · exact .pure forall_mem_none

theorem weakLogical (nests : WithinNest bound nest) :
    Yields (Node.Within (bound + 7)) (Parser.weakLogical nest) :=
  (negation nests).bind fun _ within =>
    .chain (fun _ built => weakLogicalStep nests built) (within.mono (Nat.le_succ _))

theorem ternary (nests : WithinNest bound nest) :
    Yields (Node.Within (bound + 8)) (Parser.ternary nest) := by
  refine (weakLogical nests).bind fun condition asked => .after (Runs.laws.eat _) fun found => ?_
  refine .ite (.after Runs.laws.skipNewLines fun _ => ?_) (.pure (asked.mono (Nat.le_succ _)))
  refine (nests _).bind fun ifTrue yes => .after Runs.laws.skipNewLines fun _ => ?_
  refine .expect _ (.after Runs.laws.skipNewLines fun _ => ?_)
  refine (nests _).bind fun ifFalse no => .pure (.of_children ?_)
  have deeper : bound ≤ bound + 7 := Nat.le_add_right _ _
  simp [Node.children, asked, yes.mono deeper, no.mono deeper]

theorem assignedValue (nests : WithinNest bound nest) :
    Yields (Node.Within (bound + 1)) (Parser.assignedValue nest) := by
  refine (nests _).bind fun value within => .after (Runs.laws.eat _) fun found => ?_
  refine .ite ((nests _).bind fun fallback other => .pure (.of_children ?_)) (.pure ?_)
  · simp [Node.children, within, other]
  · exact within.mono (Nat.le_succ _)

/-- An assignment has its target's parts and the value. -/
theorem within_assign {target value : Node} (left : target.Within bound)
    (right : value.Within bound) : (assign target value).Within (bound + 1) := by
  unfold assign
  split
  · have parts := left.children
    simp only [Node.children, allWithin_append] at parts
    obtain ⟨⟨target, args⟩, block⟩ := parts
    apply Node.Within.of_children
    simp only [Node.children, allWithin_append, allWithin_cons]
    exact ⟨⟨target, args, right, allWithin_nil⟩, block⟩
  · exact .of_children (by simp [Node.children, left, right])

theorem assignment (nests : WithinNest bound nest) :
    Yields (Node.Within (bound + 9)) (Parser.assignment nest) := by
  refine (ternary nests).bind fun target left => .after Runs.laws.kind fun kind => ?_
  refine .ite (.after .advance fun operator => ?_) (.pure (left.mono (Nat.le_succ _)))
  refine .after Runs.laws.skipNewLines fun _ => (assignedValue nests).bind fun value deep => ?_
  have right := deep.mono (show bound + 1 ≤ bound + 8 by omega)
  refine .ite (.pure (within_operatorCall (left.mono (Nat.le_succ _)) right _)) ?_
  refine .unlessThen (.fail _ _) (.ite (.pure (.of_children ?_)) (.pure (within_assign left right)))
  simp [Node.children, left, right]

/-- A level of nesting goes at most nine steps further inside than what nests in it. -/
theorem atLevel (nests : WithinNest bound nest) (level : Level) :
    Yields (Node.Within (bound + 9)) (Parser.atLevel nest level) := by
  cases level with
  | expression => exact assignment nests
  | ternary => exact (ternary nests).weaken fun _ within => within.mono (by omega)
  | negation => exact (negation nests).weaken fun _ within => within.mono (by omega)
  | binary above => exact (binary nests above).weaken fun _ within => within.mono (by omega)
  | unary => exact (unary nests).weaken fun _ within => within.mono (by omega)
  | postfixed => exact (postfixed nests).weaken fun _ within => within.mono (by omega)

end RubySyntax.Grammar.Depth
