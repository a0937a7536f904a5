import RubySyntax.Grammar.Expression
import RubySyntax.Proofs.Grammar.Expression
import RubySyntax.Proofs.Grammar.WellFormed.Construct

namespace RubySyntax.Grammar.WellFormed

open RubySyntax.Tree
open Token (Kind Punct Keyword)

variable {nest : Nest}

theorem leaf {node : Node} (sound : node.Sound) : Yields Node.Sound (Parser.leaf node) :=
  .seq .advance (.pure sound)

theorem integerOf_le {literal : List Char} (read : Number.integerOf literal = .ok value) :
    value ≤ Number.maxInteger := by
  unfold Number.integerOf at read
  dsimp only at read
  split at read
  · cases read
  · split at read
    · cases read
      assumption
    · cases read

theorem integer : Yields Node.Sound Parser.integer := by
  refine .after .current fun token => ?_
  split
  · rename_i value read
    exact leaf (.intro (integerOf_le read) allSound_nil)
  · exact .fail _ _
  · exact .fail _ _

theorem float : Yields Node.Sound Parser.float := by
  refine .after .current fun token => ?_
  split
  · exact leaf (.intro trivial allSound_nil)
  · exact .fail _ _

theorem sound_wordList (text : String) : (Parser.wordList text).Sound := by
  refine .intro trivial fun word member => ?_
  obtain ⟨_, _, rfl⟩ := List.mem_map.mp member
  exact .intro trivial allSound_nil

theorem literal (kind : Token.LiteralKind) : Yields Node.Sound (Parser.literal kind) := by
  unfold Parser.literal
  cases kind with
  | integer => exact integer
  | float => exact float
  | character =>
    refine .after .current fun token => ?_
    split
    · exact leaf (.intro trivial allSound_nil)
    · exact .unexpected
  | wordList => exact .after .advance fun token => .pure (sound_wordList _)
  | _ => exact .after .advance fun token => .pure (.intro trivial allSound_nil)

theorem group (nests : SoundNest nest) : Yields Node.Sound (Parser.group nest) := by
  refine .seq .advance (((statements nests _).withNoDo false).bind fun body sound => ?_)
  exact .expect _ (.pure (.intro trivial sound))

theorem hashPair (nests : SoundNest nest) : Yields HashPair.Sound (Parser.hashPair nest) := by
  refine .after (Runs.laws.isAt _) fun label => .ite ?_ ?_
  · refine .after .advance fun name => keyedValue nests ?_
    exact .intro trivial allSound_nil
  · refine (nests _).bind fun key sound => .after Runs.laws.skipNewLines fun _ => ?_
    exact .expect _ (keyedValue nests sound)

theorem hash (nests : SoundNest nest) : Yields Node.Sound (Parser.hash nest) := by
  refine .seq .advance ?_
  refine ((Yields.list (p := HashPair.Sound) ?_).withNoDo false).bind fun pairs sound => ?_
  · refine .after Runs.laws.skipNewLines fun _ => .after (Runs.laws.isAt _) fun closed => ?_
    refine .ite (.pure trivial) ((hashPair nests).bind fun pair sound => ?_)
    refine .after Runs.laws.skipNewLines fun _ => .after (Runs.laws.eat _) fun more => ?_
    exact .ite (.pure sound) (.pure sound)
  · refine .expect _ (.pure (.intro trivial (allSound_flatMap.mpr ?_)))
    intro pair member
    obtain ⟨key, value⟩ := sound pair member
    simp [HashPair.nodes, key, value]

theorem array (nests : SoundNest nest) : Yields Node.Sound (Parser.array nest) :=
  .seq .advance ((closedArguments nests _).bind fun _ sound => .pure (.intro trivial sound))

theorem punctuated (nests : SoundNest nest) (p : Punct) :
    Yields Node.Sound (Parser.punctuated nest p) := by
  unfold Parser.punctuated
  split
  · exact constant nests
  · exact group nests
  · exact array nests
  · exact hash nests
  · exact arrowLambda nests
  · exact .failAt _

theorem worded (nests : SoundNest nest) (k : Keyword) :
    Yields Node.Sound (Parser.worded nest k) := by
  unfold Parser.worded
  split
  iterate 6 exact leaf (.intro trivial allSound_nil)
  iterate 3 exact jump (.intro trivial allSound_nil)
  iterate 2 exact conditional nests
  iterate 2 exact loop nests
  · exact switch nests
  · exact guarded nests
  · exact method nests
  · exact classDecl nests
  · exact moduleDecl nests
  · exact aliasDecl
  · exact handBack nests
  · exact handOver nests
  · exact .failAt _

theorem primary (nests : SoundNest nest) : Yields Node.Sound (Parser.primary nest) := by
  refine .after Runs.laws.kind fun kind => ?_
  split
  · exact literal _
  iterate 3 exact .after .advance fun _ => .pure (.intro trivial allSound_nil)
  · exact identifier nests
  · exact constant nests
  · exact punctuated nests _
  · exact worded nests _
  · exact .failAt _

theorem postfixStep (nests : SoundNest nest) {receiver : Node} (sound : receiver.Sound) :
    Yields (fun built => ∀ node ∈ built, node.Sound) (Parser.postfixStep nest receiver) := by
  have called : Yields (fun built => ∀ node ∈ built, node.Sound)
      (some <$> Parser.methodCall nest receiver) :=
    (methodCall nests sound).map _ fun _ => forall_mem_some
  refine .after .current fun token => ?_
  split
  iterate 2 exact .seq .advance (.after Runs.laws.skipNewLines fun _ => called)
  · exact .ite (.pure forall_mem_none) (.seq .advance called)
  · refine .ite (.seq .advance ((closedArguments nests _).bind fun args arguments => ?_))
      (.pure forall_mem_none)
    exact .pure (forall_mem_some (sound.methodCall arguments _))
  · exact .pure forall_mem_none

theorem postfixed (nests : SoundNest nest) : Yields Node.Sound (Parser.postfixed nest) :=
  (primary nests).bind fun _ sound => .chain (fun _ built => postfixStep nests built) sound

/-- An operator is a call on its left operand. -/
theorem sound_operatorCall {lhs rhs : Node} (left : lhs.Sound) (right : rhs.Sound)
    (operator : String) : (Node.operatorCall lhs operator rhs).Sound :=
  left.methodCall (by simpa using right) operator

theorem power (nests : SoundNest nest) : Yields Node.Sound (Parser.power nest) := by
  refine (postfixed nests).bind fun base sound => .after (Runs.laws.eat _) fun found => ?_
  refine .ite (.after Runs.laws.skipNewLines fun _ => ?_) (.pure sound)
  exact (nests _).bind fun _ exponent => .pure (sound_operatorCall sound exponent _)

theorem unary (nests : SoundNest nest) : Yields Node.Sound (Parser.unary nest) := by
  refine .after Runs.laws.kind fun kind => ?_
  split
  · exact power nests
  · refine .seq .advance ((nests _).bind fun operand sound => .pure ?_)
    exact .intro trivial (by simpa [Node.children])

theorem binaryStep (nests : SoundNest nest) (above : Precedence) {lhs : Node} (left : lhs.Sound) :
    Yields (fun built => ∀ node ∈ built, node.Sound) (Parser.binaryStep nest above lhs) := by
  refine .after Runs.laws.kind fun kind => ?_
  split
  · exact .pure forall_mem_none
  · refine .ite (.pure forall_mem_none) (.after .advance fun operator => ?_)
    refine .after Runs.laws.skipNewLines fun _ => (nests _).bind fun rhs right => .pure ?_
    exact forall_mem_some (sound_operatorCall left right _)

theorem binary (nests : SoundNest nest) (above : Precedence) :
    Yields Node.Sound (Parser.binary nest above) :=
  (unary nests).bind fun _ sound => .chain (fun _ built => binaryStep nests above built) sound

theorem range (nests : SoundNest nest) : Yields Node.Sound (Parser.range nest) := by
  refine (binary nests _).bind fun first sound => .after Runs.laws.kind fun kind => ?_
  refine .ite (.seq .advance (.after Runs.laws.skipNewLines fun _ => ?_)) (.pure sound)
  refine (binary nests _).bind fun last stop => .pure (.intro trivial ?_)
  simp [Node.children, sound, stop]

theorem negation (nests : SoundNest nest) : Yields Node.Sound (Parser.negation nest) := by
  refine .after (Runs.laws.eat _) fun found => .ite ?_ (range nests)
  exact (nests _).bind fun operand sound => .pure (.intro trivial (by simpa [Node.children]))

theorem weakLogicalStep (nests : SoundNest nest) {lhs : Node} (left : lhs.Sound) :
    Yields (fun built => ∀ node ∈ built, node.Sound) (Parser.weakLogicalStep nest lhs) := by
  have rest (op : WeakOp) : Yields (fun built => ∀ node ∈ built, node.Sound) (do
      discard Parser.advance
      Parser.skipNewLines
      return some (Node.weakLogical op lhs (← Parser.negation nest))) := by
    refine .seq .advance (.after Runs.laws.skipNewLines fun _ => ?_)
    refine (negation nests).bind fun rhs right => .pure (forall_mem_some ?_)
    exact .intro trivial (by simp [Node.children, left, right])
  refine .after Runs.laws.kind fun kind => ?_
  dsimp only
  split
  · exact .after (.pure trivial) rest
  · exact .after (.pure trivial) rest
  · exact .pure forall_mem_none

theorem weakLogical (nests : SoundNest nest) : Yields Node.Sound (Parser.weakLogical nest) :=
  (negation nests).bind fun _ sound => .chain (fun _ built => weakLogicalStep nests built) sound

theorem ternary (nests : SoundNest nest) : Yields Node.Sound (Parser.ternary nest) := by
  refine (weakLogical nests).bind fun condition asked => .after (Runs.laws.eat _) fun found => ?_
  refine .ite (.after Runs.laws.skipNewLines fun _ => ?_) (.pure asked)
  refine (nests _).bind fun ifTrue yes => .after Runs.laws.skipNewLines fun _ => ?_
  refine .expect _ (.after Runs.laws.skipNewLines fun _ => ?_)
  refine (nests _).bind fun ifFalse no => .pure (.intro trivial ?_)
  simp [Node.children, asked, yes, no]

theorem assignedValue (nests : SoundNest nest) : Yields Node.Sound (Parser.assignedValue nest) := by
  refine (nests _).bind fun value sound => .after (Runs.laws.eat _) fun found => ?_
  refine .ite ((nests _).bind fun fallback other => .pure (.intro trivial ?_)) (.pure sound)
  simp [Node.children, sound, other]

/-- An assignment has its target's parts and the value. -/
theorem sound_assign {target value : Node} (assignable : isAssignable target = true)
    (left : target.Sound) (right : value.Sound) : (assign target value).Sound := by
  unfold assign
  split
  · have parts := left.children
    simp only [Node.children, allSound_append] at parts
    obtain ⟨⟨target, args⟩, block⟩ := parts
    refine .intro left.built ?_
    simp only [Node.children, allSound_append, allSound_cons]
    exact ⟨⟨target, args, right, allSound_nil⟩, block⟩
  · refine .intro ?_ (by simp [Node.children, left, right])
    rintro targets rfl
    cases assignable

theorem assignment (nests : SoundNest nest) : Yields Node.Sound (Parser.assignment nest) := by
  refine (ternary nests).bind fun target left => .after Runs.laws.kind fun kind => ?_
  refine .ite (.after .advance fun operator => ?_) (.pure left)
  refine .after Runs.laws.skipNewLines fun _ => (assignedValue nests).bind fun value right => ?_
  refine .ite (.pure (sound_operatorCall left right _)) ?_
  dsimp only
  by_cases assignable : isAssignable target = true
  · rw [if_pos assignable]
    refine .ite (.pure (.intro assignable ?_)) (.pure (sound_assign assignable left right))
    simp [Node.children, left, right]
  · rw [if_neg assignable]
    exact (Yields.fail (p := fun _ => False) _ _).bind fun _ never => never.elim

/-- What nests is sound, so the grammar is. -/
theorem atLevel (nests : SoundNest nest) (level : Level) :
    Yields Node.Sound (Parser.atLevel nest level) := by
  cases level with
  | expression => exact assignment nests
  | ternary => exact ternary nests
  | negation => exact negation nests
  | binary above => exact binary nests above
  | unary => exact unary nests
  | postfixed => exact postfixed nests

end RubySyntax.Grammar.WellFormed
