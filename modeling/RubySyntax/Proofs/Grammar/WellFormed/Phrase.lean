import RubySyntax.Grammar.Call
import RubySyntax.Proofs.Grammar.Phrase
import RubySyntax.Proofs.Grammar.Yields

namespace RubySyntax.Grammar.WellFormed

open RubySyntax.Tree
open Token (Kind Punct Keyword)
open Grammar.Parser (Argument bind_eq_ok discard_eq_ok advance_eq_ok kind_of_advance)

abbrev SoundNest (nest : Nest) : Prop := ∀ level, Yields Node.Sound (nest level)

variable {nest : Nest}

/-- A target of a list has the parts of the node that it is made of. -/
theorem sound_listTarget {node : Node} (sound : node.Sound) : (listTarget node).Sound := by
  unfold listTarget
  split
  · exact .intro sound.built sound.children
  · exact sound

/-- A target of a list with all that it is made of. -/
def SoundTarget (target : Node) : Prop := target.IsTarget ∧ target.Sound

theorem acceptTarget {node : Node} (sound : node.Sound) :
    Yields SoundTarget (Parser.acceptTarget node) := by
  unfold Parser.acceptTarget
  by_cases accepted : isListTarget node = true
  · rw [if_pos accepted]
    exact .pure ⟨Node.isTarget_listTarget accepted, sound_listTarget sound⟩
  · rw [if_neg accepted]
    exact (Yields.fail (p := fun _ => False) _ _).bind fun _ never => never.elim

theorem splatOrExpression (nests : SoundNest nest) :
    Yields Node.Sound (Parser.splatOrExpression nest) := by
  refine .after (Runs.laws.eat _) fun splat => .ite ?_ (nests _)
  exact (nests _).bind fun value sound => .pure (.intro trivial (by simpa [Node.children]))

theorem keyedValue (nests : SoundNest nest) {key : Node} (sound : key.Sound) :
    Yields HashPair.Sound (Parser.keyedValue nest key) :=
  .after Runs.laws.skipNewLines fun _ => (nests _).bind fun _ value => .pure ⟨sound, value⟩

def SoundArgument : Argument → Prop
  | .positional value => value.Sound
  | .keyed pair => pair.Sound

theorem argument (nests : SoundNest nest) : Yields SoundArgument (Parser.argument nest) := by
  refine .after Runs.laws.kind fun kind => ?_
  split
  · refine .after .advance fun label => ?_
    have key : (Node.symbol label.text).Sound := .intro trivial allSound_nil
    exact (keyedValue nests key).bind fun _ pair => .pure pair
  · refine .seq .advance ((nests _).bind fun value sound => ?_)
    exact .pure (sound.methodCall allSound_nil _)
  · refine (splatOrExpression nests).bind fun value sound => ?_
    refine .after (Runs.laws.eat _) fun arrow => .ite ?_ (.pure sound)
    exact (keyedValue nests sound).bind fun _ pair => .pure pair

theorem passed {arguments : List Argument} (sound : ∀ argument ∈ arguments, SoundArgument argument) :
    AllSound (Argument.passed arguments) := by
  have values : AllSound (arguments.filterMap Argument.positional?) := fun value member =>
    sound _ (Argument.mem_positional.mp member)
  have pairs : ∀ pair ∈ arguments.filterMap Argument.keyed?, AllSound pair.nodes := by
    intro pair member
    obtain ⟨key, value⟩ := sound _ (Argument.mem_keyed.mp member)
    simp [HashPair.nodes, key, value]
  refine allSound_append.mpr ⟨values, ?_⟩
  split
  · exact allSound_nil
  · refine allSound_cons.mpr ⟨.intro trivial ?_, allSound_nil⟩
    exact allSound_flatMap.mpr pairs

theorem openArguments (nests : SoundNest nest) : Yields AllSound (Parser.openArguments nest) :=
  (argument nests).commaSeparated.map _ fun _ read => passed read.2

theorem closedArguments (nests : SoundNest nest) (close : Punct) :
    Yields AllSound (Parser.closedArguments nest close) := by
  refine ((Yields.list (p := SoundArgument) ?_).withNoDo false).bind fun arguments sound => ?_
  · refine .after Runs.laws.skipNewLines fun _ => .after (Runs.laws.isAt _) fun closed => ?_
    refine .ite (.pure trivial) ((argument nests).bind fun argument sound => ?_)
    refine .after Runs.laws.skipNewLines fun _ => .after Runs.laws.eatComma fun more => ?_
    exact .ite (.pure sound) (.pure sound)
  · exact .expect _ (.pure (passed sound))

theorem target (nests : SoundNest nest) : Yields SoundTarget (Parser.target nest) := by
  refine .after (Runs.laws.eat _) fun splat => .ite ?_ ?_
  · exact (nests _).bind fun value sound => acceptTarget (.intro trivial (by simpa [Node.children]))
  · exact (nests _).bind fun value sound => acceptTarget sound

theorem multipleAssignment (nests : SoundNest nest) {first : Node} (sound : first.Sound) :
    Yields Node.Sound (Parser.multipleAssignment nest first) := by
  refine (acceptTarget sound).bind fun first start => ?_
  refine (target nests).commaFollowed.bind fun targets (all : ∀ target ∈ targets, SoundTarget target) => ?_
  refine .after (Runs.laws.eat _) fun assigns => .unlessThen (.fail _ _) ?_
  refine .after Runs.laws.skipNewLines fun _ => ?_
  refine (splatOrExpression nests).bind fun value single => ?_
  refine (splatOrExpression nests).commaFollowed.bind fun values (more : AllSound values) => ?_
  have written : ∀ target ∈ first :: targets, SoundTarget target :=
    List.forall_mem_cons.mpr ⟨start, all⟩
  have left : (Node.array (first :: targets)).Sound :=
    .intro trivial fun target member => (written target member).2
  have right : (if values.isEmpty then value else .array (value :: values)).Sound := by
    split
    · exact single
    · exact .intro trivial (by simp [Node.children, single, more])
  refine .pure (.intro ?_ (allSound_cons.mpr ⟨left, allSound_cons.mpr ⟨right, allSound_nil⟩⟩))
  rintro _ ⟨rfl⟩ target member
  exact (written target member).1

theorem plainStatement (nests : SoundNest nest) :
    Yields Node.Sound (Parser.plainStatement nest) := by
  refine .after (Runs.laws.eat _) fun splat => .ite ?_ ?_
  · refine (nests _).bind fun value sound => ?_
    have target : (Node.splat value).Sound := .intro trivial (by simpa [Node.children])
    refine .after (Runs.laws.isAt _) fun comma => .after (Runs.laws.isAt _) fun assigns => ?_
    exact .ite (multipleAssignment nests target) (.pure target)
  · refine (nests _).bind fun expression sound => .after (Runs.laws.isAt _) fun comma => ?_
    exact .ite (multipleAssignment nests sound) (.pure sound)

theorem sound_guarding (negated : Bool) {condition : Node} (sound : condition.Sound) :
    (Parser.guarding negated condition).Sound := by
  unfold Parser.guarding
  split
  · exact .intro trivial (by simpa [Node.children])
  · exact sound

theorem modifier (nests : SoundNest nest) {node : Node} (sound : node.Sound) :
    Yields (fun built => ∀ node ∈ built, node.Sound) (Parser.modifier nest node) := by
  refine .after Runs.laws.kind fun kind => ?_
  split
  iterate 2
    refine .after .advance fun word => ?_
    dsimp only
    refine (nests _).bind fun condition asked => .pure (forall_mem_some ?_)
    have guard := sound_guarding (word.kind == .keyword .unlessKw) asked
    exact .intro (.inl rfl) (by simp [Node.children, guard, sound])
  iterate 2
    refine .after .advance fun word => ?_
    dsimp only
    refine (nests _).bind fun condition asked => .pure (forall_mem_some ?_)
    have guard := sound_guarding (word.kind == .keyword .untilKw) asked
    exact .intro trivial (by simp [Node.children, guard, sound])
  · refine .seq .advance ((nests _).bind fun fallback guard => .pure (forall_mem_some ?_))
    exact .intro trivial (by simp [Node.children, guard, sound])
  · exact .pure forall_mem_none

theorem statement (nests : SoundNest nest) : Yields Node.Sound (Parser.statement nest) :=
  (plainStatement nests).bind fun _ sound => .chain (fun _ built => modifier nests built) sound

theorem statements (nests : SoundNest nest) (ends : List Kind) :
    Yields AllSound (Parser.statements nest ends) := by
  refine .list (.after Runs.laws.skipSeparators fun _ => ?_)
  refine .after Runs.laws.kind fun first => .after Runs.laws.kind fun second => ?_
  refine .ite (.pure trivial) ((statement nests).bind fun node sound => ?_)
  refine .after Runs.laws.kind fun kind => .ite (.pure sound) ?_
  exact .ite (.pure sound) .unexpected

theorem blockParam : Yields Node.IsBlockParam Parser.blockParam := by
  refine .after Runs.laws.kind fun mark => .whenThen (.discard .advance) ?_
  refine .after (Runs.laws.isAt _) fun found => .unlessThen (.failAt _) ?_
  refine .after .advance fun name => ?_
  dsimp only
  split
  · exact .pure (.splat name.text)
  · exact .pure (.block name.text)
  · exact .pure (.reference name.text)

abbrev AreParams (params : List Node) : Prop := ∀ param ∈ params, param.IsBlockParam

theorem blockParams : Yields AreParams Parser.blockParams := by
  refine .after (Runs.laws.eat _) fun empty => .ite (.pure nofun) ?_
  refine .after (Runs.laws.eat _) fun opened => .ite ?_ (.pure nofun)
  refine (Yields.list (p := Node.IsBlockParam) ?_).bind fun params valid =>
    .expect _ (.pure valid)
  refine .after (Runs.laws.isAt _) fun closed => .ite (.pure trivial) ?_
  refine blockParam.bind fun param valid => .after (Runs.laws.eat _) fun more => ?_
  exact .ite (.pure valid) (.pure valid)

theorem lambdaParams : Yields AreParams Parser.lambdaParams := by
  refine .after (Runs.laws.eat _) fun opened => .ite ?_ ?_
  · refine (Yields.list (p := Node.IsBlockParam) ?_).bind fun params valid =>
      .expect _ (.pure valid)
    refine .after Runs.laws.skipNewLines fun _ => .after (Runs.laws.isAt _) fun closed => ?_
    refine .ite (.pure trivial) (blockParam.bind fun param valid => ?_)
    refine .after Runs.laws.skipNewLines fun _ => .after (Runs.laws.eat _) fun more => ?_
    exact .ite (.pure valid) (.pure valid)
  · refine .list (.after (Runs.laws.isAt _) fun found => .ite ?_ (.pure trivial))
    refine blockParam.bind fun param valid => .after (Runs.laws.eat _) fun more => ?_
    exact .ite (.pure valid) (.pure valid)

abbrev SoundBlock (block? : Option (Tree.Block Node)) : Prop := ∀ block ∈ block?, block.Sound

theorem blockUpTo (nests : SoundNest nest) (close : Kind) :
    Yields SoundBlock (Parser.blockUpTo nest close) := by
  refine .seq .advance (blockParams.bind fun params valid => ?_)
  refine ((statements nests _).withNoDo false).bind fun body sound => ?_
  exact .expect _ (.pure (forall_mem_some ⟨valid, sound⟩))

theorem block (nests : SoundNest nest) : Yields SoundBlock (Parser.block nest) := by
  rw [Parser.block_eq]
  refine .after Runs.laws.kind fun kind => .ite ?_ ?_
  · exact .after .noDo fun noDo => .ite (.pure forall_mem_none) (blockUpTo nests _)
  · exact .ite (blockUpTo nests _) (.pure forall_mem_none)

theorem arrowLambda (nests : SoundNest nest) : Yields Node.Sound (Parser.arrowLambda nest) := by
  refine .seq .advance (lambdaParams.bind fun params valid => ?_)
  refine ((block nests).withNoDo false).bind fun block? sound => ?_
  split
  · rename_i block
    obtain ⟨inner, body⟩ := sound block rfl
    have all : Tree.Block.Sound ⟨params ++ block.params, block.body⟩ :=
      ⟨List.forall_mem_append.mpr ⟨valid, inner⟩, body⟩
    exact .pure (.intro all.1 all.nodes)
  · exact .after .current fun _ => .fail _ _

theorem sound_call {target? : Option Node} {args : List Node} {block? : Option (Tree.Block Node)}
    (target : ∀ node ∈ target?, node.Sound) (arguments : AllSound args)
    (block : SoundBlock block?) (name : String) :
    (Node.call target? name args block?).Sound := by
  refine .intro (fun inner member => (block inner member).1) ?_
  simp only [Node.children, allSound_append, allSound_toList, allSound_flatMap]
  refine ⟨⟨target, arguments⟩, fun inner member => ?_⟩
  exact (block inner (Option.mem_toList.mp member)).nodes

theorem callRest (nests : SoundNest nest) {target? : Option Node}
    (target : ∀ node ∈ target?, node.Sound) (name : String) :
    Yields Node.Sound (Parser.callRest nest target? name) := by
  have rest (args : List Node) (arguments : AllSound args) : Yields Node.Sound (do
      return Node.call target? name args (← Parser.block nest)) :=
    (block nests).bind fun block sound => .pure (sound_call target arguments sound name)
  refine .after (Runs.laws.isAtGlued _ nofun) fun opened => .after .current fun token => ?_
  refine .ite (.seq .advance ((closedArguments nests _).bind rest)) ?_
  refine .ite (((openArguments nests).withNoDo true).bind rest) ?_
  exact (Yields.pure allSound_nil).bind rest

theorem methodCall (nests : SoundNest nest) {receiver : Node} (sound : receiver.Sound) :
    Yields Node.Sound (Parser.methodCall nest receiver) := by
  refine .after Runs.laws.kind fun kind => .unlessThen (.failAt _) ?_
  exact .after .advance fun name => callRest nests (forall_mem_some sound) _

theorem sound_functionCall {args : List Node} (arguments : AllSound args) (name : String) :
    (Node.functionCall name args).Sound := sound_call forall_mem_none arguments forall_mem_none name

theorem plainIdentifier (nests : SoundNest nest) (name : String) :
    Yields Node.Sound (Parser.plainIdentifier nest name) := by
  refine .after (Runs.laws.isAtGlued _ nofun) fun opened => .after .current fun next => ?_
  refine .after Runs.laws.startsBlock fun blockFollows => .ite ?_ (.ite (.pure ?_) (.pure ?_))
  · exact callRest nests forall_mem_none name
  · exact sound_functionCall allSound_nil name
  · exact Node.sound_reference name

theorem identifier (nests : SoundNest nest) : Yields Node.Sound (Parser.identifier nest) := by
  refine .after .advance fun name => ?_
  dsimp only
  split
  · refine (block nests).bind fun block? sound => ?_
    split
    · rename_i block
      exact .pure (.intro (sound block rfl).1 (sound block rfl).nodes)
    · exact plainIdentifier nests name.text
  · exact plainIdentifier nests name.text

theorem named_text {cursor : Cursor} (named : cursor.Named) (here : cursor.token.kind = .constant) :
    NamesConstant cursor.token.text := named cursor.token (List.mem_cons_self ..) here

theorem constantName : Yields NamesConstant Parser.constantName := by
  intro scope cursor name final named done
  obtain ⟨found, middle, at?, rest⟩ := bind_eq_ok done
  cases at?
  split at rest
  · rename_i here
    obtain ⟨token, middle, moved, same⟩ := bind_eq_ok rest
    cases same
    obtain ⟨rfl, _⟩ := advance_eq_ok moved
    exact ⟨named_text named (beq_iff_eq.mp here), (Yields.advance _ _ _ _ named moved).2⟩
  · obtain ⟨_, _, _, failed⟩ := bind_eq_ok rest
    obtain ⟨_, _, failed, _⟩ := bind_eq_ok failed
    cases failed

theorem leadingConstant : Yields ConstantPath.Named Parser.leadingConstant := by
  refine .after (Runs.laws.eat _) fun isGlobal => constantName.bind fun name constant => .pure ?_
  exact ⟨constant, by simp⟩

theorem named_push {path : ConstantPath} (named : path.Named) (constant : NamesConstant name) :
    (path.push name).Named := by
  obtain ⟨last, outer⟩ := named
  refine ⟨constant, List.forall_mem_append.mpr ⟨outer, ?_⟩⟩
  simpa using last

theorem constantPath : Yields ConstantPath.Named Parser.constantPath := by
  refine leadingConstant.bind fun path named => .chain (fun path named => ?_) named
  refine .after (Runs.laws.eat _) fun more => .ite ?_ (.pure forall_mem_none)
  exact constantName.bind fun name constant => .pure (forall_mem_some (named_push named constant))

/-- The step from a path to a constant in it. -/
theorem innerConstant {path : ConstantPath} (named : path.Named) :
    Yields (fun built => ∀ path ∈ built, path.Named) (do
      if (← Parser.isAtGlued Punct.scope) && (← Parser.nextKind) == some .constant then
        discard Parser.advance
        return some (path.push (← Parser.advance).text)
      return none) := by
  intro scope cursor built final tokens done
  obtain ⟨glued, _, first, rest⟩ := bind_eq_ok done
  cases first
  obtain ⟨next, _, first, rest⟩ := bind_eq_ok rest
  cases first
  split at rest
  · rename_i both
    obtain ⟨_, middle, passed, rest⟩ := bind_eq_ok rest
    obtain ⟨token, stop, moved, same⟩ := bind_eq_ok rest
    cases same
    obtain ⟨_, passed⟩ := discard_eq_ok passed
    have kept := (Yields.advance _ _ _ _ tokens passed).2
    have ahead := beq_iff_eq.mp (Bool.and_eq_true_iff.mp both).2
    obtain ⟨rfl, _⟩ := advance_eq_ok moved
    have name := named_text kept (kind_of_advance passed ahead)
    exact ⟨forall_mem_some (named_push named name), (Yields.advance _ _ _ _ kept moved).2⟩
  · cases rest
    exact ⟨forall_mem_none, tokens⟩

theorem sound_constantReference {path : ConstantPath} (named : path.Named) :
    (Parser.constantReference path).Sound := by
  unfold Parser.constantReference
  split
  · exact Node.sound_reference _
  · rename_i inside
    refine .intro ⟨named, ?_⟩ allSound_nil
    simp only [ConstantPath.isLone, Bool.and_eq_true, List.isEmpty_iff, Bool.not_eq_true'] at inside
    by_cases lone : path.outer = []
    · exact .inr (by simpa [lone] using inside)
    · exact .inl lone

theorem constant (nests : SoundNest nest) : Yields Node.Sound (Parser.constant nest) := by
  refine leadingConstant.bind fun path named => ?_
  refine (Yields.chain (fun _ named => innerConstant named) named).bind fun path named => ?_
  have reference := sound_constantReference named
  refine .after (Runs.laws.eatGlued _ nofun) fun scope => .ite (methodCall nests reference) ?_
  refine .after (Runs.laws.isAtGlued _ nofun) fun opened => ?_
  exact .ite (callRest nests forall_mem_none _) (.pure reference)

end RubySyntax.Grammar.WellFormed
