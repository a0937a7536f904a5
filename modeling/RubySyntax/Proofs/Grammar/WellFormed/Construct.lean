import RubySyntax.Proofs.Grammar.Construct
import RubySyntax.Proofs.Grammar.WellFormed.Phrase

namespace RubySyntax.Grammar.WellFormed

open RubySyntax.Tree
open Token (Kind Punct Keyword)

variable {nest : Nest}

theorem condition (nests : SoundNest nest) (closing : Keyword) :
    Yields Node.Sound (Parser.condition nest closing) :=
  ((nests _).withNoDo true).bind fun _ sound => .seq (Runs.laws.eat _) (.pure sound)

theorem elseBody (nests : SoundNest nest) : Yields AllSound (Parser.elseBody nest) :=
  .after (Runs.laws.eat _) fun _ => .ite (statements nests _) (.pure allSound_nil)

structure SoundBranch (branch : Node) : Prop where
  sound : branch.Sound
  plain : ∃ condition body, branch = .conditional condition body []

theorem soundBranch {condition : Node} {body : List Node} (asked : condition.Sound)
    (sound : AllSound body) : SoundBranch (.conditional condition body []) :=
  ⟨.intro (.inl rfl) (by simp [Node.children, asked, sound]), condition, body, rfl⟩

/-- Branches, the last of which is taken always. -/
theorem areBranches_concat {branches : List Node} (each : ∀ branch ∈ branches, SoundBranch branch)
    (body : List Node) : Node.AreBranches (branches ++ [Parser.always body]) := by
  refine .inr ⟨?_, body, List.getLast?_concat ..⟩
  intro branch member
  rcases List.mem_append.mp member with inside | last
  · exact (each branch inside).plain
  · exact ⟨_, body, List.mem_singleton.mp last⟩

theorem otherBranches (nests : SoundNest nest) :
    Yields (fun otherwise => Node.AreBranches otherwise ∧ AllSound otherwise)
      (Parser.otherBranches nest) := by
  have concat {branches : List Node} (each : ∀ branch ∈ branches, SoundBranch branch)
      {body : List Node} (sound : AllSound body) :
      Node.AreBranches (branches ++ [Parser.always body]) ∧
        AllSound (branches ++ [Parser.always body]) := by
    have last : SoundBranch (Parser.always body) :=
      soundBranch (.intro trivial allSound_nil) sound
    refine ⟨areBranches_concat each body, allSound_append.mpr ⟨?_, ?_⟩⟩
    · exact fun branch member => (each branch member).sound
    · simpa using last.sound
  refine (Yields.list (p := SoundBranch) ?_).bind fun branches each => ?_
  · refine .after (Runs.laws.eat _) fun more => .ite ?_ (.pure trivial)
    refine (condition nests _).bind fun condition asked => ?_
    exact (statements nests _).bind fun body sound => .pure (soundBranch asked sound)
  · refine .after (Runs.laws.eat _) fun last => .ite ?_ (.pure ?_)
    · exact (statements nests _).bind fun body sound => .pure (concat each sound)
    · split
      · exact ⟨.inl rfl, allSound_nil⟩
      · exact concat each allSound_nil

theorem conditional (nests : SoundNest nest) : Yields Node.Sound (Parser.conditional nest) := by
  refine .after .advance fun word => ?_
  dsimp only
  refine (condition nests _).bind fun condition asked => ?_
  refine (statements nests _).bind fun body sound => ?_
  refine (otherBranches nests).bind fun otherwise branches => .expect _ (.pure ?_)
  have guard := sound_guarding (word.kind == .keyword .unlessKw) asked
  exact .intro branches.1 (by simp [Node.children, guard, sound, branches.2])

theorem loop (nests : SoundNest nest) : Yields Node.Sound (Parser.loop nest) := by
  refine .after .advance fun word => ?_
  dsimp only
  refine (condition nests _).bind fun condition asked => ?_
  refine (statements nests _).bind fun body sound => .expect _ (.pure ?_)
  have guard := sound_guarding (word.kind == .keyword .untilKw) asked
  exact .intro trivial (by simp [Node.children, guard, sound])

theorem switchCase (nests : SoundNest nest) :
    Yields SwitchCase.Sound (Parser.switchCase nest) := by
  refine (splatOrExpression nests).commaSeparated.bind fun conditions all => ?_
  refine .seq (Runs.laws.eat _) ?_
  exact (statements nests _).bind fun body sound => .pure ⟨all.1, all.2, sound⟩

theorem sound_switch {subject? : Option Node} {cases : List (SwitchCase Node)}
    {otherwise : List Node} (subject : ∀ node ∈ subject?, node.Sound)
    (each : ∀ case ∈ cases, SwitchCase.Sound case) (other : AllSound otherwise) :
    (Node.switch subject? cases otherwise).Sound := by
  refine .intro (fun case member => (each case member).1) ?_
  simp only [Node.children, allSound_append, allSound_toList, allSound_flatMap]
  refine ⟨⟨subject, fun case member => ?_⟩, other⟩
  obtain ⟨_, conditions, body⟩ := each case member
  exact allSound_append.mpr ⟨conditions, body⟩

theorem switch (nests : SoundNest nest) : Yields Node.Sound (Parser.switch nest) := by
  have rest (subject? : Option Node) (subject : ∀ node ∈ subject?, node.Sound) :
      Yields Node.Sound (do
        Parser.skipSeparators
        let cases ← Parser.list do
          if ← Parser.eat Keyword.whenKw then return .more (← Parser.switchCase nest)
          return .stop
        let otherwise ← Parser.elseBody nest
        discard (Parser.expect Keyword.endKw)
        return Node.switch subject? cases otherwise) := by
    refine .after Runs.laws.skipSeparators fun _ => ?_
    refine (Yields.list (p := SwitchCase.Sound) ?_).bind fun cases each => ?_
    · refine .after (Runs.laws.eat _) fun found => .ite ?_ (.pure trivial)
      exact (switchCase nests).bind fun _ sound => .pure sound
    · refine (elseBody nests).bind fun otherwise other => .expect _ ?_
      exact .pure (sound_switch subject each other)
  refine .seq .advance (.after Runs.laws.kind fun kind => .ite ?_ ?_)
  · exact (Yields.pure forall_mem_none).bind rest
  · exact ((nests _).map _ fun _ => forall_mem_some).bind rest

theorem rescueClasses :
    Yields (fun classes => ∀ path ∈ classes, path.Named) Parser.rescueClasses := by
  refine .after Runs.laws.atConstantPath fun found => .ite ?_ ?_
  · exact constantPath.commaSeparated.weaken fun _ read => read.2
  · exact .after Runs.laws.kind fun kind => .unlessThen (.failAt _) (.pure (by simp))

theorem rescueClauses (nests : SoundNest nest) :
    Yields (fun rescues => ∀ clause ∈ rescues, RescueClause.Sound clause)
      (Parser.rescueClauses nest) := by
  refine .list (.after (Runs.laws.eat _) fun more => .ite ?_ (.pure trivial))
  refine rescueClasses.bind fun classes named => .after Runs.laws.rescueVariable fun binding => ?_
  refine .seq (Runs.laws.eat _) ?_
  exact (statements nests _).bind fun body sound => .pure ⟨named, sound⟩

theorem sound_guarded {body otherwise : List Node} {rescues : List (RescueClause Node)}
    (sound : AllSound body) (clauses : ∀ clause ∈ rescues, RescueClause.Sound clause)
    (other : AllSound otherwise) : (Node.guarded body rescues otherwise).Sound := by
  refine .intro (fun clause member => (clauses clause member).1) ?_
  simp only [Node.children, allSound_append, allSound_flatMap]
  exact ⟨⟨sound, fun clause member => (clauses clause member).2⟩, other⟩

theorem guarded (nests : SoundNest nest) : Yields Node.Sound (Parser.guarded nest) := by
  refine .seq .advance ((statements nests _).bind fun body sound => ?_)
  refine (rescueClauses nests).bind fun rescues clauses => ?_
  refine (elseBody nests).bind fun otherwise other => .expect _ ?_
  exact .pure (sound_guarded sound clauses other)

theorem jump {node : Node} (sound : node.Sound) : Yields Node.Sound (Parser.jump node) := by
  refine .after .advance fun keyword => .after Runs.laws.kind fun kind => ?_
  exact .whenThen (.fail _ _) (.pure sound)

theorem jumpValues (nests : SoundNest nest) : Yields AllSound (Parser.jumpValues nest) := by
  refine .after Runs.laws.kind fun kind => .ite ?_ (.pure allSound_nil)
  exact (splatOrExpression nests).commaSeparated.weaken fun _ read => read.2

/-- What is handed on has the values as its parts. -/
theorem allSound_ofList? {values : List Node} (sound : AllSound values) :
    AllSound ((Payload.ofList? values).toList.flatMap Payload.nodes) := by
  match values with
  | [] => exact allSound_nil
  | [value] => simpa [Payload.ofList?, Payload.nodes] using sound
  | first :: second :: rest => simpa [Payload.ofList?, Payload.nodes] using sound

theorem handBack (nests : SoundNest nest) : Yields Node.Sound (Parser.handBack nest) := by
  refine .seq .advance ((jumpValues nests).bind fun values sound => .pure ?_)
  exact .intro (Node.isPayload_ofList? values) (allSound_ofList? sound)

theorem handOver (nests : SoundNest nest) : Yields Node.Sound (Parser.handOver nest) := by
  have rest (values : List Node) (sound : AllSound values) :
      Yields Node.Sound (pure (Node.handOver (Payload.ofList? values))) :=
    .pure (.intro (Node.isPayload_ofList? values) (allSound_ofList? sound))
  refine .seq .advance (.after (Runs.laws.eatGlued _ nofun) fun opened => .ite ?_ ?_)
  · exact (closedArguments nests _).bind rest
  · exact (jumpValues nests).bind rest

theorem methodHead : Yields (fun head => ∀ target ∈ head.1, Node.IsMethodTarget target)
    Parser.methodHead := by
  refine .after Runs.laws.kind fun kind => .ite ?_ ?_
  · refine .after .advance fun name => .after (Runs.laws.eatGlued _ nofun) fun dot => .ite ?_ ?_
    · refine .after Runs.laws.methodName fun _ => .pure (forall_mem_some ?_)
      split
      · exact .inl rfl
      · exact .inr ⟨name.text, rfl⟩
    · exact .after (Runs.laws.finishMethodName _) fun _ => .pure forall_mem_none
  · exact .after Runs.laws.methodName fun _ => .pure forall_mem_none

abbrev SoundDefault (default? : Option Node) : Prop := ∀ value ∈ default?, value.Sound

theorem labelDefault (nests : SoundNest nest) : Yields SoundDefault (Parser.labelDefault nest) := by
  refine .after Runs.laws.kind fun kind => .ite (.pure forall_mem_none) ?_
  exact (nests _).map _ fun _ => forall_mem_some

theorem assignedDefault (nests : SoundNest nest) :
    Yields SoundDefault (Parser.assignedDefault nest) := by
  refine .after (Runs.laws.eat _) fun assigns => .ite ?_ (.pure forall_mem_none)
  exact .after Runs.laws.skipNewLines fun _ => (nests _).map _ fun _ => forall_mem_some

theorem param (nests : SoundNest nest) : Yields MethodParam.Sound (Parser.param nest) := by
  refine .after Runs.laws.kind fun kind => ?_
  split
  · exact .seq .advance (.after Runs.laws.parameterName fun _ => .pure forall_mem_none)
  · exact .seq .advance (.after Runs.laws.parameterName fun _ => .pure forall_mem_none)
  · refine .after .advance fun name => ?_
    exact (labelDefault nests).bind fun _ sound => .pure sound
  · refine .after Runs.laws.parameterName fun name => ?_
    exact (assignedDefault nests).bind fun _ sound => .pure sound

theorem params (nests : SoundNest nest) :
    Yields (fun params => ∀ param ∈ params, MethodParam.Sound param) (Parser.params nest) := by
  refine .after Runs.laws.kind fun kind => ?_
  split
  · refine .seq .advance ((Yields.list (p := MethodParam.Sound) ?_).bind fun params sound => ?_)
    · refine .after Runs.laws.skipNewLines fun _ => .after (Runs.laws.isAt _) fun closed => ?_
      refine .ite (.pure trivial) ((param nests).bind fun param sound => ?_)
      refine .after Runs.laws.skipNewLines fun _ => .after Runs.laws.eatComma fun more => ?_
      exact .ite (.pure sound) (.pure sound)
    · exact .expect _ (.pure sound)
  iterate 4 exact (param nests).commaSeparated.weaken fun _ read => read.2
  · exact .pure (by simp)

theorem sound_methodTarget {target : Node} (valid : target.IsMethodTarget) : target.Sound := by
  obtain rfl | ⟨name, rfl⟩ := valid
  · exact .intro trivial allSound_nil
  · exact Node.sound_reference name

theorem sound_method {target? : Option Node} {params : List (MethodParam Node)} {body : List Node}
    {rescues : List (RescueClause Node)} (target : ∀ target ∈ target?, target.IsMethodTarget)
    (defaults : ∀ param ∈ params, MethodParam.Sound param) (sound : AllSound body)
    (clauses : ∀ clause ∈ rescues, RescueClause.Sound clause) (name : String) :
    (Node.method target? name params body rescues).Sound := by
  refine .intro ⟨target, fun param _ => Node.isMethodParam param, fun clause member =>
    (clauses clause member).1⟩ ?_
  simp only [Node.children, allSound_append, allSound_toList, allSound_flatMap,
    MethodParam.nodes_eq]
  refine ⟨⟨⟨fun node member => sound_methodTarget (target node member), defaults⟩, sound⟩, ?_⟩
  exact fun clause member => (clauses clause member).2

theorem method (nests : SoundNest nest) : Yields Node.Sound (Parser.method nest) := by
  refine .seq .advance (methodHead.bind fun head target => ?_)
  refine (params nests).bind fun params defaults => ?_
  refine (statements nests _).bind fun body sound => ?_
  refine (rescueClauses nests).bind fun rescues clauses => ?_
  refine .after (Runs.laws.eat _) fun found => .ite ?_ ?_
  · refine (statements nests _).bind fun otherwise other => .expect _ (.pure ?_)
    have inner := sound_guarded sound clauses other
    exact sound_method target defaults (by simpa using inner) (by simp) _
  · exact .expect _ (.pure (sound_method target defaults sound clauses _))

theorem declarationBody (nests : SoundNest nest) : Yields AllSound (Parser.declarationBody nest) :=
  (statements nests _).bind fun _ sound => .expect _ (.pure sound)

theorem superclass : Yields (fun path? => ∀ path ∈ path?, path.Named) Parser.superclass := by
  refine .after (Runs.laws.eat _) fun sign => .ite ?_ (.pure forall_mem_none)
  refine .after Runs.laws.atConstantPath fun found => .unlessThen (.failAt _) ?_
  exact constantPath.map _ fun _ => forall_mem_some

theorem classDecl (nests : SoundNest nest) : Yields Node.Sound (Parser.classDecl nest) := by
  refine .seq .advance (.after (Runs.laws.eat _) fun singleton => .ite ?_ ?_)
  · refine (nests _).bind fun target object => ?_
    refine (declarationBody nests).bind fun body sound => .pure ?_
    exact .intro trivial (by simp [Node.children, object, sound])
  · refine .after Runs.laws.atConstantPath fun found => .unlessThen (.failAt _) ?_
    refine constantPath.bind fun path named => superclass.bind fun superclass inherits => ?_
    exact (declarationBody nests).bind fun body sound => .pure (.intro ⟨named, inherits⟩ sound)

theorem moduleDecl (nests : SoundNest nest) : Yields Node.Sound (Parser.moduleDecl nest) := by
  refine .seq .advance (.after Runs.laws.atConstantPath fun found => .unlessThen (.failAt _) ?_)
  refine constantPath.bind fun path named => ?_
  exact (declarationBody nests).bind fun body sound => .pure (.intro named sound)

theorem aliasDecl : Yields Node.Sound Parser.aliasDecl := by
  refine .seq .advance (.after Runs.laws.aliasName fun name => ?_)
  exact .after Runs.laws.aliasName fun source => .pure (.intro trivial allSound_nil)

end RubySyntax.Grammar.WellFormed
