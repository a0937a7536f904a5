import RubySyntax.Proofs.Grammar.Construct
import RubySyntax.Proofs.Grammar.Depth.Phrase

namespace RubySyntax.Grammar.Depth

open RubySyntax.Tree
open Token (Kind Punct Keyword)

variable {bound : Nat} {nest : Nest}

theorem condition (nests : WithinNest bound nest) (closing : Keyword) :
    Yields (Node.Within bound) (Parser.condition nest closing) :=
  ((nests _).withNoDo true).bind fun _ within => .seq (Runs.laws.eat _) (.pure within)

theorem elseBody (nests : WithinNest bound nest) :
    Yields (AllWithin (bound + 3)) (Parser.elseBody nest) :=
  .after (Runs.laws.eat _) fun _ => .ite (statements nests _) (.pure allWithin_nil)

theorem within_conditional {condition : Node} {body otherwise : List Node}
    (asked : condition.Within bound) (within : AllWithin bound body)
    (other : AllWithin bound otherwise) :
    (Node.conditional condition body otherwise).Within (bound + 1) :=
  .of_children (by simp [Node.children, asked, within, other])

theorem otherBranches (nests : WithinNest bound nest) :
    Yields (AllWithin (bound + 4)) (Parser.otherBranches nest) := by
  have concat {branches : List Node} (each : AllWithin (bound + 4) branches)
      {body : List Node} (within : AllWithin (bound + 3) body) :
      AllWithin (bound + 4) (branches ++ [Parser.always body]) := by
    have last : (Parser.always body).Within (bound + 4) :=
      within_conditional (.leaf rfl) within allWithin_nil
    exact allWithin_append.mpr ⟨each, allWithin_cons.mpr ⟨last, allWithin_nil⟩⟩
  refine (Yields.list (p := Node.Within (bound + 4)) ?_).bind
    fun branches (each : AllWithin (bound + 4) branches) => ?_
  · refine .after (Runs.laws.eat _) fun more => .ite ?_ (.pure trivial)
    refine (condition nests _).bind fun condition asked => ?_
    refine (statements nests _).bind fun body within => .pure ?_
    exact within_conditional (asked.mono (by omega)) within allWithin_nil
  · refine .after (Runs.laws.eat _) fun last => .ite ?_ (.pure ?_)
    · exact (statements nests _).bind fun body within => .pure (concat each within)
    · split
      · exact allWithin_nil
      · exact concat each allWithin_nil

theorem conditional (nests : WithinNest bound nest) :
    Yields (Node.Within (bound + 5)) (Parser.conditional nest) := by
  refine .after .advance fun word => ?_
  dsimp only
  refine (condition nests _).bind fun condition asked => ?_
  refine (statements nests _).bind fun body within => ?_
  refine (otherBranches nests).bind fun otherwise branches => .expect _ (.pure ?_)
  have guard := within_guarding (word.kind == .keyword .unlessKw) asked
  exact within_conditional (guard.mono (by omega)) (within.mono (Nat.le_succ _)) branches

theorem loop (nests : WithinNest bound nest) :
    Yields (Node.Within (bound + 4)) (Parser.loop nest) := by
  refine .after .advance fun word => ?_
  dsimp only
  refine (condition nests _).bind fun condition asked => ?_
  refine (statements nests _).bind fun body within => .expect _ (.pure (.of_children ?_))
  have guard := within_guarding (word.kind == .keyword .untilKw) asked
  exact allWithin_cons.mpr ⟨guard.mono (by omega), within⟩

theorem switchCase (nests : WithinNest bound nest) :
    Yields (fun case => AllWithin (bound + 3) case.nodes) (Parser.switchCase nest) := by
  refine (splatOrExpression nests).commaSeparated.bind fun conditions all => ?_
  refine .seq (Runs.laws.eat _) ((statements nests _).bind fun body within => .pure ?_)
  have conditions : AllWithin (bound + 1) conditions := all.2
  exact allWithin_append.mpr ⟨conditions.mono (by omega), within⟩

theorem switch (nests : WithinNest bound nest) :
    Yields (Node.Within (bound + 4)) (Parser.switch nest) := by
  have rest (subject? : Option Node) (subject : ∀ node ∈ subject?, node.Within bound) :
      Yields (Node.Within (bound + 4)) (do
        Parser.skipSeparators
        let cases ← Parser.list do
          if ← Parser.eat Keyword.whenKw then return .more (← Parser.switchCase nest)
          return .stop
        let otherwise ← Parser.elseBody nest
        discard (Parser.expect Keyword.endKw)
        return Node.switch subject? cases otherwise) := by
    refine .after Runs.laws.skipSeparators fun _ => ?_
    refine (Yields.list (p := fun case => AllWithin (bound + 3) case.nodes) ?_).bind
      fun cases each => ?_
    · refine .after (Runs.laws.eat _) fun found => .ite ?_ (.pure trivial)
      exact (switchCase nests).bind fun _ within => .pure within
    · refine (elseBody nests).bind fun otherwise other => .expect _ (.pure (.of_children ?_))
      simp only [Node.children, allWithin_append, allWithin_toList, allWithin_flatMap]
      exact ⟨⟨fun node member => (subject node member).mono (by omega), each⟩, other⟩
  refine .seq .advance (.after Runs.laws.kind fun kind => .ite ?_ ?_)
  · exact (Yields.pure forall_mem_none).bind rest
  · exact ((nests _).map _ fun _ => forall_mem_some).bind rest

theorem rescueClauses (nests : WithinNest bound nest) :
    Yields (fun rescues => ∀ clause ∈ rescues, AllWithin (bound + 3) clause.body)
      (Parser.rescueClauses nest) := by
  refine .list (.after (Runs.laws.eat _) fun more => .ite ?_ (.pure trivial))
  refine .after Runs.laws.rescueClasses fun classes => .after Runs.laws.rescueVariable fun binding => ?_
  exact .seq (Runs.laws.eat _) ((statements nests _).bind fun body within => .pure within)

theorem within_guarded {body otherwise : List Node} {rescues : List (RescueClause Node)}
    (within : AllWithin bound body) (clauses : ∀ clause ∈ rescues, AllWithin bound clause.body)
    (other : AllWithin bound otherwise) :
    (Node.guarded body rescues otherwise).Within (bound + 1) := by
  apply Node.Within.of_children
  simp only [Node.children, allWithin_append, allWithin_flatMap]
  exact ⟨⟨within, clauses⟩, other⟩

theorem guarded (nests : WithinNest bound nest) :
    Yields (Node.Within (bound + 4)) (Parser.guarded nest) := by
  refine .seq .advance ((statements nests _).bind fun body within => ?_)
  refine (rescueClauses nests).bind fun rescues clauses => ?_
  refine (elseBody nests).bind fun otherwise other => .expect _ ?_
  exact .pure (within_guarded within clauses other)

theorem jump {node : Node} (within : node.Within bound) :
    Yields (Node.Within bound) (Parser.jump node) := by
  refine .after .advance fun keyword => .after Runs.laws.kind fun kind => ?_
  exact .whenThen (.fail _ _) (.pure within)

theorem jumpValues (nests : WithinNest bound nest) :
    Yields (AllWithin (bound + 1)) (Parser.jumpValues nest) := by
  refine .after Runs.laws.kind fun kind => .ite ?_ (.pure allWithin_nil)
  exact (splatOrExpression nests).commaSeparated.weaken fun _ read => read.2

/-- What is handed on has the values as its parts. -/
theorem allWithin_ofList? {values : List Node} (within : AllWithin bound values) :
    AllWithin bound ((Payload.ofList? values).toList.flatMap Payload.nodes) := by
  match values with
  | [] => exact allWithin_nil
  | [value] => simpa [Payload.ofList?, Payload.nodes] using within
  | first :: second :: rest => simpa [Payload.ofList?, Payload.nodes] using within

theorem handBack (nests : WithinNest bound nest) :
    Yields (Node.Within (bound + 2)) (Parser.handBack nest) := by
  refine .seq .advance ((jumpValues nests).bind fun values within => .pure ?_)
  exact .of_children (allWithin_ofList? within)

theorem handOver (nests : WithinNest bound nest) :
    Yields (Node.Within (bound + 3)) (Parser.handOver nest) := by
  have rest (values : List Node) (within : AllWithin (bound + 2) values) :
      Yields (Node.Within (bound + 3)) (pure (Node.handOver (Payload.ofList? values))) :=
    .pure (.of_children (allWithin_ofList? within))
  refine .seq .advance (.after (Runs.laws.eatGlued _ nofun) fun opened => .ite ?_ ?_)
  · exact (closedArguments nests _).bind rest
  · exact (jumpValues nests).bind fun values within => rest values (within.mono (Nat.le_succ _))

theorem methodHead : Yields (fun head => ∀ target ∈ head.1, ∀ bound, Node.Within bound target)
    Parser.methodHead := by
  refine .after Runs.laws.kind fun kind => .ite ?_ ?_
  · refine .after .advance fun name => .after (Runs.laws.eatGlued _ nofun) fun dot => .ite ?_ ?_
    · refine .after Runs.laws.methodName fun _ => .pure (forall_mem_some ?_)
      split
      · exact fun _ => .leaf rfl
      · exact fun _ => .leaf rfl
    · exact .after (Runs.laws.finishMethodName _) fun _ => .pure forall_mem_none
  · exact .after Runs.laws.methodName fun _ => .pure forall_mem_none

abbrev WithinParam (bound : Nat) (param : MethodParam Node) : Prop := AllWithin bound param.nodes

theorem labelDefault (nests : WithinNest bound nest) :
    Yields (fun default? => AllWithin bound default?.toList) (Parser.labelDefault nest) := by
  refine .after Runs.laws.kind fun kind => .ite (.pure allWithin_nil) ?_
  exact (nests _).map _ fun _ within => allWithin_cons.mpr ⟨within, allWithin_nil⟩

theorem assignedDefault (nests : WithinNest bound nest) :
    Yields (fun default? => AllWithin bound default?.toList) (Parser.assignedDefault nest) := by
  refine .after (Runs.laws.eat _) fun assigns => .ite ?_ (.pure allWithin_nil)
  refine .after Runs.laws.skipNewLines fun _ => ?_
  exact (nests _).map _ fun _ within => allWithin_cons.mpr ⟨within, allWithin_nil⟩

theorem param (nests : WithinNest bound nest) :
    Yields (WithinParam bound) (Parser.param nest) := by
  refine .after Runs.laws.kind fun kind => ?_
  split
  · exact .seq .advance (.after Runs.laws.parameterName fun _ => .pure allWithin_nil)
  · exact .seq .advance (.after Runs.laws.parameterName fun _ => .pure allWithin_nil)
  · refine .after .advance fun name => ?_
    exact (labelDefault nests).bind fun _ within => .pure within
  · refine .after Runs.laws.parameterName fun name => ?_
    exact (assignedDefault nests).bind fun _ within => .pure within

theorem params (nests : WithinNest bound nest) :
    Yields (fun params => ∀ param ∈ params, WithinParam bound param) (Parser.params nest) := by
  refine .after Runs.laws.kind fun kind => ?_
  split
  · refine .seq .advance ((Yields.list (p := WithinParam bound) ?_).bind fun params within => ?_)
    · refine .after Runs.laws.skipNewLines fun _ => .after (Runs.laws.isAt _) fun closed => ?_
      refine .ite (.pure trivial) ((param nests).bind fun param within => ?_)
      refine .after Runs.laws.skipNewLines fun _ => .after Runs.laws.eatComma fun more => ?_
      exact .ite (.pure within) (.pure within)
    · exact .expect _ (.pure within)
  iterate 4 exact (param nests).commaSeparated.weaken fun _ read => read.2
  · exact .pure (by simp)

theorem within_method {target? : Option Node} {params : List (MethodParam Node)} {body : List Node}
    {rescues : List (RescueClause Node)} (target : ∀ target ∈ target?, target.Within bound)
    (defaults : ∀ param ∈ params, WithinParam bound param) (within : AllWithin bound body)
    (clauses : ∀ clause ∈ rescues, AllWithin bound clause.body) (name : String) :
    (Node.method target? name params body rescues).Within (bound + 1) := by
  apply Node.Within.of_children
  simp only [Node.children, allWithin_append, allWithin_toList, allWithin_flatMap]
  exact ⟨⟨⟨target, defaults⟩, within⟩, clauses⟩

theorem method (nests : WithinNest bound nest) :
    Yields (Node.Within (bound + 5)) (Parser.method nest) := by
  refine .seq .advance (methodHead.bind fun head shallow => ?_)
  have target (deep : Nat) : ∀ node ∈ head.1, node.Within deep :=
    fun node member => shallow node member deep
  refine (params nests).bind fun params defaults => ?_
  have defaults : ∀ param ∈ params, WithinParam (bound + 4) param :=
    fun param member => (defaults param member).mono (by omega)
  refine (statements nests _).bind fun body within => ?_
  refine (rescueClauses nests).bind fun rescues clauses => ?_
  refine .after (Runs.laws.eat _) fun found => .ite ?_ ?_
  · refine (statements nests _).bind fun otherwise other => .expect _ (.pure ?_)
    have inner := within_guarded within clauses other
    exact within_method (target _) defaults (by simpa using inner) (by simp) _
  · refine .expect _ (.pure (within_method (target _) defaults (within.mono (by omega)) ?_ _))
    exact fun clause member => (clauses clause member).mono (by omega)

theorem declarationBody (nests : WithinNest bound nest) :
    Yields (AllWithin (bound + 3)) (Parser.declarationBody nest) :=
  (statements nests _).bind fun _ within => .expect _ (.pure within)

theorem classDecl (nests : WithinNest bound nest) :
    Yields (Node.Within (bound + 4)) (Parser.classDecl nest) := by
  refine .seq .advance (.after (Runs.laws.eat _) fun singleton => .ite ?_ ?_)
  · refine (nests _).bind fun target object => ?_
    refine (declarationBody nests).bind fun body within => .pure (.of_children ?_)
    exact allWithin_cons.mpr ⟨object.mono (by omega), within⟩
  · refine .after Runs.laws.atConstantPath fun found => .unlessThen (.failAt _) ?_
    refine .after Runs.laws.constantPath fun path => .after Runs.laws.superclass fun _ => ?_
    exact (declarationBody nests).bind fun body within => .pure (.of_children within)

theorem moduleDecl (nests : WithinNest bound nest) :
    Yields (Node.Within (bound + 4)) (Parser.moduleDecl nest) := by
  refine .seq .advance (.after Runs.laws.atConstantPath fun found => .unlessThen (.failAt _) ?_)
  refine .after Runs.laws.constantPath fun path => ?_
  exact (declarationBody nests).bind fun body within => .pure (.of_children within)

theorem aliasDecl : Yields (Node.Within bound) Parser.aliasDecl := by
  refine .seq .advance (.after Runs.laws.aliasName fun name => ?_)
  exact .after Runs.laws.aliasName fun source => .pure (.leaf rfl)

end RubySyntax.Grammar.Depth
