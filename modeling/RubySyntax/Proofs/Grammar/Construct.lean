import RubySyntax.Grammar.Declaration
import RubySyntax.Proofs.Grammar.Phrase

namespace RubySyntax.Grammar

open RubySyntax.Tree (Node)
open Token (Kind Punct Keyword)

namespace Congruence

variable {Alike : {α : Type} → Parser α → Parser α → Prop} (laws : Congruence Alike)
  {nest nest' : Nest} (nests : ∀ level, Alike (nest level) (nest' level))

include laws

theorem rescueClasses : Alike Parser.rescueClasses Parser.rescueClasses := by
  refine laws.bind laws.atConstantPath fun found => ?_
  refine choice (laws.commaSeparated laws.constantPath) ?_
  exact laws.bind laws.kind fun kind => laws.unlessThen (laws.failAt _ rfl) (laws.pure _)

theorem rescueVariable : Alike Parser.rescueVariable Parser.rescueVariable := by
  have rest : Alike (do return some (← Parser.advance).text)
      (do return some (← Parser.advance).text) := laws.advance fun _ _ => laws.pure _
  refine laws.bind (laws.eat _) fun arrow => choice ?_ (laws.pure _)
  refine laws.bind (laws.isAt _) fun found => choice rest ?_
  exact laws.current fun _ _ => laws.behind (laws.fail _ _ rfl) rest

theorem finishMethodName (name : String) :
    Alike (Parser.finishMethodName name) (Parser.finishMethodName name) := by
  refine laws.bind (laws.isAtGlued _ nofun) fun assigns => choice ?_ (laws.pure _)
  exact laws.step (laws.pure _)

theorem methodName : Alike Parser.methodName Parser.methodName := by
  refine laws.bind laws.kind fun kind => choice ?_ ?_
  · exact laws.step (laws.behind (laws.expect _) (laws.finishMethodName _))
  · refine laws.unlessThen (laws.failAt _ rfl) (laws.advance fun name _ => ?_)
    exact choice (laws.pure _) (laws.finishMethodName _)

theorem methodHead : Alike Parser.methodHead Parser.methodHead := by
  refine laws.bind laws.kind fun kind => choice ?_ (laws.bind laws.methodName fun _ => laws.pure _)
  refine laws.advance fun name _ => laws.bind (laws.eatGlued _ nofun) fun dot => choice ?_ ?_
  · exact laws.bind laws.methodName fun _ => laws.pure _
  · exact laws.bind (laws.finishMethodName _) fun _ => laws.pure _

theorem parameterName : Alike Parser.parameterName Parser.parameterName := by
  refine laws.bind (laws.isAt _) fun found => laws.unlessThen (laws.failAt _ rfl) ?_
  exact laws.advance fun _ _ => laws.pure _

theorem superclass : Alike Parser.superclass Parser.superclass := by
  refine laws.bind (laws.eat _) fun sign => choice ?_ (laws.pure _)
  refine laws.bind laws.atConstantPath fun found => laws.unlessThen (laws.failAt _ rfl) ?_
  exact laws.map _ laws.constantPath

theorem aliasName : Alike Parser.aliasName Parser.aliasName := by
  refine laws.bind laws.kind fun kind => laws.unlessThen (laws.failAt _ rfl) ?_
  exact laws.advance fun _ _ => laws.pure _

include nests

theorem condition (closing : Keyword) :
    Alike (Parser.condition nest closing) (Parser.condition nest' closing) := by
  refine laws.bind (laws.withNoDo true (nests _)) fun condition => ?_
  exact laws.seq (laws.eat _) (laws.pure _)

theorem elseBody : Alike (Parser.elseBody nest) (Parser.elseBody nest') :=
  laws.bind (laws.eat _) fun _ => choice (laws.statements nests _) (laws.pure _)

theorem otherBranches : Alike (Parser.otherBranches nest) (Parser.otherBranches nest') := by
  refine laws.bind (laws.list ?_) fun branches => laws.bind (laws.eat _) fun last => ?_
  · refine laws.bind (laws.eat _) fun more => choice ?_ (laws.pure _)
    refine laws.bind (laws.condition nests _) fun condition => ?_
    exact laws.bind (laws.statements nests _) fun _ => laws.pure _
  · refine choice ?_ (laws.pure _)
    exact laws.bind (laws.statements nests _) fun _ => laws.pure _

theorem switchCase : Alike (Parser.switchCase nest) (Parser.switchCase nest') := by
  refine laws.bind (laws.commaSeparated (laws.splatOrExpression nests)) fun conditions => ?_
  refine laws.seq (laws.eat _) ?_
  exact laws.bind (laws.statements nests _) fun _ => laws.pure _

theorem rescueClauses : Alike (Parser.rescueClauses nest) (Parser.rescueClauses nest') := by
  refine laws.list (laws.bind (laws.eat _) fun more => choice ?_ (laws.pure _))
  refine laws.bind laws.rescueClasses fun classes => laws.bind laws.rescueVariable fun binding => ?_
  refine laws.seq (laws.eat _) ?_
  exact laws.bind (laws.statements nests _) fun _ => laws.pure _

theorem jumpValues : Alike (Parser.jumpValues nest) (Parser.jumpValues nest') := by
  refine laws.bind laws.kind fun kind => choice ?_ (laws.pure _)
  exact laws.commaSeparated (laws.splatOrExpression nests)

theorem labelDefault : Alike (Parser.labelDefault nest) (Parser.labelDefault nest') := by
  refine laws.bind laws.kind fun kind => choice (laws.pure _) ?_
  exact laws.map _ (nests _)

theorem assignedDefault : Alike (Parser.assignedDefault nest) (Parser.assignedDefault nest') := by
  refine laws.bind (laws.eat _) fun assigns => choice ?_ (laws.pure _)
  exact laws.behind laws.skipNewLines (laws.map _ (nests _))

theorem param : Alike (Parser.param nest) (Parser.param nest') := by
  refine laws.bind laws.kind fun kind => ?_
  split
  · exact laws.step (laws.bind laws.parameterName fun _ => laws.pure _)
  · exact laws.step (laws.bind laws.parameterName fun _ => laws.pure _)
  · refine laws.advance fun name _ => ?_
    exact laws.bind (laws.labelDefault nests) fun _ => laws.pure _
  · refine laws.bind laws.parameterName fun name => ?_
    exact laws.bind (laws.assignedDefault nests) fun _ => laws.pure _

theorem params : Alike (Parser.params nest) (Parser.params nest') := by
  refine laws.bind laws.kind fun kind => ?_
  split
  · refine laws.step (laws.bind (laws.list ?_) fun params => ?_)
    · refine laws.behind laws.skipNewLines (laws.bind (laws.isAt _) fun closed => ?_)
      refine choice (laws.pure _) (laws.bind (laws.param nests) fun param => ?_)
      refine laws.behind laws.skipNewLines (laws.bind laws.eatComma fun more => ?_)
      exact choice (laws.pure _) (laws.pure _)
    · exact laws.behind (laws.expect _) (laws.pure _)
  iterate 4 exact laws.commaSeparated (laws.param nests)
  · exact laws.pure _

theorem declarationBody : Alike (Parser.declarationBody nest) (Parser.declarationBody nest') :=
  laws.bind (laws.statements nests _) fun _ => laws.behind (laws.expect _) (laws.pure _)

end Congruence

namespace Opening

open Congruence (choice)

variable {Alike Opens : {α : Type} → Parser α → Parser α → Prop} (opening : Opening Alike Opens)
  {nest nest' : Nest} (nests : ∀ level, Alike (nest level) (nest' level))

include opening

theorem jump (node : Node) : Opens (Parser.jump node) (Parser.jump node) := by
  have laws := opening.laws
  refine opening.advance fun keyword _ => laws.bind laws.kind fun kind => ?_
  exact laws.whenThen (laws.fail _ _ rfl) (laws.pure _)

theorem aliasDecl : Opens Parser.aliasDecl Parser.aliasDecl := by
  have laws := opening.laws
  refine opening.step (laws.bind laws.aliasName fun name => ?_)
  exact laws.bind laws.aliasName fun _ => laws.pure _

include nests

theorem conditional : Opens (Parser.conditional nest) (Parser.conditional nest') := by
  have laws := opening.laws
  refine opening.advance fun word _ => laws.bind (laws.condition nests _) fun condition => ?_
  refine laws.bind (laws.statements nests _) fun body => ?_
  refine laws.bind (laws.otherBranches nests) fun otherwise => ?_
  exact laws.behind (laws.expect _) (laws.pure _)

theorem loop : Opens (Parser.loop nest) (Parser.loop nest') := by
  have laws := opening.laws
  refine opening.advance fun word _ => laws.bind (laws.condition nests _) fun condition => ?_
  refine laws.bind (laws.statements nests _) fun body => ?_
  exact laws.behind (laws.expect _) (laws.pure _)

theorem switch : Opens (Parser.switch nest) (Parser.switch nest') := by
  have laws := opening.laws
  have cases := laws.list (laws.bind (laws.eat Keyword.whenKw) fun found =>
    choice (c := found = true)
      (laws.bind (laws.switchCase nests) fun switchCase => laws.pure (Parser.Item.more switchCase))
      (laws.pure .stop))
  have rest (subject? : Option Node) := laws.behind laws.skipSeparators <|
    laws.bind cases fun cases => laws.bind (laws.elseBody nests) fun otherwise =>
      laws.behind (laws.expect Keyword.endKw) (laws.pure (Node.switch subject? cases otherwise))
  refine opening.step (laws.bind laws.kind fun kind => ?_)
  exact choice (laws.bind (laws.pure _) rest) (laws.bind (laws.map _ (nests _)) rest)

theorem guarded : Opens (Parser.guarded nest) (Parser.guarded nest') := by
  have laws := opening.laws
  refine opening.step (laws.bind (laws.statements nests _) fun body => ?_)
  refine laws.bind (laws.rescueClauses nests) fun rescues => ?_
  refine laws.bind (laws.elseBody nests) fun otherwise => ?_
  exact laws.behind (laws.expect _) (laws.pure _)

theorem handBack : Opens (Parser.handBack nest) (Parser.handBack nest') := by
  have laws := opening.laws
  exact opening.step (laws.bind (laws.jumpValues nests) fun _ => laws.pure _)

theorem handOver : Opens (Parser.handOver nest) (Parser.handOver nest') := by
  have laws := opening.laws
  have rest (values : List Node) := laws.pure (Node.handOver (Tree.Payload.ofList? values))
  refine opening.step (laws.bind (laws.eatGlued _ nofun) fun opened => choice ?_ ?_)
  · exact laws.bind (laws.closedArguments nests _) rest
  · exact laws.bind (laws.jumpValues nests) rest

theorem method : Opens (Parser.method nest) (Parser.method nest') := by
  have laws := opening.laws
  refine opening.step (laws.bind laws.methodHead fun head => ?_)
  refine laws.bind (laws.params nests) fun params => ?_
  refine laws.bind (laws.statements nests _) fun body => ?_
  refine laws.bind (laws.rescueClauses nests) fun rescues => ?_
  refine laws.bind (laws.eat _) fun found => choice ?_ ?_
  · refine laws.bind (laws.statements nests _) fun otherwise => ?_
    exact laws.behind (laws.expect _) (laws.pure _)
  · exact laws.behind (laws.expect _) (laws.pure _)

theorem classDecl : Opens (Parser.classDecl nest) (Parser.classDecl nest') := by
  have laws := opening.laws
  refine opening.step (laws.bind (laws.eat _) fun singleton => choice ?_ ?_)
  · refine laws.bind (nests _) fun target => ?_
    exact laws.bind (laws.declarationBody nests) fun _ => laws.pure _
  · refine laws.bind laws.atConstantPath fun found => laws.unlessThen (laws.failAt _ rfl) ?_
    refine laws.bind laws.constantPath fun path => laws.bind laws.superclass fun superclass => ?_
    exact laws.bind (laws.declarationBody nests) fun _ => laws.pure _

theorem moduleDecl : Opens (Parser.moduleDecl nest) (Parser.moduleDecl nest') := by
  have laws := opening.laws
  refine opening.step (laws.bind laws.atConstantPath fun found => ?_)
  refine laws.unlessThen (laws.failAt _ rfl) (laws.bind laws.constantPath fun path => ?_)
  exact laws.bind (laws.declarationBody nests) fun _ => laws.pure _

end Opening

end RubySyntax.Grammar
