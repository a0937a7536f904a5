import RubySyntax.Grammar.Declaration
import RubySyntax.Proofs.Grammar.Discipline.Phrase

namespace RubySyntax.Grammar.Discipline

open RubySyntax.Tree (Node)
open Token (Kind Punct Keyword)

variable (d : Discipline) {nest : Nest} (nests : ∀ level, d.Closing none Anywhere (nest level))
  {here : Kind → Prop}

theorem endWord (value : α) : d.Closing none here
    (Functor.discard (Parser.expect Keyword.endKw) >>= fun _ => Pure.pure value) :=
  d.anywhereClosing (d.begins (d.expect (isInner_keyword .endKw)) fun _ => d.pure value)

theorem rescueClasses : d.Firm Anywhere Parser.rescueClasses := by
  refine d.bind d.atConstantPath fun found => ?_
  refine d.choice (d.firm (d.commaSeparated d.constantPath)) ?_
  refine d.kind (fun kind _ => ?_) fun _ => .inr (d.refuses (.first (.failAt _)))
  split
  · exact d.pure _
  · exact d.firm (d.refuses (.first (.failAt _)))

theorem rescueVariable : d.Firm Anywhere Parser.rescueVariable := by
  refine d.eat (by decide) (d.isAt (by decide) ?_ ?_) (d.pure _)
  · exact d.advanceAt (by decide) fun _ => d.pure _
  · exact d.firm (d.currentClosing fun _ _ => d.refuses (.first (.fail _ _)))

theorem jump {k : Keyword} (node : Node) : d.Firm (· = .keyword k) (Parser.jump node) := by
  refine d.advanceAt (isInner_keyword k) fun keyword => d.kind (fun kind _ => ?_) fun _ => .inl rfl
  split
  · exact d.firm (d.refuses (.first (.fail _ _)))
  · exact d.pure _

theorem finishMethodName (name : String) : d.Firm Anywhere (Parser.finishMethodName name) := by
  refine d.asksGlued (by decide) ?_ ?_
  · split
    · exact d.stepAt (by decide) (d.pure _)
    · exact d.pure _
  · rw [Bool.false_and, if_neg Bool.false_ne_true]
    exact d.pure _

theorem methodName : d.Closing none Anywhere Parser.methodName := by
  refine d.kindClosing fun kind _ => ?_
  dsimp only
  split
  · rename_i bracket
    rw [beq_iff_eq.mp bracket]
    refine d.closing (fun _ same => same ▸ by decide) (d.opener rfl ?_)
    exact d.begins (d.closer rfl) fun _ => d.finishMethodName _
  · split
    · rename_i named
      have inner := isInner_of_isMethodName named
      refine d.closing (fun _ same => same ▸ inner.within) (d.advanceAt inner fun name => ?_)
      exact d.choice (d.pure _) (d.finishMethodName _)
    · exact d.refuses (.first (.failAt _))

theorem methodHead : d.Closing none Anywhere Parser.methodHead := by
  refine d.kindClosing fun kind _ => ?_
  dsimp only
  split
  · rename_i named
    have inner : IsInner kind := by
      simp only [Bool.or_eq_true, beq_iff_eq] at named
      obtain (rfl | rfl) | rfl := named <;> decide
    refine d.closing (fun _ same => same ▸ inner.within) (d.advanceAt inner fun name => ?_)
    refine d.eatGlued (by decide) (d.bind (d.firm d.methodName) fun _ => d.pure _) ?_
    exact d.bind (d.finishMethodName _) fun _ => d.pure _
  · exact d.anywhereClosing (d.begins d.methodName fun _ => d.pure _)

theorem parameterName : d.Closing none here Parser.parameterName :=
  d.parameter fun _ => d.pure _

theorem superclass : d.Firm Anywhere Parser.superclass := by
  refine d.eat (by decide) (d.bind d.atConstantPath fun found => ?_) (d.pure _)
  split
  · exact d.map _ (d.firm d.constantPath)
  · exact d.firm (d.refuses (.first (.failAt _)))

theorem aliasName : d.Closing none Anywhere Parser.aliasName := by
  refine d.kindClosing fun kind _ => ?_
  dsimp only
  split
  · rename_i named
    have inner : IsInner kind := by
      simp only [Bool.or_eq_true, beq_iff_eq] at named
      obtain (named | rfl) | rfl := named
      · exact isInner_of_isMethodName named
      · decide
      · decide
    exact d.closing (fun _ same => same ▸ inner.within) (d.advanceAt inner fun _ => d.pure _)
  · exact d.refuses (.first (.failAt _))

theorem aliasDecl : d.Firm (· = .keyword .aliasKw) Parser.aliasDecl := by
  refine d.stepAt (by decide) (d.firm (d.begins d.aliasName fun name => ?_))
  exact d.firm (d.begins d.aliasName fun _ => d.pure _)

include nests

theorem condition (closing : Keyword) : d.Closing none here (Parser.condition nest closing) := by
  refine d.begins (d.withNoDoClosing true (d.anywhereClosing (nests _))) fun condition => ?_
  exact d.bind (d.map _ (d.eatAlone (isInner_keyword closing))) fun _ => d.pure _

theorem elseBody : d.Loose (Parser.elseBody nest) := by
  refine d.bindLoose (d.loose (d.eatAlone (by decide))) fun found => ?_
  exact d.choiceLoose (d.statements nests _) (d.pureLoose _)

theorem otherBranches : d.Loose (Parser.otherBranches nest) := by
  refine d.bindLoose (d.listLoose ?_) fun branches => ?_
  · refine d.bindLoose (d.loose (d.eatAlone (by decide))) fun more => ?_
    refine d.choiceLoose (d.bindLoose (d.loose (d.firm (d.condition nests _))) ?_) (d.pureLoose _)
    exact fun condition => d.bindLoose (d.statements nests _) fun _ => d.pureLoose _
  · refine d.bindLoose (d.loose (d.eatAlone (by decide))) fun last => ?_
    refine d.choiceLoose ?_ (d.pureLoose _)
    exact d.bindLoose (d.statements nests _) fun _ => d.pureLoose _

theorem conditional {k : Keyword} : d.Firm (· = .keyword k) (Parser.conditional nest) := by
  refine d.advanceAt (isInner_keyword k) fun word => ?_
  refine d.firm (d.begins (d.condition nests _) fun condition => d.firm ?_)
  refine d.ends (d.statements nests _) fun body => ?_
  exact d.ends (d.otherBranches nests) fun otherwise => d.endWord _

theorem loop {k : Keyword} : d.Firm (· = .keyword k) (Parser.loop nest) := by
  refine d.advanceAt (isInner_keyword k) fun word => ?_
  refine d.firm (d.begins (d.condition nests _) fun condition => d.firm ?_)
  exact d.ends (d.statements nests _) fun body => d.endWord _

theorem switchCase : d.Loose (Parser.switchCase nest) := by
  refine d.bindLoose (d.loose (d.firm (d.commaSeparated (d.splatOrExpression nests)))) ?_
  refine fun conditions => d.eatThen (by decide) ?_
  exact d.bindLoose (d.statements nests _) fun _ => d.pureLoose _

/-- The cases behind the subject and the separators. -/
theorem switchEnd (subject? : Option Node) : d.Closing none Anywhere (do
    Parser.skipSeparators
    let cases ← Parser.list do
      if ← Parser.eat Keyword.whenKw then return .more (← Parser.switchCase nest)
      return .stop
    let otherwise ← Parser.elseBody nest
    discard (Parser.expect Keyword.endKw)
    return Node.switch subject? cases otherwise) := by
  refine d.ends d.skipSeparators fun _ => d.ends (d.listLoose ?_) fun cases => ?_
  · refine d.bindLoose (d.loose (d.eatAlone (by decide))) fun found => ?_
    exact d.choiceLoose (d.bindLoose (d.switchCase nests) fun _ => d.pureLoose _) (d.pureLoose _)
  · exact d.ends (d.elseBody nests) fun otherwise => d.endWord _

theorem switch : d.Firm (· = .keyword .caseKw) (Parser.switch nest) := by
  have rest (subject? : Option Node) := d.firm (d.switchEnd nests subject?)
  refine d.stepAt (by decide) (d.kind (fun kind _ => d.anywhere ?_) fun _ => .inr ?_)
  · exact d.choice (d.bind (d.pure _) rest) (d.bind (d.map _ (d.firm (nests _))) rest)
  · exact d.anywhereClosing (d.begins (d.mapClosing _ (nests _)) rest)

theorem rescueClauses : d.Loose (Parser.rescueClauses nest) := by
  refine d.listLoose (d.bindLoose (d.loose (d.eatAlone (by decide))) fun more => ?_)
  refine d.choiceLoose (d.bindLoose (d.loose d.rescueClasses) fun classes => ?_) (d.pureLoose _)
  refine d.bindLoose (d.loose d.rescueVariable) fun binding => d.eatThen (by decide) ?_
  exact d.bindLoose (d.statements nests _) fun _ => d.pureLoose _

theorem guarded : d.Firm (· = .keyword .beginKw) (Parser.guarded nest) := by
  refine d.stepAt (by decide) (d.firm (d.ends (d.statements nests _) fun body => ?_))
  refine d.ends (d.rescueClauses nests) fun rescues => ?_
  exact d.ends (d.elseBody nests) fun otherwise => d.endWord _

theorem jumpValues : d.Firm Anywhere (Parser.jumpValues nest) := by
  refine d.kind (fun kind _ => d.choice ?_ (d.pure _)) fun _ => .inl rfl
  exact d.anywhere (d.firm (d.commaSeparated (d.splatOrExpression nests)))

theorem handBack : d.Firm (· = .keyword .returnKw) (Parser.handBack nest) :=
  d.stepAt (by decide) (d.bind (d.jumpValues nests) fun _ => d.pure _)

theorem handOver : d.Firm (· = .keyword .yieldKw) (Parser.handOver nest) := by
  have rest (values : List Node) : d.Firm Anywhere _ := d.pure (Node.handOver (Tree.Payload.ofList? values))
  refine d.stepAt (by decide) (d.eatGluedOpener rfl ?_ (d.bind (d.jumpValues nests) rest))
  exact d.begins (d.closedArguments nests rfl) rest

theorem labelDefault : d.Firm Anywhere (Parser.labelDefault nest) := by
  refine d.kind (fun kind _ => d.choice (d.pure _) (d.map _ ?_)) fun _ => .inr ?_
  · exact d.firm (d.anywhereClosing (nests _))
  · exact d.mapClosing _ (d.anywhereClosing (nests _))

theorem assignedDefault : d.Firm Anywhere (Parser.assignedDefault nest) := by
  refine d.eat (by decide) (d.firm (d.acrossLines ?_)) (d.pure _)
  exact d.mapClosing _ (nests _)

theorem param : d.Closing none here (Parser.param nest) := by
  refine d.kindClosing fun kind _ => ?_
  split
  · refine d.closing (fun _ same => same ▸ by decide) (d.stepAt (by decide) ?_)
    exact d.bind (d.firm d.parameterName) fun _ => d.pure _
  · refine d.closing (fun _ same => same ▸ by decide) (d.stepAt (by decide) ?_)
    exact d.bind (d.firm d.parameterName) fun _ => d.pure _
  · refine d.closing (fun _ same => same ▸ by decide) (d.advanceAt (by decide) fun name => ?_)
    exact d.bind (d.labelDefault nests) fun _ => d.pure _
  · refine d.begins d.parameterName fun name => ?_
    exact d.bind (d.assignedDefault nests) fun _ => d.pure _

theorem params : d.Firm Anywhere (Parser.params nest) := by
  refine d.kind (fun kind _ => ?_) fun _ => .inl rfl
  split
  · refine d.opener rfl (d.ends (d.listLoose ?_) fun params => ?_)
    · refine d.bindLoose d.skipNewLines fun _ => ?_
      refine d.bindLoose (d.loose (d.isAtAlone (by decide))) fun closed => ?_
      refine d.choiceLoose (d.pureLoose _) (d.bindLoose (d.loose (d.firm (d.param nests))) ?_)
      refine fun param => d.bindLoose d.skipNewLines fun _ => d.bindLoose d.eatCommaLoose fun more => ?_
      exact d.choiceLoose (d.pureLoose _) (d.pureLoose _)
    · exact d.begins (d.closer rfl) fun _ => d.pure _
  iterate 4 exact d.anywhere (d.firm (d.commaSeparated (d.param nests)))
  · exact d.pure _

theorem method : d.Firm (· = .keyword .defKw) (Parser.method nest) := by
  refine d.stepAt (by decide) (d.bind (d.firm d.methodHead) fun head => ?_)
  refine d.bind (d.params nests) fun params => d.firm (d.ends (d.statements nests _) fun body => ?_)
  refine d.ends (d.rescueClauses nests) fun rescues => d.ends (d.loose (d.eatAlone (by decide))) ?_
  intro found
  split
  · exact d.ends (d.statements nests _) fun otherwise => d.endWord _
  · exact d.endWord _

theorem declarationBody : d.Closing none Anywhere (Parser.declarationBody nest) :=
  d.ends (d.statements nests _) fun _ => d.endWord _

theorem classDecl : d.Firm (· = .keyword .classKw) (Parser.classDecl nest) := by
  refine d.stepAt (by decide) (d.eat (by decide) ?_ (d.bind d.atConstantPath fun found => ?_))
  · refine d.bind (d.firm (nests _)) fun target => ?_
    exact d.bind (d.firm (d.declarationBody nests)) fun _ => d.pure _
  · split
    · refine d.bind (d.firm d.constantPath) fun path => d.bind d.superclass fun superclass => ?_
      exact d.bind (d.firm (d.declarationBody nests)) fun _ => d.pure _
    · exact d.firm (d.refuses (.first (.failAt _)))

theorem moduleDecl : d.Firm (· = .keyword .moduleKw) (Parser.moduleDecl nest) := by
  refine d.stepAt (by decide) (d.bind d.atConstantPath fun found => ?_)
  split
  · refine d.bind (d.firm d.constantPath) fun path => ?_
    exact d.bind (d.firm (d.declarationBody nests)) fun _ => d.pure _
  · exact d.firm (d.refuses (.first (.failAt _)))

end RubySyntax.Grammar.Discipline
