import RubySyntax.Proofs.Grammar.Discipline
import RubySyntax.Proofs.Grammar.Phrase

namespace RubySyntax.Grammar.Discipline

open RubySyntax.Tree (Node)
open Token (Kind Punct Keyword)

/-- No argument begins where a statement ends. -/
theorem startsCommandArgument_of_ends {token : Token} (ends : EndsStatement token.kind) :
    startsCommandArgument token = false := by
  rw [startsCommandArgument]
  obtain kind | kind | kind := ends.cases
  all_goals
    rw [kind]
    exact Bool.and_false _

/-- Reserved words stand within statements. -/
theorem isInner_keyword (k : Keyword) : IsInner (.keyword k) := ⟨nofun, nofun, rfl⟩

theorem isInner_of_isMethodName {kind : Kind} (named : kind.isMethodName = true) :
    IsInner kind := by
  cases kind with
  | punct p => cases p <;> first | decide | cases named
  | identifier => decide
  | constant => decide
  | keyword k => exact isInner_keyword k
  | _ => cases named

variable (d : Discipline) {nest : Nest} (nests : ∀ level, d.Closing none Anywhere (nest level))
  {here : Kind → Prop} {closer? : Option Punct}

theorem acceptTarget (node : Node) : d.Firm here (Parser.acceptTarget node) := by
  unfold Parser.acceptTarget
  split
  · exact d.pure _
  · exact d.firm (d.refuses (.first (.fail _ _)))

section

include nests

theorem splatOrExpression : d.Closing none here (Parser.splatOrExpression nest) := by
  refine d.eatClosing (by decide) ?_ (d.anywhereClosing (nests _))
  exact d.firm (d.begins (nests _) fun _ => d.pure _)

theorem keyedValue (key : Node) : d.Closing none here (Parser.keyedValue nest key) :=
  d.acrossLines (d.begins (nests _) fun _ => d.pure _)

theorem argument : d.Closing none here (Parser.argument nest) := by
  refine d.kindClosing fun kind _ => ?_
  split
  · refine d.closing (fun _ same => same ▸ by decide) (d.advanceAt (by decide) fun label => ?_)
    exact d.bind (d.firm (d.keyedValue nests _)) fun _ => d.pure _
  · refine d.closing (fun _ same => same ▸ by decide) (d.stepAt (by decide) ?_)
    exact d.firm (d.begins (nests _) fun _ => d.pure _)
  · refine d.begins (d.splatOrExpression nests) fun value => d.eat (by decide) ?_ (d.pure _)
    exact d.firm (d.begins (d.keyedValue nests value) fun _ => d.pure _)

theorem openArguments : d.Firm Anywhere (Parser.openArguments nest) :=
  d.map _ (d.firm (d.commaSeparated (d.argument nests)))

theorem closedArguments {close : Punct} (closes : close.isCloser = true) :
    d.Closing (some close) here (Parser.closedArguments nest close) := by
  refine d.ends (d.withNoDoLoose false (d.listLoose ?_)) fun arguments => ?_
  · refine d.bindLoose d.skipNewLines fun _ => ?_
    refine d.bindLoose (d.loose (d.isAtAlone (by cases close <;> decide))) fun closed => ?_
    refine d.choiceLoose (d.pureLoose _) (d.bindLoose (d.loose (d.firm (d.argument nests))) ?_)
    refine fun argument => d.bindLoose d.skipNewLines fun _ => d.bindLoose d.eatCommaLoose fun more => ?_
    exact d.choiceLoose (d.pureLoose _) (d.pureLoose _)
  · exact d.begins (d.closer closes) fun _ => d.pure _

theorem target : d.Closing none Anywhere (Parser.target nest) := by
  refine d.eatClosing (by decide) (d.firm ?_) ?_
  all_goals exact d.begins (nests _) fun _ => d.acceptTarget _

theorem multipleAssignment (first : Node) : d.Firm Anywhere (Parser.multipleAssignment nest first) := by
  refine d.bind (d.acceptTarget first) fun first => ?_
  refine d.bind (d.commaFollowed (d.target nests)) fun targets => d.eat (by decide) ?_ ?_
  · refine d.firm (d.acrossLines (d.begins (d.splatOrExpression nests) fun value => ?_))
    exact d.bind (d.commaFollowed (d.splatOrExpression nests)) fun values => d.pure _
  · exact d.firm (d.refuses (.first (.fail _ _)))

theorem plainStatement : d.Closing none Anywhere (Parser.plainStatement nest) := by
  refine d.eatClosing (by decide) ?_ ?_
  · refine d.firm (d.begins (nests _) fun value => d.bind (d.isAtAlone (by decide)) fun comma => ?_)
    refine d.bind (d.isAtAlone (by decide)) fun assigns => ?_
    exact d.choice (d.multipleAssignment nests _) (d.pure _)
  · refine d.begins (nests _) fun expression => d.bind (d.isAtAlone (by decide)) fun comma => ?_
    exact d.choice (d.multipleAssignment nests _) (d.pure _)

theorem modifier (node : Node) : d.Firm Anywhere (Parser.modifier nest node) := by
  refine d.kind (fun kind _ => ?_) fun _ => .inl rfl
  split
  iterate 4 exact d.advanceAt (by decide) fun _ => d.firm (d.begins (nests _) fun _ => d.pure _)
  · exact d.stepAt (by decide) (d.firm (d.begins (nests _) fun _ => d.pure _))
  · exact d.pure _

theorem statement : d.Closing none Anywhere (Parser.statement nest) :=
  d.begins (d.plainStatement nests) fun node => d.chain (d.modifier nests) node

theorem statements (ends : List Kind) : d.Loose (Parser.statements nest ends) := by
  refine d.listLoose (d.bindLoose d.skipSeparators fun _ => ?_)
  refine d.bindLoose d.kindLoose fun first => d.bindLoose d.kindLoose fun second => ?_
  refine d.choiceLoose (d.pureLoose _) (d.bindLoose (d.loose (d.firm (d.statement nests))) ?_)
  refine fun node => d.bindLoose d.kindLoose fun kind => d.choiceLoose (d.pureLoose _) ?_
  exact d.choiceLoose (d.pureLoose _) (d.loose (d.failAt _))

end

/-- A name that has to stand here. -/
theorem parameter {message : Diagnostic.Message} {next : Token → Parser α}
    (more : ∀ token, d.Firm Anywhere (next token)) :
    d.Closing none here (Parser.isAt .identifier >>= fun found =>
      if found = true then Parser.advance >>= next
      else Parser.failAt message >>= fun _ : Unit => Parser.advance >>= next) := by
  refine d.isAtClosing ?_ (d.refuses (.first (.failAt _)))
  exact d.closing (fun _ same => same ▸ by decide) (d.advanceAt (by decide) more)

theorem blockParam : d.Closing none Anywhere Parser.blockParam := by
  refine d.kindClosing fun mark _ => ?_
  dsimp only
  split
  · rename_i marked
    have inner : IsInner mark := by
      rcases Bool.or_eq_true_iff.mp marked with same | same
      · exact beq_iff_eq.mp same ▸ by decide
      · exact beq_iff_eq.mp same ▸ by decide
    refine d.closing (fun _ same => same ▸ inner.within) (d.stepAt inner (d.firm ?_))
    refine d.parameter fun name => ?_
    split <;> exact d.pure _
  · refine d.parameter fun name => ?_
    split <;> exact d.pure _

theorem blockParams : d.Firm Anywhere Parser.blockParams := by
  refine d.eat (by decide) (d.pure _) (d.eat (by decide) ?_ (d.pure _))
  refine d.bind (d.list ?_) fun params => d.firm (d.begins (d.expect (by decide)) fun _ => d.pure _)
  refine d.isAt (by decide) (d.pure _) (d.bind (d.firm d.blockParam) fun param => ?_)
  exact d.eat (by decide) (d.pure _) (d.pure _)

theorem startsBlock : d.Firm Anywhere Parser.startsBlock := by
  refine d.kind (fun kind _ => ?_) fun _ => .inl rfl
  split
  · exact d.pure _
  · exact d.noDo fun noDo => d.pure _
  · exact d.pure _

theorem lambdaParams : d.Firm Anywhere Parser.lambdaParams := by
  refine d.eatOpener rfl ?_ ?_
  · refine d.ends (d.listLoose ?_) fun params => d.begins (d.closer rfl) fun _ => d.pure _
    refine d.bindLoose d.skipNewLines fun _ => ?_
    refine d.bindLoose (d.loose (d.isAtAlone (by decide))) fun closed => ?_
    refine d.choiceLoose (d.pureLoose _) (d.bindLoose (d.loose (d.firm d.blockParam)) fun param => ?_)
    refine d.bindLoose d.skipNewLines fun _ => d.bindLoose (d.loose (d.eatAlone (by decide))) ?_
    exact fun more => d.choiceLoose (d.pureLoose _) (d.pureLoose _)
  · refine d.list (d.isAt (by decide) ?_ (d.pure _))
    refine d.anywhere (d.bind (d.firm d.blockParam) fun param => ?_)
    exact d.eat (by decide) (d.pure _) (d.pure _)

theorem constantName : d.Closing none Anywhere Parser.constantName := by
  refine d.isAtClosing ?_ ?_
  · exact d.closing (fun _ same => same ▸ by decide) (d.advanceAt (by decide) fun _ => d.pure _)
  · exact d.currentClosing fun _ _ => d.refuses (.first (.fail _ _))

theorem leadingConstant : d.Closing none Anywhere Parser.leadingConstant :=
  d.ends (d.loose (d.eatAlone (by decide))) fun _ => d.begins d.constantName fun _ => d.pure _

theorem constantPath : d.Closing none Anywhere Parser.constantPath := by
  refine d.begins d.leadingConstant fun path => d.chain (fun path => ?_) path
  exact d.eat (by decide) (d.bind (d.firm d.constantName) fun _ => d.pure _) (d.pure _)

theorem atConstantPath : d.Firm Anywhere Parser.atConstantPath :=
  d.bind (d.isAtAlone (by decide)) fun _ => d.bind (d.isAtAlone (by decide)) fun _ => d.pure _

include nests

/-- What is behind the opener of a block. -/
theorem blockBody {close : Kind}
    (closes : d.Closing closer? Anywhere (Functor.discard (Parser.expect close))) :
    d.Closing closer? Anywhere (do
      let params ← Parser.blockParams
      let body ← Parser.withNoDo false (Parser.statements nest [close])
      discard (Parser.expect close)
      return some (⟨params, body⟩ : Tree.Block Node)) := by
  refine d.ends (d.loose d.blockParams) fun params => ?_
  refine d.ends (d.withNoDoLoose false (d.statements nests [close])) fun body => ?_
  exact d.begins closes fun _ => d.pure _

theorem block : d.Firm Anywhere (Parser.block nest) := by
  rw [Parser.block_eq]
  refine d.kind (fun kind _ => ?_) fun _ => .inl rfl
  split
  · rename_i word
    subst word
    refine d.noDo fun noDo => d.choice (d.pure _) (d.stepAt (by decide) (d.firm ?_))
    exact d.blockBody nests (d.expect (by decide))
  · unfold Parser.bracedBlock
    split
    · rename_i brace
      subst brace
      exact d.opener rfl (d.blockBody nests (d.closer rfl))
    · exact d.pure _

theorem arrowLambda : d.Firm (· = .punct .lambdaArrow) (Parser.arrowLambda nest) := by
  refine d.stepAt (by decide) (d.bind d.lambdaParams fun params => ?_)
  refine d.bind (d.withNoDo false (d.block nests)) fun block => ?_
  split
  · exact d.pure _
  · exact d.firm (d.currentClosing fun _ _ => d.refuses (.fail _ _))

theorem callRest (target? : Option Node) (name : String) :
    d.Firm Anywhere (Parser.callRest nest target? name) := by
  have rest (args : List Node) := d.bind (d.block nests) fun block =>
    d.pure (Node.call target? name args block)
  refine d.asksGlued (by decide) (d.current (fun token here => ?_) ?_) ?_
  · rw [here, if_pos rfl]
    exact d.opener rfl (d.begins (d.closedArguments nests rfl) rest)
  · exact fun _ _ _ _ => nofun
  · refine d.current (fun token _ => d.anywhere ?_) fun last broken isLast isBroken _ => ?_
    · rw [if_neg Bool.false_ne_true]
      exact d.choice (d.bind (d.withNoDo true (d.openArguments nests)) rest) (d.bind (d.pure []) rest)
    · rw [startsCommandArgument_of_ends (isBroken ▸ .inr rfl),
        startsCommandArgument_of_ends (isLast ▸ .inl rfl)]
      exact .inl rfl

theorem methodCall (receiver : Node) : d.Closing none Anywhere (Parser.methodCall nest receiver) := by
  refine d.kindClosing fun kind _ => ?_
  split
  · rename_i named
    have inner := isInner_of_isMethodName named
    refine d.closing (fun _ same => same ▸ inner.within) (d.advanceAt inner fun name => ?_)
    exact d.callRest nests _ _
  · exact d.refuses (.first (.failAt _))

theorem plainIdentifier (name : String) : d.Firm Anywhere (Parser.plainIdentifier nest name) := by
  refine d.bind (d.isAtGluedAlone (by decide)) fun opened => ?_
  refine d.current (fun next _ => d.anywhere ?_) fun last broken isLast isBroken _ => ?_
  · refine d.bind d.startsBlock fun blockFollows => d.choice (d.callRest nests none name) ?_
    exact d.choice (d.pure _) (d.pure _)
  · rw [startsCommandArgument_of_ends (isBroken ▸ .inr rfl),
      startsCommandArgument_of_ends (isLast ▸ .inl rfl)]
    exact .inl rfl

theorem identifier : d.Firm (· = .identifier) (Parser.identifier nest) := by
  refine d.advanceAt (by decide) fun name => ?_
  dsimp only
  split
  · refine d.bind (d.block nests) fun block => ?_
    split
    · exact d.pure _
    · exact d.plainIdentifier nests name.text
  · exact d.plainIdentifier nests name.text

theorem constant : d.Closing none Anywhere (Parser.constant nest) := by
  refine d.begins d.leadingConstant fun path => d.bind (d.chain (fun path => ?_) path) fun path => ?_
  · exact d.advanceTwo (by decide) (by decide) (d.pure _) fun _ => d.pure _
  · refine d.eatGlued (by decide) (d.firm (d.methodCall nests _)) ?_
    refine d.bind (d.isAtGluedAlone (by decide)) fun opened => ?_
    exact d.choice (d.callRest nests _ _) (d.pure _)

end RubySyntax.Grammar.Discipline
