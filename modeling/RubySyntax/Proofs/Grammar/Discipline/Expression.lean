import RubySyntax.Grammar.Program
import RubySyntax.Proofs.Grammar.Discipline.Construct

namespace RubySyntax.Grammar.Discipline

open RubySyntax.Tree (Node)
open Token (Kind Punct Keyword)

theorem isInner_of_unaryOp {kind : Kind} (found : Parser.unaryOp? kind = some op) : IsInner kind := by
  cases kind with
  | punct p => cases p <;> first | decide | cases found
  | _ => cases found

theorem isInner_of_precedence {kind : Kind} (found : Precedence.ofKind? kind = some precedence) :
    IsInner kind := by
  cases kind with
  | punct p => cases p <;> first | decide | cases found
  | _ => cases found

theorem isInner_of_isAssignment {kind : Kind} (assigns : kind.isAssignment = true) :
    IsInner kind := by
  cases kind with
  | punct p => cases p <;> first | decide | cases assigns
  | _ => cases assigns

variable (d : Discipline) {nest : Nest} (nests : ∀ level, d.Closing none Anywhere (nest level))
  {here : Kind → Prop}

theorem leaf {kind : Kind} (inner : IsInner kind) (node : Node) :
    d.Firm (· = kind) (Parser.leaf node) := d.stepAt inner (d.pure _)

/-- A token that is read for its text. -/
theorem read {kind : Kind} (inner : IsInner kind) {next : Token → Parser Node}
    (alike : ∀ token : Token, token.kind = kind → d.Firm (· = kind) (next token)) :
    d.Firm (· = kind) (Parser.current >>= next) := by
  refine d.current (fun token same => ?_) fun _ _ _ _ same => ?_
  · rw [same]
    exact alike token same
  · exact absurd (.inl rfl) (same ▸ inner.within)

theorem isInner_literal (kind : Token.LiteralKind) : IsInner (.literal kind) :=
  ⟨nofun, nofun, rfl⟩

theorem integer : d.Firm (· = .literal .integer) Parser.integer := by
  refine d.read (by decide) fun token _ => ?_
  split
  · exact d.leaf (by decide) _
  · exact d.fail _ _
  · exact d.fail _ _

theorem float : d.Firm (· = .literal .float) Parser.float := by
  refine d.read (by decide) fun token _ => ?_
  split
  · exact d.leaf (by decide) _
  · exact d.fail _ _

theorem literal (kind : Token.LiteralKind) :
    d.Firm (· = .literal kind) (Parser.literal kind) := by
  unfold Parser.literal
  cases kind with
  | integer => exact d.integer
  | float => exact d.float
  | character =>
    refine d.read (by decide) fun token _ => ?_
    split
    · exact d.leaf (by decide) _
    · exact d.failAt _
  | _ => exact d.advanceAt (by decide) fun _ => d.pure _

include nests

theorem group : d.Firm (· = .punct .openParen) (Parser.group nest) := by
  refine d.opener rfl (d.ends (d.withNoDoLoose false (d.statements nests _)) fun body => ?_)
  exact d.begins (d.closer rfl) fun _ => d.pure _

theorem hashPair : d.Closing none Anywhere (Parser.hashPair nest) := by
  refine d.isAtClosing (d.closing (fun _ same => same ▸ by decide) ?_) ?_
  · exact d.advanceAt (by decide) fun _ => d.firm (d.keyedValue nests _)
  · refine d.begins (nests _) fun key => d.firm (d.acrossLines ?_)
    exact d.begins (d.expect (by decide)) fun _ => d.firm (d.keyedValue nests _)

theorem hash : d.Firm (· = .punct .openBrace) (Parser.hash nest) := by
  refine d.opener rfl (d.ends (d.withNoDoLoose false (d.listLoose ?_)) fun pairs => ?_)
  · refine d.bindLoose d.skipNewLines fun _ => ?_
    refine d.bindLoose (d.loose (d.isAtAlone (by decide))) fun closed => ?_
    refine d.choiceLoose (d.pureLoose _) (d.bindLoose (d.loose (d.firm (d.hashPair nests))) ?_)
    refine fun pair => d.bindLoose d.skipNewLines fun _ => ?_
    refine d.bindLoose (d.loose (d.eatAlone (by decide))) fun more => ?_
    exact d.choiceLoose (d.pureLoose _) (d.pureLoose _)
  · exact d.begins (d.closer rfl) fun _ => d.pure _

theorem array : d.Firm (· = .punct .openBracket) (Parser.array nest) :=
  d.opener rfl (d.begins (d.closedArguments nests rfl) fun _ => d.pure _)

theorem punctuated (p : Punct) : d.Firm (· = .punct p) (Parser.punctuated nest p) := by
  unfold Parser.punctuated
  split
  · exact d.anywhere (d.firm (d.constant nests))
  · exact d.group nests
  · exact d.array nests
  · exact d.hash nests
  · exact d.arrowLambda nests
  · exact d.failAt _

theorem worded (k : Keyword) : d.Firm (· = .keyword k) (Parser.worded nest k) := by
  unfold Parser.worded
  split
  iterate 6 exact d.leaf (by decide) _
  iterate 3 exact d.jump _
  iterate 2 exact d.conditional nests
  iterate 2 exact d.loop nests
  · exact d.switch nests
  · exact d.guarded nests
  · exact d.method nests
  · exact d.classDecl nests
  · exact d.moduleDecl nests
  · exact d.aliasDecl
  · exact d.handBack nests
  · exact d.handOver nests
  · exact d.failAt _

theorem primary : d.Closing none Anywhere (Parser.primary nest) := by
  refine d.kindClosing fun kind _ => ?_
  split
  · exact d.closing (fun _ same => same ▸ (isInner_literal _).within) (d.literal _)
  iterate 3
    exact d.closing (fun _ same => same ▸ by decide) (d.advanceAt (by decide) fun _ => d.pure _)
  · exact d.closing (fun _ same => same ▸ by decide) (d.identifier nests)
  · exact d.anywhereClosing (d.constant nests)
  · exact d.closing (fun _ same => same ▸ nofun) (d.punctuated nests _)
  · exact d.closing (fun _ same => same ▸ (isInner_keyword _).within) (d.worded nests _)
  · exact d.refuses (.failAt _)

theorem postfixStep (receiver : Node) : d.Firm Anywhere (Parser.postfixStep nest receiver) := by
  refine d.current (fun token _ => ?_) fun last broken isLast isBroken _ => ?_
  · split
    iterate 2
      rename_i dot
      rw [dot]
      refine d.stepAt (by decide) (d.firm (d.acrossLines ?_))
      exact d.mapClosing _ (d.methodCall nests _)
    · rename_i colons
      rw [colons]
      refine d.choice (d.pure _) (d.stepAt (by decide) ?_)
      exact d.map _ (d.firm (d.methodCall nests _))
    · rename_i bracket
      rw [bracket]
      refine d.choice (d.opener rfl ?_) (d.pure _)
      exact d.begins (d.closedArguments nests rfl) fun _ => d.pure _
    · exact d.pure _
  · rw [isLast, isBroken]
    exact .inl rfl

theorem postfixed : d.Closing none Anywhere (Parser.postfixed nest) :=
  d.begins (d.primary nests) fun node => d.chain (d.postfixStep nests) node

theorem power : d.Closing none Anywhere (Parser.power nest) := by
  refine d.begins (d.postfixed nests) fun base => d.eat (by decide) ?_ (d.pure _)
  exact d.firm (d.acrossLines (d.begins (nests _) fun _ => d.pure _))

theorem unary : d.Closing none Anywhere (Parser.unary nest) := by
  refine d.kindClosing fun kind _ => ?_
  split
  · exact d.anywhereClosing (d.power nests)
  · rename_i op found
    have inner := isInner_of_unaryOp found
    refine d.closing (fun _ same => same ▸ inner.within) (d.stepAt inner (d.firm ?_))
    exact d.begins (nests _) fun _ => d.pure _

theorem binaryStep (above : Precedence) (lhs : Node) :
    d.Firm Anywhere (Parser.binaryStep nest above lhs) := by
  refine d.kind (fun kind _ => ?_) fun _ => .inl rfl
  split
  · exact d.pure _
  · rename_i precedence found
    refine d.choice (d.pure _) (d.advanceAt (isInner_of_precedence found) fun operator => ?_)
    exact d.firm (d.acrossLines (d.begins (nests _) fun _ => d.pure _))

theorem binary (above : Precedence) : d.Closing none Anywhere (Parser.binary nest above) :=
  d.begins (d.unary nests) fun lhs => d.chain (d.binaryStep nests above) lhs

theorem range : d.Closing none Anywhere (Parser.range nest) := by
  refine d.begins (d.binary nests _) fun first => d.kind (fun kind _ => ?_) fun _ => .inl rfl
  split
  · rename_i sign
    have inner : IsInner kind := by
      rcases Bool.or_eq_true_iff.mp sign with same | same
      · exact beq_iff_eq.mp same ▸ by decide
      · exact beq_iff_eq.mp same ▸ by decide
    refine d.stepAt inner (d.firm (d.acrossLines ?_))
    exact d.begins (d.binary nests _) fun _ => d.pure _
  · exact d.pure _

theorem negation : d.Closing none Anywhere (Parser.negation nest) := by
  refine d.eatClosing (by decide) ?_ (d.range nests)
  exact d.bind (d.firm (nests _)) fun _ => d.pure _

theorem weakLogicalStep (lhs : Node) : d.Firm Anywhere (Parser.weakLogicalStep nest lhs) := by
  have rest (op : Tree.WeakOp) : d.Firm Anywhere _ := d.firm <| d.acrossLines <|
    d.begins (d.negation nests) fun rhs => d.pure (some (Node.weakLogical op lhs rhs))
  refine d.kind (fun kind _ => ?_) fun _ => .inl rfl
  dsimp only
  split
  · rw [pure_bind]
    exact d.stepAt (isInner_keyword _) (rest _)
  · rw [pure_bind]
    exact d.stepAt (isInner_keyword _) (rest _)
  · exact d.pure _

theorem weakLogical : d.Closing none Anywhere (Parser.weakLogical nest) :=
  d.begins (d.negation nests) fun lhs => d.chain (d.weakLogicalStep nests) lhs

theorem ternary : d.Closing none Anywhere (Parser.ternary nest) := by
  refine d.begins (d.weakLogical nests) fun condition => d.eat (by decide) ?_ (d.pure _)
  refine d.firm (d.acrossLines (d.begins (nests _) fun ifTrue => d.firm (d.acrossLines ?_)))
  refine d.begins (d.expect (by decide)) fun _ => d.firm (d.acrossLines ?_)
  exact d.begins (nests _) fun _ => d.pure _

theorem assignedValue : d.Closing none Anywhere (Parser.assignedValue nest) := by
  refine d.begins (nests _) fun value => d.eat (by decide) ?_ (d.pure _)
  exact d.bind (d.firm (nests _)) fun _ => d.pure _

theorem assignment : d.Closing none Anywhere (Parser.assignment nest) := by
  refine d.begins (d.ternary nests) fun target => d.kind (fun kind _ => ?_) fun _ => .inl rfl
  split
  · rename_i assigns
    refine d.advanceAt (isInner_of_isAssignment assigns) fun operator => d.firm (d.acrossLines ?_)
    refine d.begins (d.assignedValue nests) fun value => d.choice (d.pure _) ?_
    dsimp only
    split
    · exact d.choice (d.pure _) (d.pure _)
    · exact d.firm (d.refuses (.first (.fail _ _)))
  · exact d.pure _

/-- The levels of nesting of the grammar keep to every discipline that the levels
further in keep to. -/
theorem atLevel (level : Level) : d.Closing none Anywhere (Parser.atLevel nest level) := by
  cases level with
  | expression => exact d.assignment nests
  | ternary => exact d.ternary nests
  | negation => exact d.negation nests
  | binary above => exact d.binary nests above
  | unary => exact d.unary nests
  | postfixed => exact d.postfixed nests

omit nests

/-- The grammar keeps to every discipline. -/
theorem nested (depth : Nat) (level : Level) :
    d.Closing none Anywhere (Parser.nested depth level) := by
  induction depth generalizing level with
  | zero => exact d.refuses fun _ _ => ⟨_, rfl⟩
  | succ depth ih => exact d.atLevel ih level

end RubySyntax.Grammar.Discipline
