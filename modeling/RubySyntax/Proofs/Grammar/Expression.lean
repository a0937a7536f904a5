import RubySyntax.Grammar.Expression
import RubySyntax.Proofs.Grammar.Construct

namespace RubySyntax.Grammar

open RubySyntax.Tree (Node)
open Token (Kind Punct Keyword)

namespace Parser

/-- A primary expression that begins with neither a number nor an identifier. -/
def unnamed (nest : Nest) (kind : Kind) : Parser Node := do
  match kind with
  | .literal .integer | .literal .float => failAt .expressionExpected
  | .literal kind => literal kind
  | .instanceVariable => return .instanceVariable (withoutSigil '@' (← advance).text)
  | .classVariable => return .classVariable (withoutSigil '@' (← advance).text)
  | .globalVariable => return .globalVariable (String.ofList ((← advance).text.toList.drop 1))
  | .constant => constant nest
  | .punct p => punctuated nest p
  | .keyword k => worded nest k
  | _ => failAt .expressionExpected

/-- A primary expression that begins with no number. -/
def unnumbered (nest : Nest) : Parser Node :=
  kind >>= fun kind =>
    if kind == .identifier then advance >>= fun name => current >>= fun behind =>
      identifierFrom nest name.text (startsCommandArgument behind)
    else unnamed nest kind

theorem primary_eq (nest : Nest) : primary nest = numberOr (unnumbered nest) := by
  funext scope cursor
  have looks {β : Type} (next : Kind → Parser β) :
      (kind >>= next) scope cursor = next cursor.token.kind scope cursor := rfl
  unfold primary numberOr unnumbered
  rw [looks, looks]
  cases here : cursor.token.kind with
  | literal literalKind =>
    cases literalKind
    case integer => rfl
    case float => rfl
    all_goals
      dsimp only
      rw [looks, here]
      rfl
  | identifier =>
    dsimp only
    rw [looks, here, identifier_eq]
    rfl
  | _ =>
    dsimp only
    rw [looks, here]
    rfl

end Parser

namespace Congruence

variable {Alike : {α : Type} → Parser α → Parser α → Prop} (laws : Congruence Alike)
  {nest nest' : Nest} (nests : ∀ level, Alike (nest level) (nest' level))

include laws nests

theorem hashPair : Alike (Parser.hashPair nest) (Parser.hashPair nest') := by
  refine laws.bind (laws.isAt _) fun label => choice ?_ ?_
  · exact laws.advance fun _ _ => laws.keyedValue nests _
  · refine laws.bind (nests _) fun key => laws.behind laws.skipNewLines ?_
    exact laws.behind (laws.expect _) (laws.keyedValue nests _)

theorem postfixStep (receiver : Node) :
    Alike (Parser.postfixStep nest receiver) (Parser.postfixStep nest' receiver) := by
  refine laws.current fun token place => ?_
  rw [Token.kind_placed]
  split
  iterate 2 exact laws.step (laws.behind laws.skipNewLines (laws.map _ (laws.methodCall nests _)))
  · rename_i scope
    rw [Token.isSpacedBefore_placed place (by rw [scope]; nofun)]
    refine choice (laws.pure _) (laws.step ?_)
    exact laws.map _ (laws.methodCall nests _)
  · rename_i bracket
    rw [Token.isPrefixPosition_placed place bracket]
    refine choice (laws.step ?_) (laws.pure _)
    exact laws.bind (laws.closedArguments nests _) fun _ => laws.pure _
  · exact laws.pure _

theorem binaryStep (above : Precedence) (lhs : Node) :
    Alike (Parser.binaryStep nest above lhs) (Parser.binaryStep nest' above lhs) := by
  refine laws.bind laws.kind fun kind => ?_
  split
  · exact laws.pure _
  · refine choice (laws.pure _) (laws.advance fun operator _ => ?_)
    exact laws.behind laws.skipNewLines (laws.bind (nests _) fun _ => laws.pure _)

theorem assignedValue : Alike (Parser.assignedValue nest) (Parser.assignedValue nest') := by
  refine laws.bind (nests _) fun value => laws.bind (laws.eat _) fun found => ?_
  exact choice (laws.bind (nests _) fun _ => laws.pure _) (laws.pure _)

end Congruence

namespace Opening

open Congruence (choice)

variable {Alike Opens : {α : Type} → Parser α → Parser α → Prop} (opening : Opening Alike Opens)
  {nest nest' : Nest} (nests : ∀ level, Alike (nest level) (nest' level))

include opening

theorem leaf (node : Node) : Opens (Parser.leaf node) (Parser.leaf node) :=
  opening.step (opening.laws.pure _)

/-- A literal that is no number. -/
theorem literal {kind : Token.LiteralKind} (plain : kind ≠ .integer ∧ kind ≠ .float) :
    Opens (Parser.literal kind) (Parser.literal kind) := by
  unfold Parser.literal
  cases kind with
  | integer => exact absurd rfl plain.1
  | float => exact absurd rfl plain.2
  | character =>
    refine opening.current fun token _ => ?_
    dsimp only [Token.placed]
    split
    · exact opening.leaf _
    · exact opening.failAt _ rfl
  | _ => exact opening.advance fun _ _ => opening.laws.pure _

include nests

theorem group : Opens (Parser.group nest) (Parser.group nest') := by
  have laws := opening.laws
  refine opening.step ?_
  refine laws.bind (laws.withNoDo false (laws.statements nests _)) fun body => ?_
  exact laws.behind (laws.expect _) (laws.pure _)

theorem hash : Opens (Parser.hash nest) (Parser.hash nest') := by
  have laws := opening.laws
  refine opening.step (laws.bind (laws.withNoDo false (laws.list ?_)) fun pairs => ?_)
  · refine laws.behind laws.skipNewLines (laws.bind (laws.isAt _) fun closed => ?_)
    refine choice (laws.pure _) (laws.bind (laws.hashPair nests) fun pair => ?_)
    refine laws.behind laws.skipNewLines (laws.bind (laws.eat _) fun more => ?_)
    exact choice (laws.pure _) (laws.pure _)
  · exact laws.behind (laws.expect _) (laws.pure _)

theorem array : Opens (Parser.array nest) (Parser.array nest') := by
  have laws := opening.laws
  exact opening.step (laws.bind (laws.closedArguments nests _) fun _ => laws.pure _)

theorem punctuated (p : Punct) : Opens (Parser.punctuated nest p) (Parser.punctuated nest' p) := by
  unfold Parser.punctuated
  split
  · exact opening.constant nests
  · exact opening.group nests
  · exact opening.array nests
  · exact opening.hash nests
  · exact opening.arrowLambda nests
  · exact opening.failAt _ rfl

theorem worded (k : Keyword) : Opens (Parser.worded nest k) (Parser.worded nest' k) := by
  unfold Parser.worded
  split
  iterate 6 exact opening.leaf _
  iterate 3 exact opening.jump _
  iterate 2 exact opening.conditional nests
  iterate 2 exact opening.loop nests
  · exact opening.switch nests
  · exact opening.guarded nests
  · exact opening.method nests
  · exact opening.classDecl nests
  · exact opening.moduleDecl nests
  · exact opening.aliasDecl
  · exact opening.handBack nests
  · exact opening.handOver nests
  · exact opening.failAt _ rfl

theorem unnamed (kind : Kind) : Opens (Parser.unnamed nest kind) (Parser.unnamed nest' kind) := by
  unfold Parser.unnamed
  split
  iterate 2 exact opening.failAt _ rfl
  · rename_i noInteger noFloat
    exact opening.literal ⟨noInteger, noFloat⟩
  iterate 3 exact opening.advance fun _ _ => opening.laws.pure _
  · exact opening.constant nests
  · exact opening.punctuated nests _
  · exact opening.worded nests _
  · exact opening.failAt _ rfl

theorem primary : Opens (Parser.primary nest) (Parser.primary nest') := by
  rw [Parser.primary_eq, Parser.primary_eq]
  refine opening.numberOr ?_
  apply opening.command (· == .identifier)
  · intro kind identifier
    rw [beq_iff_eq.mp identifier]
    rfl
  · exact fun name _ starts => opening.laws.identifierFrom nests name.text starts
  · exact fun kind => opening.unnamed nests kind

theorem postfixed : Opens (Parser.postfixed nest) (Parser.postfixed nest') :=
  opening.bind (opening.primary nests) fun node =>
    opening.laws.chain (opening.laws.postfixStep nests) node

theorem power : Opens (Parser.power nest) (Parser.power nest') := by
  have laws := opening.laws
  refine opening.bind (opening.postfixed nests) fun base => laws.bind (laws.eat _) fun found => ?_
  refine choice (laws.behind laws.skipNewLines ?_) (laws.pure _)
  exact laws.bind (nests _) fun _ => laws.pure _

theorem unary : Opens (Parser.unary nest) (Parser.unary nest') := by
  refine opening.kind fun kind => ?_
  split
  · exact opening.power nests
  · exact opening.step (opening.laws.bind (nests _) fun _ => opening.laws.pure _)

theorem binary (above : Precedence) :
    Opens (Parser.binary nest above) (Parser.binary nest' above) :=
  opening.bind (opening.unary nests) fun lhs =>
    opening.laws.chain (opening.laws.binaryStep nests above) lhs

theorem range : Opens (Parser.range nest) (Parser.range nest') := by
  have laws := opening.laws
  refine opening.bind (opening.binary nests _) fun first => laws.bind laws.kind fun kind => ?_
  refine choice (laws.step (laws.behind laws.skipNewLines ?_)) (laws.pure _)
  exact laws.bind (laws.opening.binary nests _) fun _ => laws.pure _

theorem negation : Opens (Parser.negation nest) (Parser.negation nest') := by
  refine opening.eat _ ?_ (opening.range nests)
  exact opening.laws.bind (nests _) fun _ => opening.laws.pure _

theorem weakLogicalStep (lhs : Node) :
    Alike (Parser.weakLogicalStep nest lhs) (Parser.weakLogicalStep nest' lhs) := by
  have laws := opening.laws
  have rest (op : Tree.WeakOp) := laws.step <| laws.behind laws.skipNewLines <|
    laws.bind (laws.opening.negation nests) fun rhs =>
      laws.pure (some (Node.weakLogical op lhs rhs))
  refine laws.bind laws.kind fun kind => ?_
  dsimp only
  split
  · exact laws.bind (laws.pure _) rest
  · exact laws.bind (laws.pure _) rest
  · exact laws.pure _

theorem weakLogical : Opens (Parser.weakLogical nest) (Parser.weakLogical nest') :=
  opening.bind (opening.negation nests) fun lhs =>
    opening.laws.chain (opening.weakLogicalStep nests) lhs

theorem ternary : Opens (Parser.ternary nest) (Parser.ternary nest') := by
  have laws := opening.laws
  refine opening.bind (opening.weakLogical nests) fun condition =>
    laws.bind (laws.eat _) fun found => ?_
  refine choice (laws.behind laws.skipNewLines (laws.bind (nests _) fun ifTrue => ?_)) (laws.pure _)
  refine laws.behind laws.skipNewLines (laws.behind (laws.expect _) ?_)
  exact laws.behind laws.skipNewLines (laws.bind (nests _) fun _ => laws.pure _)

theorem assignment : Opens (Parser.assignment nest) (Parser.assignment nest') := by
  have laws := opening.laws
  refine opening.bind (opening.ternary nests) fun target => laws.bind laws.kind fun kind => ?_
  refine choice (laws.advance fun operator _ => ?_) (laws.pure _)
  refine laws.behind laws.skipNewLines (laws.bind (laws.assignedValue nests) fun value => ?_)
  refine choice (laws.pure _) (laws.unlessThen (laws.fail _ _ rfl) ?_)
  exact choice (laws.pure _) (laws.pure _)

/-- Each level reads a token before anything nests in it. -/
theorem atLevel (level : Level) :
    Opens (Parser.atLevel nest level) (Parser.atLevel nest' level) := by
  cases level with
  | expression => exact opening.assignment nests
  | ternary => exact opening.ternary nests
  | negation => exact opening.negation nests
  | binary above => exact opening.binary nests above
  | unary => exact opening.unary nests
  | postfixed => exact opening.postfixed nests

end Opening

/-- What the levels of nesting keep, the grammar keeps. -/
theorem Congruence.atLevel {Alike : {α : Type} → Parser α → Parser α → Prop} (laws : Congruence Alike)
    {nest nest' : Nest} (nests : ∀ level, Alike (nest level) (nest' level)) (level : Level) :
    Alike (Parser.atLevel nest level) (Parser.atLevel nest' level) := laws.opening.atLevel nests level

end RubySyntax.Grammar
