import RubySyntax.Grammar.Program
import RubySyntax.Proofs.Grammar.Evaluation
import RubySyntax.Proofs.Grammar.Expression

/-! Expressions that are one primary expression. What operators, assignments and
modifiers make of a node is never the definition of a method or a call without a
receiver, and at the end of a statement they add nothing. -/
namespace RubySyntax.Grammar

open RubySyntax.Tree (Node)
open Token (Kind Punct Keyword)
open Grammar.Parser

/-- A statement ends in front of tokens of this kind. -/
def EndsStatement (kind : Kind) : Prop := kind = .endOfFile ∨ kind.isSeparator = true

theorem EndsStatement.cases {kind : Kind} (ends : EndsStatement kind) :
    kind = .endOfFile ∨ kind = .newLine ∨ kind = .semicolon := by
  rcases ends with ended | separator
  · exact .inl ended
  · unfold Kind.isSeparator at separator
    split at separator
    · exact .inr (.inl rfl)
    · exact .inr (.inr rfl)
    · cases separator

instance (kind : Kind) : Decidable (EndsStatement kind) := inferInstanceAs (Decidable (_ ∨ _))

theorem EndsStatement.ne {kind other : Kind} (ends : EndsStatement kind)
    (further : ¬ EndsStatement other) : kind ≠ other := fun same => further (same ▸ ends)

/-- Nothing goes on with an expression in front of a token of this kind. -/
inductive EndsExpression : Kind → Prop where
  | endOfFile : EndsExpression .endOfFile
  | newLine : EndsExpression .newLine
  | semicolon : EndsExpression .semicolon
  | comma : EndsExpression (.punct .comma)
  | hashArrow : EndsExpression (.punct .hashArrow)
  | closeBracket : EndsExpression (.punct .closeBracket)
  | closeBrace : EndsExpression (.punct .closeBrace)
  | aliasKw : EndsExpression (.keyword .aliasKw)
  | breakKw : EndsExpression (.keyword .breakKw)
  | classKw : EndsExpression (.keyword .classKw)
  | moduleKw : EndsExpression (.keyword .moduleKw)
  | nextKw : EndsExpression (.keyword .nextKw)
  | retryKw : EndsExpression (.keyword .retryKw)
  | returnKw : EndsExpression (.keyword .returnKw)
  | yieldKw : EndsExpression (.keyword .yieldKw)

theorem EndsStatement.endsExpression {kind : Kind} (ends : EndsStatement kind) :
    EndsExpression kind := by
  rcases ends.cases with rfl | rfl | rfl
  · exact .endOfFile
  · exact .newLine
  · exact .semicolon

theorem EndsExpression.ne {kind other : Kind} (ends : EndsExpression kind)
    (further : ¬ EndsExpression other) : kind ≠ other := fun same => further (same ▸ ends)

/-- Tokens of this kind end no statement, and no operator or list of targets begins
with them. -/
structure BeginsPlain (kind : Kind) : Prop where
  begins : ¬ EndsStatement kind
  known : kind ≠ .unknown
  unsigned : unaryOp? kind = none
  positive : kind ≠ .keyword .notKw
  single : kind ≠ .punct .asterisk

/-- A statement that is no list of targets begins with tokens of this kind. -/
structure BeginsStatement (kind : Kind) : Prop where
  begins : ¬ EndsStatement kind
  known : kind ≠ .unknown
  single : kind ≠ .punct .asterisk

theorem BeginsPlain.beginsStatement {kind : Kind} (plain : BeginsPlain kind) :
    BeginsStatement kind := ⟨plain.begins, plain.known, plain.single⟩

theorem beginsPlain_literal (kind : Token.LiteralKind) : BeginsPlain (.literal kind) where
  begins := by
    rintro (⟨⟨⟩⟩ | ⟨⟨⟩⟩)
  known := nofun
  unsigned := rfl
  positive := nofun
  single := nofun

/-- The definition of a method, or a call without a receiver. -/
def isPlain : Node → Bool
  | .method .. | .call none .. => true
  | _ => false

variable {α β : Type} {nest : Nest} {node : Node} {scope : Scope} {cursor final : Cursor}

/-- All that the parser hands back satisfies the predicate. -/
def Builds (holds : α → Prop) (parser : Parser α) : Prop :=
  ∀ scope cursor value final, parser scope cursor = .ok (value, final) → holds value

namespace Builds

variable {holds : α → Prop}

theorem pure {value : α} (fits : holds value) : Builds holds (pure value) := by
  intro scope cursor read final done
  cases done
  exact fits

theorem bind {first : Parser β} {next : β → Parser α} (more : ∀ value, Builds holds (next value)) :
    Builds holds (first >>= next) := by
  intro scope cursor value final done
  obtain ⟨read, middle, _, rest⟩ := bind_eq_ok done
  exact more read scope middle value final rest

theorem map {parser : Parser β} {f : β → α} (fits : Builds (fun value => holds (f value)) parser) :
    Builds holds (f <$> parser) := by
  intro scope cursor value final done
  obtain ⟨read, start, rfl⟩ := map_eq_ok done
  exact fits scope cursor read final start

theorem dite {c : Prop} [Decidable c] {yes no : Parser α} (first : c → Builds holds yes)
    (second : ¬ c → Builds holds no) : Builds holds (if c then yes else no) := by
  split
  · rename_i condition
    exact first condition
  · rename_i condition
    exact second condition

theorem ite {c : Prop} [Decidable c] {yes no : Parser α} (first : Builds holds yes)
    (second : Builds holds no) : Builds holds (if c then yes else no) :=
  dite (fun _ => first) fun _ => second

/-- Nothing is handed back behind a failure. -/
theorem fail {next : Unit → Parser α} (message : Diagnostic.Message) (args : List String) :
    Builds holds (fail message args >>= next) := by
  intro scope cursor value final done
  obtain ⟨_, _, failed, _⟩ := bind_eq_ok done
  cases failed

end Builds

/-- The parser hands back the value and leaves the tokens, or what it hands back
satisfies the predicate. -/
def Stays (value : α) (other : α → Prop) (parser : Parser α) : Prop :=
  ∀ scope cursor read final, parser scope cursor = .ok (read, final) →
    read = value ∧ final = cursor ∨ other read

namespace Stays

variable {value : α} {other : α → Prop}

theorem pure (value : α) : Stays value other (pure value) := by
  intro scope cursor read final done
  cases done
  exact .inl ⟨rfl, rfl⟩

theorem builds {parser : Parser α} (fits : Builds other parser) : Stays value other parser :=
  fun scope cursor read final done => .inr (fits scope cursor read final done)

theorem current {next : Token → Parser α} (more : ∀ token, Stays value other (next token)) :
    Stays value other (current >>= next) := by
  intro scope cursor read final done
  rw [bind_ok _ (current_eq scope cursor)] at done
  exact more cursor.token scope cursor read final done

theorem kind {next : Kind → Parser α} (more : ∀ kind, Stays value other (next kind)) :
    Stays value other (Parser.kind >>= next) := by
  intro scope cursor read final done
  rw [bind_ok _ (kind_eq scope cursor)] at done
  exact more cursor.token.kind scope cursor read final done

theorem isAt {kind : Kind} {next : Bool → Parser α} (more : ∀ found, Stays value other (next found)) :
    Stays value other (Parser.isAt kind >>= next) := by
  intro scope cursor read final done
  rw [bind_ok _ (isAt_eq kind scope cursor)] at done
  exact more _ scope cursor read final done

theorem ite {c : Prop} [Decidable c] {yes no : Parser α} (first : Stays value other yes)
    (second : Stays value other no) : Stays value other (if c then yes else no) := by
  split
  · exact first
  · exact second

/-- Behind a token that has been eaten the value is not handed back. -/
theorem eat {kind : Kind} {yes no : Parser α} (eaten : Builds other yes)
    (left : Stays value other no) :
    Stays value other (Parser.eat kind >>= fun found => if found then yes else no) := by
  intro scope cursor read final done
  obtain ⟨found, middle, eats, rest⟩ := bind_eq_ok done
  obtain ⟨rfl, rfl⟩ | ⟨rfl, _, _, _⟩ := eat_eq_ok eats
  · exact left scope middle read final rest
  · exact .inr (eaten scope middle read final rest)

end Stays

abbrev BuildsOther (parser : Parser Node) : Prop := Builds (fun built => isPlain built = false) parser

/-- A step is taken to a node that is not plain. -/
def IsStep (read : Option Node) : Prop := ∃ built, read = some built ∧ isPlain built = false

theorem IsStep.pure {built : Node} (other : isPlain built = false) :
    Builds IsStep (Pure.pure (some built)) := Builds.pure ⟨built, rfl, other⟩

/-- What a parser makes of a node in front of it: where it ends nothing, and elsewhere
nothing or a node that is not plain. -/
structure Continues (ends : Kind → Prop) (more : Node → Parser Node) : Prop where
  ended (node : Node) (scope : Scope) (cursor : Cursor) :
    ends cursor.token.kind → more node scope cursor = .ok (node, cursor)
  stays (node : Node) : Stays node (fun built => isPlain built = false) (more node)

/-- Nothing is added to what has been read up to the end. -/
theorem Continues.bind_ended {here : Kind → Prop} {first : Parser Node}
    {more : Node → Parser Node} (continues : Continues here more) (ends : here final.token.kind)
    (read : first scope cursor = .ok (node, final)) :
    (first >>= more) scope cursor = .ok (node, final) :=
  (bind_ok _ read).trans (continues.ended _ _ _ ends)

theorem Continues.bind_iff {here : Kind → Prop} {first : Parser Node}
    {more : Node → Parser Node} (continues : Continues here more) (plain : isPlain node = true)
    (ends : here final.token.kind) :
    (first >>= more) scope cursor = .ok (node, final) ↔ first scope cursor = .ok (node, final) := by
  refine ⟨fun done => ?_, continues.bind_ended ends⟩
  obtain ⟨read, middle, start, rest⟩ := bind_eq_ok done
  obtain ⟨rfl, rfl⟩ | other := continues.stays _ _ _ _ _ rest
  · exact start
  · rw [plain] at other
    cases other

/-- What one step of a loop makes of a node: at the end of an expression nothing, and
elsewhere nothing or a node that is not plain. -/
structure ContinuesBy (step : Node → Parser (Option Node)) : Prop where
  ended (node : Node) (scope : Scope) (cursor : Cursor) :
    EndsExpression cursor.token.kind → step node scope cursor = .ok (none, cursor)
  stays (node : Node) : Stays none IsStep (step node)

theorem ContinuesBy.chain {step : Node → Parser (Option Node)} (continues : ContinuesBy step) :
    Continues EndsExpression (Parser.chain step) where
  ended node scope cursor ends := chain_none (continues.ended node scope cursor ends)
  stays := by
    intro node scope cursor made final done
    fun_induction Parser.chain step node scope cursor with
    | case1 node cursor error failed => cases done
    | case2 node cursor middle stepped =>
      cases done
      obtain ⟨_, same⟩ | ⟨_, absurd, _⟩ := continues.stays _ _ _ _ _ stepped
      · exact .inl ⟨rfl, same⟩
      · cases absurd
    | case3 node cursor grown middle stepped moved ih =>
      obtain ⟨absurd, _⟩ | ⟨_, same, other⟩ := continues.stays _ _ _ _ _ stepped
      · cases absurd
      · cases same
        obtain ⟨rfl, _⟩ | other := ih done
        · exact .inr other
        · exact .inr other
    | case4 node cursor grown middle stepped stuck => cases done

/-- At the end of an expression the kind of the current token tells no more than that. -/
theorem kind_of_ends {next : Kind → Parser α} {value : α}
    (ends : EndsExpression cursor.token.kind)
    (same : ∀ kind, EndsExpression kind → next kind = pure value) :
    (kind >>= next) scope cursor = .ok (value, cursor) := by
  rw [bind_ok _ (kind_eq scope cursor), same _ ends]
  rfl

section Layers

theorem callRest_builds (receiver : Node) (name : String) :
    BuildsOther (callRest nest (some receiver) name) := by
  have rest (args : List Node) : BuildsOther (do
      return .call (some receiver) name args (← block nest)) :=
    Builds.bind fun _ => .pure rfl
  refine Builds.bind fun opened => Builds.bind fun token => .ite ?_ (.ite ?_ ?_)
  · exact Builds.bind fun _ => Builds.bind rest
  · exact Builds.bind rest
  · exact Builds.bind rest

theorem methodCall_builds (receiver : Node) : Builds IsStep (some <$> methodCall nest receiver) := by
  have rest : BuildsOther (do callRest nest (some receiver) (← advance).text) :=
    Builds.bind fun name => callRest_builds receiver name.text
  have call : BuildsOther (methodCall nest receiver) :=
    Builds.bind fun kind => .ite rest (Builds.bind fun _ => rest)
  exact .map fun scope cursor built final made => ⟨built, rfl, call scope cursor built final made⟩

theorem postfixStep_continues (nest : Nest) : ContinuesBy (postfixStep nest) where
  ended node scope cursor ends := by
    unfold postfixStep
    rw [bind_ok _ (current_eq scope cursor)]
    generalize cursor.token.kind = kind at ends
    cases ends <;> rfl
  stays node := by
    refine .current fun token => ?_
    split
    iterate 2 exact .builds (Builds.bind fun _ => Builds.bind fun _ => methodCall_builds node)
    · exact .ite (.pure none) (.builds (Builds.bind fun _ => methodCall_builds node))
    · exact .ite (.builds (Builds.bind fun _ => Builds.bind fun _ => IsStep.pure rfl)) (.pure none)
    · exact .pure none

theorem exponent_continues (nest : Nest) : Continues EndsExpression fun base => do
    unless ← eat Punct.power do return base
    skipNewLines
    return .operatorCall base "**" (← nest .unary) where
  ended node scope cursor ends := by
    have other : ¬ EndsExpression (.punct .power) := by rintro ⟨⟩
    rw [bind_ok _ (eat_other (ends.ne other))]
    rfl
  stays node := .eat (Builds.bind fun _ => Builds.bind fun _ => .pure rfl) (.pure node)

theorem binaryStep_continues (nest : Nest) (above : Precedence) :
    ContinuesBy (binaryStep nest above) where
  ended _ _ _ ends := kind_of_ends ends fun _ ends => by cases ends <;> rfl
  stays node := by
    refine .kind fun kind => ?_
    split
    · exact .pure none
    · refine .ite (.pure none) (.builds ?_)
      exact Builds.bind fun _ => Builds.bind fun _ => Builds.bind fun _ => IsStep.pure rfl

theorem rangeEnd_continues (nest : Nest) : Continues EndsExpression fun first => do
    let kind ← kind
    unless kind == .punct .range || kind == .punct .exclusiveRange do return first
    discard advance
    skipNewLines
    return .range first (← binary nest .lowest) (kind == .punct .exclusiveRange) where
  ended _ _ _ ends := kind_of_ends ends fun _ ends => by cases ends <;> rfl
  stays node := by
    refine .kind fun kind => .ite (.builds ?_) (.pure node)
    exact Builds.bind fun _ => Builds.bind fun _ => Builds.bind fun _ => .pure rfl

theorem weakLogicalStep_continues (nest : Nest) : ContinuesBy (weakLogicalStep nest) where
  ended _ _ _ ends := kind_of_ends ends fun _ ends => by cases ends <;> rfl
  stays node := by
    refine .kind fun kind => ?_
    dsimp only
    split
    iterate 2
      refine .builds (Builds.bind fun _ => Builds.bind fun _ => Builds.bind fun _ => ?_)
      exact Builds.bind fun _ => IsStep.pure rfl
    · exact .pure none

theorem branches_continue (nest : Nest) : Continues EndsExpression fun condition => do
    unless ← eat Punct.question do return condition
    skipNewLines
    let ifTrue ← nest .ternary
    skipNewLines
    discard (expect Punct.colon)
    skipNewLines
    return .ternary condition ifTrue (← nest .ternary) where
  ended node scope cursor ends := by
    have other : ¬ EndsExpression (.punct .question) := by rintro ⟨⟩
    rw [bind_ok _ (eat_other (ends.ne other))]
    rfl
  stays node := by
    refine .eat (Builds.bind fun _ => Builds.bind fun _ => Builds.bind fun _ => ?_) (.pure node)
    exact Builds.bind fun _ => Builds.bind fun _ => Builds.bind fun _ => .pure rfl

theorem isPlain_assign {target : Node} (assignable : isAssignable target = true) (value : Node) :
    isPlain (assign target value) = false := by
  unfold isAssignable at assignable
  split at assignable
  all_goals first | rfl | cases assignable

theorem assigned_continues (nest : Nest) : Continues EndsExpression fun target => do
    unless (← kind).isAssignment do return target
    let operator ← advance
    skipNewLines
    let value ← assignedValue nest
    if operator.kind.isCompoundAssignment then
      return .operatorCall target operator.text value
    unless isAssignable target do fail .cannotAssign [target.describe]
    if operator.kind == .punct .orAssign then return .conditionalAssignment target value
    return assign target value where
  ended _ _ _ ends := kind_of_ends ends fun _ ends => by cases ends <;> rfl
  stays node := by
    refine .kind fun kind => .ite (.builds ?_) (.pure node)
    refine Builds.bind fun operator => Builds.bind fun _ => Builds.bind fun value => ?_
    refine .ite (.pure rfl) (.dite (fun assignable => ?_) fun _ => .fail _ _)
    exact .ite (.pure rfl) (.pure (isPlain_assign assignable value))

theorem modifier_continues (nest : Nest) : ContinuesBy (modifier nest) where
  ended _ _ _ ends := kind_of_ends ends fun _ ends => by cases ends <;> rfl
  stays node := by
    refine .kind fun kind => ?_
    split
    iterate 4 exact .builds (Builds.bind fun _ => Builds.bind fun _ => IsStep.pure rfl)
    · exact .builds (Builds.bind fun _ => Builds.bind fun _ => IsStep.pure rfl)
    · exact .pure none

end Layers

theorem negation_eq (positive : cursor.token.kind ≠ .keyword .notKw) :
    negation nest scope cursor = range nest scope cursor := by
  unfold Parser.negation
  rw [bind_ok _ (eat_other positive)]
  rfl

/-- What the binary operators make is the whole expression where an expression ends. -/
theorem expression_of_binary (ends : EndsExpression final.token.kind)
    (positive : cursor.token.kind ≠ .keyword .notKw)
    (read : binary nest .lowest scope cursor = .ok (node, final)) :
    atLevel nest .expression scope cursor = .ok (node, final) := by
  have range : range nest scope cursor = .ok (node, final) :=
    (rangeEnd_continues nest).bind_ended ends read
  have negation : negation nest scope cursor = .ok (node, final) :=
    (negation_eq positive).trans range
  have weakLogical : weakLogical nest scope cursor = .ok (node, final) :=
    (weakLogicalStep_continues nest).chain.bind_ended ends negation
  have ternary : ternary nest scope cursor = .ok (node, final) :=
    (branches_continue nest).bind_ended ends weakLogical
  exact (assigned_continues nest).bind_ended ends ternary

theorem unary_eq (unsigned : unaryOp? cursor.token.kind = none) :
    unary nest scope cursor = power nest scope cursor := by
  unfold Parser.unary
  rw [bind_ok _ (kind_eq scope cursor), unsigned]

/-- Where no operator stands in front, the parser begins with a primary expression and what
follows it as a receiver. -/
def BeginsPostfixed (nest : Nest) (parser : Parser Node) : Prop :=
  ∃ further : Node → Parser Node, ∀ (scope : Scope) (cursor : Cursor),
    unaryOp? cursor.token.kind = none → cursor.token.kind ≠ .keyword .notKw →
      parser scope cursor = (postfixed nest >>= further) scope cursor

namespace BeginsPostfixed

theorem bind {parser : Parser Node} (begins : BeginsPostfixed nest parser)
    (next : Node → Parser Node) : BeginsPostfixed nest (parser >>= next) := by
  obtain ⟨further, same⟩ := begins
  refine ⟨fun node => further node >>= next, fun scope cursor unsigned positive => ?_⟩
  rw [← bind_assoc]
  exact bind_alike next (same scope cursor unsigned positive)

/-- A parser that is the same where no operator stands in front. -/
theorem of_eq {parser other : Parser Node} (begins : BeginsPostfixed nest other)
    (same : ∀ (scope : Scope) (cursor : Cursor), unaryOp? cursor.token.kind = none →
      cursor.token.kind ≠ .keyword .notKw → parser scope cursor = other scope cursor) :
    BeginsPostfixed nest parser := by
  obtain ⟨further, goes_on⟩ := begins
  refine ⟨further, fun scope cursor unsigned positive => ?_⟩
  rw [same scope cursor unsigned positive, goes_on scope cursor unsigned positive]

theorem atLevel (nest : Nest) (level : Level) : BeginsPostfixed nest (atLevel nest level) := by
  have postfixed : BeginsPostfixed nest (postfixed nest) :=
    ⟨pure, fun _ _ _ _ => by rw [bind_pure]⟩
  have power : BeginsPostfixed nest (power nest) := postfixed.bind _
  have unary : BeginsPostfixed nest (unary nest) := power.of_eq fun _ _ unsigned _ => unary_eq unsigned
  have binary (above : Precedence) : BeginsPostfixed nest (binary nest above) := unary.bind _
  have range : BeginsPostfixed nest (range nest) := (binary .lowest).bind _
  have negation : BeginsPostfixed nest (negation nest) :=
    range.of_eq fun _ _ _ positive => negation_eq positive
  have weakLogical : BeginsPostfixed nest (weakLogical nest) := negation.bind _
  have ternary : BeginsPostfixed nest (ternary nest) := weakLogical.bind _
  cases level with
  | expression => exact ternary.bind _
  | ternary => exact ternary
  | negation => exact negation
  | binary above => exact binary above
  | unary => exact unary
  | postfixed => exact postfixed

end BeginsPostfixed

/-- Where no operator stands in front and no primary expression is read, every level fails
as it does. -/
theorem atLevel_of_refused (unsigned : unaryOp? cursor.token.kind = none)
    (positive : cursor.token.kind ≠ .keyword .notKw)
    (refused : primary nest scope cursor = .error error) (level : Level) :
    atLevel nest level scope cursor = .error error := by
  obtain ⟨further, same⟩ := BeginsPostfixed.atLevel nest level
  rw [same scope cursor unsigned positive]
  exact bind_error _ (bind_error _ refused)

/-- Where no operator stands in front, every level begins with a primary expression. -/
theorem primary_of_atLevel (unsigned : unaryOp? cursor.token.kind = none)
    (positive : cursor.token.kind ≠ .keyword .notKw)
    (read : atLevel nest level scope cursor = .ok (node, final)) :
    ∃ made stop, primary nest scope cursor = .ok (made, stop) := by
  obtain ⟨further, same⟩ := BeginsPostfixed.atLevel nest level
  rw [same scope cursor unsigned positive] at read
  obtain ⟨_, _, postfixed, _⟩ := bind_eq_ok read
  obtain ⟨made, stop, primary, _⟩ := bind_eq_ok postfixed
  exact ⟨made, stop, primary⟩

/-- No operand begins with tokens of these kinds. -/
def idleKinds : List Kind := [.endOfFile, .newLine, .semicolon, .unknown, .punct .asterisk]

theorem signless_of_idle : ∀ kind ∈ idleKinds, unaryOp? kind = none ∧ kind ≠ .keyword .notKw := by
  decide

/-- What begins an expression begins a statement. -/
theorem beginsStatement_of_atLevel (read : atLevel nest level scope cursor = .ok (node, final)) :
    BeginsStatement cursor.token.kind := by
  have begins (kind : Kind) (idle : kind ∈ idleKinds) : cursor.token.kind ≠ kind := by
    intro here
    obtain ⟨unsigned, positive⟩ := signless_of_idle _ (here ▸ idle)
    obtain ⟨made, stop, primary⟩ := primary_of_atLevel unsigned positive read
    unfold Parser.primary at primary
    rw [bind_ok _ (kind_eq ..), here] at primary
    simp only [idleKinds, List.mem_cons, List.not_mem_nil, or_false] at idle
    obtain rfl | rfl | rfl | rfl | rfl := idle
    all_goals cases primary
  refine ⟨fun ends => ?_, begins _ (by decide), begins _ (by decide)⟩
  obtain ended | newLine | semicolon := ends.cases
  · exact begins _ (by decide) ended
  · exact begins _ (by decide) newLine
  · exact begins _ (by decide) semicolon

/-- A primary expression is the whole expression where an expression ends. -/
theorem expression_of_primary (ends : EndsExpression final.token.kind)
    (begins : BeginsPlain cursor.token.kind)
    (read : primary nest scope cursor = .ok (node, final)) :
    atLevel nest .expression scope cursor = .ok (node, final) := by
  have postfixed : postfixed nest scope cursor = .ok (node, final) :=
    (postfixStep_continues nest).chain.bind_ended ends read
  have power : power nest scope cursor = .ok (node, final) :=
    (exponent_continues nest).bind_ended ends postfixed
  have unary : unary nest scope cursor = .ok (node, final) :=
    (unary_eq begins.unsigned).trans power
  have binary : binary nest .lowest scope cursor = .ok (node, final) :=
    (binaryStep_continues nest _).chain.bind_ended ends unary
  exact expression_of_binary ends begins.positive binary

/-- Where no operator stands in front, an expression that is plain is a primary one. -/
theorem expression_iff (plain : isPlain node = true) (ends : EndsExpression final.token.kind)
    (begins : BeginsPlain cursor.token.kind) :
    atLevel nest .expression scope cursor = .ok (node, final) ↔
      primary nest scope cursor = .ok (node, final) := by
  calc assignment nest scope cursor = .ok (node, final)
    _ ↔ ternary nest scope cursor = .ok (node, final) :=
      (assigned_continues nest).bind_iff plain ends
    _ ↔ weakLogical nest scope cursor = .ok (node, final) :=
      (branches_continue nest).bind_iff plain ends
    _ ↔ negation nest scope cursor = .ok (node, final) :=
      (weakLogicalStep_continues nest).chain.bind_iff plain ends
    _ ↔ range nest scope cursor = .ok (node, final) := by rw [negation_eq begins.positive]
    _ ↔ binary nest .lowest scope cursor = .ok (node, final) :=
      (rangeEnd_continues nest).bind_iff plain ends
    _ ↔ unary nest scope cursor = .ok (node, final) :=
      (binaryStep_continues nest _).chain.bind_iff plain ends
    _ ↔ power nest scope cursor = .ok (node, final) := by rw [unary_eq begins.unsigned]
    _ ↔ postfixed nest scope cursor = .ok (node, final) :=
      (exponent_continues nest).bind_iff plain ends
    _ ↔ primary nest scope cursor = .ok (node, final) :=
      (postfixStep_continues nest).chain.bind_iff plain ends

theorem targets_continue (nest : Nest) : Continues (· ≠ .punct .comma) fun expression => do
    if (← isAt Punct.comma) && isListTarget expression then
      return ← multipleAssignment nest expression
    return expression where
  ended node scope cursor ends := by
    rw [bind_ok _ (isAt_other ends)]
    rfl
  stays node := by
    refine .isAt fun comma => .ite (.builds ?_) (.pure node)
    refine Builds.bind fun _ => Builds.bind fun _ => Builds.bind fun assigns => .ite ?_ (.fail _ _)
    exact Builds.bind fun _ => Builds.bind fun _ => Builds.bind fun _ => .pure rfl

/-- An expression is the whole statement where nothing goes on with it. -/
theorem statement_of_expression (ends : EndsExpression final.token.kind)
    (apart : final.token.kind ≠ .punct .comma)
    (single : cursor.token.kind ≠ .punct .asterisk)
    (read : nest .expression scope cursor = .ok (node, final)) :
    statement nest scope cursor = .ok (node, final) := by
  have plain : plainStatement nest scope cursor = .ok (node, final) := by
    unfold plainStatement
    rw [bind_ok _ (eat_other single)]
    exact (targets_continue nest).bind_ended apart read
  exact (modifier_continues nest).chain.bind_ended ends plain

/-- A statement that is plain is an expression. -/
theorem statement_iff (plain : isPlain node = true) (ends : EndsStatement final.token.kind)
    (single : cursor.token.kind ≠ .punct .asterisk) :
    statement nest scope cursor = .ok (node, final) ↔
      nest .expression scope cursor = .ok (node, final) := by
  calc statement nest scope cursor = .ok (node, final)
    _ ↔ plainStatement nest scope cursor = .ok (node, final) :=
      (modifier_continues nest).chain.bind_iff plain ends.endsExpression
    _ ↔ _ := by
      unfold plainStatement
      rw [bind_ok _ (eat_other single)]
      exact (targets_continue nest).bind_iff plain (ends.ne (by decide))

end RubySyntax.Grammar
