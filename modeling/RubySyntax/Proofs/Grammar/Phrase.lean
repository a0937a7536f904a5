import RubySyntax.Proofs.Grammar.Congruence
import RubySyntax.Proofs.Grammar.Evaluation

namespace RubySyntax.Grammar

open RubySyntax.Tree (Node HashPair)
open Token (Kind Punct Keyword)

namespace Parser

namespace Argument

variable {arguments : List Argument}

theorem mem_positional {value : Node} :
    value ∈ arguments.filterMap positional? ↔ positional value ∈ arguments := by
  rw [List.mem_filterMap]
  constructor
  · rintro ⟨argument, written, same⟩
    cases argument with
    | positional _ =>
      cases same
      exact written
    | keyed _ => cases same
  · exact fun written => ⟨_, written, rfl⟩

theorem mem_keyed {pair : HashPair Node} :
    pair ∈ arguments.filterMap keyed? ↔ keyed pair ∈ arguments := by
  rw [List.mem_filterMap]
  constructor
  · rintro ⟨argument, written, same⟩
    cases argument with
    | positional _ => cases same
    | keyed _ =>
      cases same
      exact written
  · exact fun written => ⟨_, written, rfl⟩

end Argument

/-- A block whose opener is the current token. -/
def blockUpTo (nest : Nest) (close : Kind) : Parser (Option (Tree.Block Node)) := do
  discard advance
  let params ← blockParams
  let body ← withNoDo false (statements nest [close])
  discard (expect close)
  return some ⟨params, body⟩

def bracedBlock (nest : Nest) (kind : Kind) : Parser (Option (Tree.Block Node)) :=
  if kind = .punct .openBrace then blockUpTo nest (.punct .closeBrace) else pure none

theorem block_eq (nest : Nest) : block nest = kind >>= fun kind =>
    if kind = .keyword .doKw then
      noDo >>= fun noDo => if noDo then pure none else blockUpTo nest (.keyword .endKw)
    else bracedBlock nest kind := by
  refine congrArg (kind >>= ·) (funext fun kind => ?_)
  dsimp only
  split
  · rfl
  · rfl
  · rename_i brace word
    rw [if_neg word, bracedBlock, if_neg brace]

theorem startsBlock_eq : startsBlock = kind >>= fun kind =>
    if kind = .keyword .doKw then noDo >>= fun noDo => pure !noDo
    else pure (kind == .punct .openBrace) := by
  refine congrArg (kind >>= ·) (funext fun kind => ?_)
  split
  · rfl
  · rfl
  · rename_i brace word
    rw [if_neg word, beq_false_of_ne brace]

/-- A name whose block does not make it a lambda. -/
def plainIdentifier (nest : Nest) (name : String) : Parser Node := do
  if (← isAtGlued Punct.openParen) || startsCommandArgument (← current) || (← startsBlock) then
    return ← callRest nest none name
  if endsWithMark name then return .functionCall name []
  return .reference name

section Starts

variable {nest : Nest} {scope : Scope} {cursor final : Cursor}

theorem startsBlock_ok (scope : Scope) (cursor : Cursor) :
    ∃ found, startsBlock scope cursor = .ok (found, cursor) := by
  rw [startsBlock_eq, bind_ok _ (kind_eq scope cursor)]
  split
  · exact ⟨_, rfl⟩
  · exact ⟨_, rfl⟩

theorem blockUpTo_ne_none {close : Kind}
    (done : blockUpTo nest close scope cursor = .ok (block?, final)) : block? ≠ none := by
  obtain ⟨_, _, _, params⟩ := bind_eq_ok done
  obtain ⟨_, _, _, body⟩ := bind_eq_ok params
  obtain ⟨_, _, _, closed⟩ := bind_eq_ok body
  obtain ⟨_, _, _, built⟩ := bind_eq_ok closed
  cases built
  exact nofun

/-- Where no block opens the tokens stay as they are. -/
theorem cursor_of_block_none (done : block nest scope cursor = .ok (none, final)) :
    final = cursor := by
  rw [block_eq, bind_ok _ (kind_eq scope cursor)] at done
  split at done
  · rw [bind_ok _ (show noDo scope cursor = .ok (scope.noDo, cursor) from rfl)] at done
    split at done
    · cases done
      rfl
    · exact absurd rfl (blockUpTo_ne_none done)
  · unfold bracedBlock at done
    split at done
    · exact absurd rfl (blockUpTo_ne_none done)
    · cases done
      rfl

/-- The arguments and the block of a call, where it is known whether the arguments of a
command begin. -/
def callRestFrom (nest : Nest) (target? : Option Node) (name : String) (starts : Bool) :
    Parser Node := do
  let args ←
    if ← isAtGlued Punct.openParen then
      discard advance
      closedArguments nest .closeParen
    else if starts then withNoDo true (openArguments nest)
    else pure []
  return .call target? name args (← block nest)

theorem callRest_eq (nest : Nest) (target? : Option Node) (name : String) :
    callRest nest target? name =
      current >>= fun behind => callRestFrom nest target? name (startsCommandArgument behind) := rfl

/-- The name of a method is read before what follows it. -/
theorem methodCall_eq (nest : Nest) (receiver : Node) :
    methodCall nest receiver = kind >>= fun kind =>
      if kind.isMethodName then advance >>= fun name => current >>= fun behind =>
        callRestFrom nest (some receiver) name.text (startsCommandArgument behind)
      else failAt .methodNameExpected := by
  refine congrArg (kind >>= ·) (funext fun kind => ?_)
  dsimp only
  split
  · rfl
  · rfl

theorem isAtGlued_eq (kind : Kind) (scope : Scope) (cursor : Cursor) :
    isAtGlued kind scope cursor =
      .ok (cursor.token.kind == kind && !cursor.token.spacing.isSpacedBefore, cursor) := rfl

/-- In front of arguments in parentheses it does not matter whether those of a command
would begin. -/
theorem callRest_glued (nest : Nest) (lone : Bool) (name : String) (other : Parser Node) :
    (isAtGlued Punct.openParen >>= fun opened =>
        if lone && opened then callRest nest none name else other) =
      isAtGlued Punct.openParen >>= fun opened =>
        if lone && opened then callRestFrom nest none name false else other := by
  funext scope cursor
  rw [bind_ok _ (isAtGlued_eq _ scope cursor), bind_ok _ (isAtGlued_eq _ scope cursor)]
  split
  · rename_i called
    have opened := (Bool.and_eq_true_iff.mp called).2
    rw [callRest_eq, bind_ok _ (current_eq scope cursor)]
    unfold callRestFrom
    rw [bind_ok _ (isAtGlued_eq _ scope cursor), bind_ok _ (isAtGlued_eq _ scope cursor), opened]
    rfl
  · rfl

def plainIdentifierFrom (nest : Nest) (name : String) (starts : Bool) : Parser Node := do
  if (← isAtGlued Punct.openParen) || starts || (← startsBlock) then
    return ← callRestFrom nest none name starts
  if endsWithMark name then return .functionCall name []
  return .reference name

theorem plainIdentifier_eq (nest : Nest) (name : String) :
    plainIdentifier nest name =
      current >>= fun behind => plainIdentifierFrom nest name (startsCommandArgument behind) := by
  funext scope cursor
  obtain ⟨found, opens⟩ := startsBlock_ok scope cursor
  unfold plainIdentifier plainIdentifierFrom
  rw [bind_ok _ (isAtGlued_eq _ scope cursor), bind_ok _ (current_eq scope cursor),
    bind_ok _ opens, bind_ok _ (current_eq scope cursor), bind_ok _ (isAtGlued_eq _ scope cursor),
    bind_ok _ opens]
  split
  · rw [callRest_eq]
    rfl
  · rfl

/-- What a name stands for, where it is known whether the arguments of a command begin. -/
def identifierFrom (nest : Nest) (name : String) (starts : Bool) : Parser Node := do
  if name == "lambda" || name == "proc" then
    if let some block ← block nest then return .lambda block
  plainIdentifierFrom nest name starts

theorem identifier_eq (nest : Nest) :
    identifier nest = advance >>= fun name => current >>= fun behind =>
      identifierFrom nest name.text (startsCommandArgument behind) := by
  refine congrArg (advance >>= ·) (funext fun name => ?_)
  funext scope cursor
  have plain : plainIdentifier nest name.text scope cursor =
      plainIdentifierFrom nest name.text (startsCommandArgument cursor.token) scope cursor := by
    rw [plainIdentifier_eq, bind_ok _ (current_eq scope cursor)]
  rw [bind_ok _ (current_eq scope cursor)]
  unfold identifierFrom
  dsimp only
  split
  · cases done : block nest scope cursor with
    | error error => rw [bind_error _ done, bind_error _ done]
    | ok result =>
      obtain ⟨block?, final⟩ := result
      rw [bind_ok _ done, bind_ok _ done]
      cases block? with
      | some block => rfl
      | none =>
        rw [cursor_of_block_none done]
        exact plain
  · exact plain

end Starts

end Parser

namespace Congruence

variable {Alike : {α : Type} → Parser α → Parser α → Prop} (laws : Congruence Alike)
  {nest nest' : Nest} (nests : ∀ level, Alike (nest level) (nest' level))

include laws

theorem acceptTarget (node : Node) :
    Alike (Parser.acceptTarget node) (Parser.acceptTarget node) := by
  unfold Parser.acceptTarget
  exact laws.unlessThen (laws.fail _ _ rfl) (laws.pure _)

include nests

theorem splatOrExpression :
    Alike (Parser.splatOrExpression nest) (Parser.splatOrExpression nest') := by
  refine laws.bind (laws.eat _) fun splat => choice ?_ (nests _)
  exact laws.bind (nests _) fun _ => laws.pure _

theorem keyedValue (key : Node) : Alike (Parser.keyedValue nest key) (Parser.keyedValue nest' key) :=
  laws.behind laws.skipNewLines (laws.bind (nests _) fun _ => laws.pure _)

theorem argument : Alike (Parser.argument nest) (Parser.argument nest') := by
  refine laws.bind laws.kind fun kind => ?_
  split
  · refine laws.advance fun label _ => ?_
    exact laws.bind (laws.keyedValue nests _) fun _ => laws.pure _
  · exact laws.step (laws.bind (nests _) fun _ => laws.pure _)
  · refine laws.bind (laws.splatOrExpression nests) fun value => ?_
    refine laws.bind (laws.eat _) fun arrow => choice ?_ (laws.pure _)
    exact laws.bind (laws.keyedValue nests value) fun _ => laws.pure _

theorem openArguments : Alike (Parser.openArguments nest) (Parser.openArguments nest') :=
  laws.map _ (laws.commaSeparated (laws.argument nests))

theorem closedArguments (close : Punct) :
    Alike (Parser.closedArguments nest close) (Parser.closedArguments nest' close) := by
  refine laws.bind (laws.withNoDo false (laws.list ?_)) fun arguments => ?_
  · refine laws.behind laws.skipNewLines (laws.bind (laws.isAt _) fun closed => ?_)
    refine choice (laws.pure _) (laws.bind (laws.argument nests) fun argument => ?_)
    refine laws.behind laws.skipNewLines (laws.bind laws.eatComma fun more => ?_)
    exact choice (laws.pure _) (laws.pure _)
  · exact laws.behind (laws.expect _) (laws.pure _)

theorem target : Alike (Parser.target nest) (Parser.target nest') := by
  refine laws.bind (laws.eat _) fun splat => choice ?_ ?_
  all_goals exact laws.bind (nests _) fun _ => laws.acceptTarget _

theorem multipleAssignment (first : Node) :
    Alike (Parser.multipleAssignment nest first) (Parser.multipleAssignment nest' first) := by
  refine laws.bind (laws.acceptTarget first) fun first => ?_
  refine laws.bind (laws.commaFollowed (laws.target nests)) fun targets => ?_
  refine laws.bind (laws.eat _) fun assigns => ?_
  refine laws.unlessThen (laws.fail _ _ rfl) (laws.behind laws.skipNewLines ?_)
  refine laws.bind (laws.splatOrExpression nests) fun value => ?_
  exact laws.bind (laws.commaFollowed (laws.splatOrExpression nests)) fun values => laws.pure _

theorem plainStatement : Alike (Parser.plainStatement nest) (Parser.plainStatement nest') := by
  refine laws.bind (laws.eat _) fun splat => choice ?_ ?_
  · refine laws.bind (nests _) fun value => ?_
    refine laws.bind (laws.isAt _) fun comma => laws.bind (laws.isAt _) fun assigns => ?_
    exact choice (laws.multipleAssignment nests _) (laws.pure _)
  · refine laws.bind (nests _) fun expression => laws.bind (laws.isAt _) fun comma => ?_
    exact choice (laws.multipleAssignment nests _) (laws.pure _)

theorem modifier (node : Node) : Alike (Parser.modifier nest node) (Parser.modifier nest' node) := by
  refine laws.bind laws.kind fun kind => ?_
  split
  iterate 4 exact laws.advance fun _ _ => laws.bind (nests _) fun _ => laws.pure _
  · exact laws.step (laws.bind (nests _) fun _ => laws.pure _)
  · exact laws.pure _

theorem statement : Alike (Parser.statement nest) (Parser.statement nest') :=
  laws.bind (laws.plainStatement nests) fun node => laws.chain (laws.modifier nests) node

theorem statements (ends : List Kind) :
    Alike (Parser.statements nest ends) (Parser.statements nest' ends) := by
  refine laws.list (laws.behind laws.skipSeparators ?_)
  refine laws.bind laws.kind fun first => laws.bind laws.kind fun second => ?_
  refine choice (laws.pure _) (laws.bind (laws.statement nests) fun node => ?_)
  refine laws.bind laws.kind fun kind => choice (laws.pure _) ?_
  exact choice (laws.pure _) laws.unexpected

omit nests

theorem blockParam : Alike Parser.blockParam Parser.blockParam := by
  refine laws.bind laws.kind fun mark => laws.whenThen laws.skip ?_
  refine laws.bind (laws.isAt _) fun found => laws.unlessThen (laws.failAt _ rfl) ?_
  refine laws.advance fun name _ => ?_
  split
  all_goals exact laws.pure _

theorem blockParams : Alike Parser.blockParams Parser.blockParams := by
  refine laws.bind (laws.eat _) fun empty => choice (laws.pure _) ?_
  refine laws.bind (laws.eat _) fun opened => choice ?_ (laws.pure _)
  refine laws.bind (laws.list ?_) fun params => laws.behind (laws.expect _) (laws.pure _)
  refine laws.bind (laws.isAt _) fun closed => choice (laws.pure _) ?_
  refine laws.bind laws.blockParam fun param => laws.bind (laws.eat _) fun more => ?_
  exact choice (laws.pure _) (laws.pure _)

theorem startsBlock : Alike Parser.startsBlock Parser.startsBlock := by
  rw [Parser.startsBlock_eq]
  exact laws.atDo (fun _ => laws.pure _) fun _ => laws.pure _

theorem lambdaParams : Alike Parser.lambdaParams Parser.lambdaParams := by
  refine laws.bind (laws.eat _) fun opened => choice ?_ ?_
  · refine laws.bind (laws.list ?_) fun params => laws.behind (laws.expect _) (laws.pure _)
    refine laws.behind laws.skipNewLines (laws.bind (laws.isAt _) fun closed => ?_)
    refine choice (laws.pure _) (laws.bind laws.blockParam fun param => ?_)
    refine laws.behind laws.skipNewLines (laws.bind (laws.eat _) fun more => ?_)
    exact choice (laws.pure _) (laws.pure _)
  · refine laws.list (laws.bind (laws.isAt _) fun found => choice ?_ (laws.pure _))
    refine laws.bind laws.blockParam fun param => laws.bind (laws.eat _) fun more => ?_
    exact choice (laws.pure _) (laws.pure _)

end Congruence

namespace Opening

open Congruence (choice)

variable {Alike Opens : {α : Type} → Parser α → Parser α → Prop} (opening : Opening Alike Opens)

include opening

theorem constantName : Opens Parser.constantName Parser.constantName := by
  have rest : Alike (do return (← Parser.advance).text) (do return (← Parser.advance).text) :=
    opening.laws.advance fun _ _ => opening.laws.pure _
  refine opening.isAt _ fun found => choice ?_ ?_
  · exact opening.advance fun _ _ => opening.laws.pure _
  · exact opening.current fun _ _ => opening.bind (opening.fail _ _ rfl) fun _ => rest

theorem leadingConstant : Opens Parser.leadingConstant Parser.leadingConstant := by
  refine opening.eat _ ?_ ?_
  · exact opening.laws.bind opening.laws.opening.constantName fun _ => opening.laws.pure _
  · exact opening.bind opening.constantName fun _ => opening.laws.pure _

end Opening

namespace Congruence

variable {Alike : {α : Type} → Parser α → Parser α → Prop} (laws : Congruence Alike)
  {nest nest' : Nest} (nests : ∀ level, Alike (nest level) (nest' level))

include laws

theorem constantPath : Alike Parser.constantPath Parser.constantPath := by
  refine laws.bind laws.opening.leadingConstant fun path => laws.chain (fun path => ?_) path
  refine laws.bind (laws.eat _) fun more => choice ?_ (laws.pure _)
  exact laws.bind laws.opening.constantName fun _ => laws.pure _

theorem atConstantPath : Alike Parser.atConstantPath Parser.atConstantPath :=
  laws.bind (laws.isAt _) fun _ => laws.bind (laws.isAt _) fun _ => laws.pure _

/-- The step from a path to a constant in it. -/
theorem innerConstant (path : Tree.ConstantPath) :
    let step : Parser (Option Tree.ConstantPath) := do
      if (← Parser.isAtGlued Punct.scope) && (← Parser.nextKind) == some .constant then
        Functor.discard Parser.advance
        return some (path.push (← Parser.advance).text)
      return none
    Alike step step := by
  refine laws.bind (laws.isAtGlued _ nofun) fun scope => laws.bind laws.nextKind fun next => ?_
  refine choice (laws.step ?_) (laws.pure _)
  exact laws.advance fun _ _ => laws.pure _

include nests

theorem blockUpTo (close : Kind) :
    Alike (Parser.blockUpTo nest close) (Parser.blockUpTo nest' close) := by
  refine laws.step (laws.bind laws.blockParams fun params => ?_)
  refine laws.bind (laws.withNoDo false (laws.statements nests [close])) fun body => ?_
  exact laws.behind (laws.expect close) (laws.pure _)

theorem block : Alike (Parser.block nest) (Parser.block nest') := by
  rw [Parser.block_eq, Parser.block_eq]
  refine laws.atDo (fun noDo => choice (laws.pure _) (laws.blockUpTo nests _)) fun kind => ?_
  exact choice (laws.blockUpTo nests _) (laws.pure _)

theorem callRestFrom (target? : Option Node) (name : String) (starts : Bool) :
    Alike (Parser.callRestFrom nest target? name starts)
      (Parser.callRestFrom nest' target? name starts) := by
  have rest (args : List Node) := laws.bind (laws.block nests) fun block =>
    laws.pure (Node.call target? name args block)
  refine laws.bind (laws.isAtGlued _ nofun) fun opened => ?_
  refine choice (laws.step (laws.bind (laws.closedArguments nests _) rest)) ?_
  refine choice (laws.bind (laws.withNoDo true (laws.openArguments nests)) rest) ?_
  exact laws.bind (laws.pure []) rest

theorem methodCall (receiver : Node) :
    Alike (Parser.methodCall nest receiver) (Parser.methodCall nest' receiver) := by
  rw [Parser.methodCall_eq, Parser.methodCall_eq]
  apply laws.command Kind.isMethodName fun _ => id
  · exact fun name _ starts => laws.callRestFrom nests _ _ starts
  · exact fun _ => laws.failAt _ rfl

theorem plainIdentifierFrom (name : String) (starts : Bool) :
    Alike (Parser.plainIdentifierFrom nest name starts)
      (Parser.plainIdentifierFrom nest' name starts) := by
  refine laws.bind (laws.isAtGlued _ nofun) fun opened => laws.bind laws.startsBlock fun follows => ?_
  refine choice (laws.callRestFrom nests none name starts) ?_
  exact choice (laws.pure _) (laws.pure _)

theorem identifierFrom (name : String) (starts : Bool) :
    Alike (Parser.identifierFrom nest name starts) (Parser.identifierFrom nest' name starts) := by
  unfold Parser.identifierFrom
  dsimp only
  split
  · refine laws.bind (laws.block nests) fun block => ?_
    split
    · exact laws.pure _
    · exact laws.plainIdentifierFrom nests name starts
  · exact laws.plainIdentifierFrom nests name starts

end Congruence

namespace Opening

open Congruence (choice)

variable {Alike Opens : {α : Type} → Parser α → Parser α → Prop} (opening : Opening Alike Opens)
  {nest nest' : Nest} (nests : ∀ level, Alike (nest level) (nest' level))

include opening nests

theorem arrowLambda : Opens (Parser.arrowLambda nest) (Parser.arrowLambda nest') := by
  have laws := opening.laws
  refine opening.step (laws.bind laws.lambdaParams fun params => ?_)
  refine laws.bind (laws.withNoDo false (laws.block nests)) fun block => ?_
  split
  · exact laws.pure _
  · exact laws.current fun _ _ => laws.fail _ _ rfl

theorem constant : Opens (Parser.constant nest) (Parser.constant nest') := by
  have laws := opening.laws
  refine opening.bind opening.leadingConstant fun path => ?_
  refine laws.bind (laws.chain laws.innerConstant path) fun path => ?_
  refine laws.bind (laws.eatGlued _ nofun) fun scope => choice (laws.methodCall nests _) ?_
  rw [Parser.callRest_glued, Parser.callRest_glued]
  refine laws.bind (laws.isAtGlued _ nofun) fun opened => ?_
  exact choice (laws.callRestFrom nests _ _ false) (laws.pure _)

end Opening

end RubySyntax.Grammar
