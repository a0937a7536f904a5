import RubySyntax.Proofs.Grammar.Phrase
import RubySyntax.Proofs.Grammar.SingleStatement

namespace RubySyntax.Grammar

open RubySyntax.Tree (Node)
open Token (Kind Punct Keyword)
open Grammar.Parser

variable {nest : Nest} {node : Node} {scope : Scope} {cursor final : Cursor}

/-- A token that begins the argument of a command, and is neither the label of a pair
nor a mark in front of the argument. -/
structure BeginsArgument (token : Token) : Prop where
  starts : startsCommandArgument token = true
  plain : BeginsPlain token.kind
  unlabelled : token.kind ≠ .label
  unmarked : token.kind ≠ .punct .ampersand

/-- A name that is no keyword and makes no lambda of its block. -/
structure IsCommandName (token : Token) : Prop where
  kind : token.kind = .identifier
  notLambda : token.text ≠ "lambda"
  notProc : token.text ≠ "proc"

theorem beginsPlain_identifier : BeginsPlain .identifier :=
  ⟨by decide, by decide, rfl, by decide, by decide⟩

/-- Arguments among which no pair is. -/
theorem eq_map_positional {arguments : List Argument}
    (unkeyed : arguments.filterMap Argument.keyed? = []) :
    arguments = (arguments.filterMap Argument.positional?).map .positional := by
  induction arguments with
  | nil => rfl
  | cons first arguments ih =>
    cases first with
    | positional value => exact congrArg (Argument.positional value :: ·) (ih unkeyed)
    | keyed pair => cases unkeyed

/-- A single argument that is passed and is no hash has been written as it is. -/
theorem passed_eq_singleton {arguments : List Argument} (plain : isPlain node = true)
    (passed : Argument.passed arguments = [node]) : arguments = [.positional node] := by
  unfold Argument.passed at passed
  cases keyed : arguments.filterMap Argument.keyed? with
  | nil =>
    rw [keyed] at passed
    have positional : arguments.filterMap Argument.positional? = [node] := by simpa using passed
    rw [eq_map_positional keyed, positional]
    rfl
  | cons pair pairs =>
    rw [keyed] at passed
    have split : arguments.filterMap Argument.positional? ++ [.hash (pair :: pairs)] = [] ++ [node] :=
      passed
    cases (List.append_inj' split rfl).2
    cases plain

theorem splatOrExpression_eq (single : cursor.token.kind ≠ .punct .asterisk) :
    splatOrExpression nest scope cursor = nest .expression scope cursor := by
  unfold splatOrExpression
  rw [bind_ok _ (eat_other single)]
  rfl

/-- An argument without a label or a mark in front of it. -/
def Parser.plainArgument (nest : Nest) : Parser Argument := do
  let value ← splatOrExpression nest
  if ← eat Punct.hashArrow then return .keyed (← keyedValue nest value)
  return .positional value

theorem argument_eq (unlabelled : cursor.token.kind ≠ .label)
    (unmarked : cursor.token.kind ≠ .punct .ampersand) :
    argument nest scope cursor = plainArgument nest scope cursor := by
  unfold argument
  rw [bind_ok _ (kind_eq scope cursor)]
  refine congrFun (congrFun ?_ scope) cursor
  split
  · exact absurd ‹_› unlabelled
  · exact absurd ‹_› unmarked
  · rfl

theorem argument_iff (begins : BeginsArgument cursor.token) (ends : EndsStatement final.token.kind) :
    argument nest scope cursor = .ok (.positional node, final) ↔
      nest .expression scope cursor = .ok (node, final) := by
  rw [argument_eq begins.unlabelled begins.unmarked, plainArgument]
  constructor
  · intro done
    obtain ⟨value, middle, read, rest⟩ := bind_eq_ok done
    rw [splatOrExpression_eq begins.plain.single] at read
    obtain ⟨arrow, after, eaten, made⟩ := bind_eq_ok rest
    obtain ⟨rfl, rfl⟩ | ⟨rfl, _⟩ := eat_eq_ok eaten
    · cases made
      exact read
    · obtain ⟨_, _, _, absurd⟩ := bind_eq_ok made
      cases absurd
  · intro read
    have value : splatOrExpression nest scope cursor = .ok (node, final) :=
      (splatOrExpression_eq begins.plain.single).trans read
    rw [bind_ok _ value, bind_ok _ (eat_other (ends.ne (by decide)))]
    rfl

/-- One element that no comma follows. -/
theorem commaSeparated_singleton_iff {element : Parser α} {value : α}
    (ends : EndsStatement final.token.kind) :
    commaSeparated element scope cursor = .ok ([value], final) ↔
      element scope cursor = .ok (value, final) := by
  constructor
  · intro done
    have goesOn : Builds (· ≠ .stop) (do
        let value ← element
        if ← eatComma then return .more value
        return .last value : Parser (Item α)) :=
      Builds.bind fun _ => Builds.bind fun _ => .ite (.pure nofun) (.pure nofun)
    obtain ⟨_, absurd⟩ | ⟨_, stepped, same⟩ | ⟨_, others, middle, _, rest, same⟩ := list_eq_ok done
    · cases absurd
    · cases same
      obtain ⟨read, middle, element, rest⟩ := bind_eq_ok stepped
      obtain ⟨comma, after, eaten, made⟩ := bind_eq_ok rest
      have stays : Stays false (· = true) eatComma :=
        .eat (Builds.bind fun _ => .pure rfl) (.pure false)
      obtain ⟨rfl, rfl⟩ | rfl := stays _ _ _ _ eaten
      · cases made
        exact element
      · cases made
    · cases same
      obtain ⟨stopped, _⟩ | ⟨_, _, absurd⟩ | ⟨_, _, _, _, _, absurd⟩ := list_eq_ok rest
      · exact absurd rfl (goesOn _ _ _ _ stopped)
      · cases absurd
      · cases absurd
  · intro read
    refine list_last ?_
    rw [bind_ok _ read, bind_ok _ (eatComma_other (ends.ne (by decide)))]
    rfl

theorem openArguments_iff (plain : isPlain node = true) (begins : BeginsArgument cursor.token)
    (ends : EndsStatement final.token.kind) :
    openArguments nest scope cursor = .ok ([node], final) ↔
      nest .expression scope cursor = .ok (node, final) := by
  have element : commaSeparated (argument nest) scope cursor = .ok ([.positional node], final) ↔
      argument nest scope cursor = .ok (.positional node, final) :=
    commaSeparated_singleton_iff ends
  rw [← argument_iff begins ends, ← element]
  constructor
  · intro done
    obtain ⟨arguments, read, same⟩ := map_eq_ok done
    rwa [passed_eq_singleton plain same.symm] at read
  · intro read
    exact congrArg (Except.map _) read

theorem block_of_ends (ends : EndsStatement cursor.token.kind) :
    block nest scope cursor = .ok (none, cursor) := by
  rw [block_eq, bind_ok _ (kind_eq scope cursor), if_neg (ends.ne (by decide)), bracedBlock,
    if_neg (ends.ne (by decide))]
  rfl

theorem isAtGlued_of_starts {kind : Kind} (starts : startsCommandArgument cursor.token = true) :
    isAtGlued kind scope cursor = .ok (false, cursor) := by
  have blank : cursor.token.spacing.blankBefore = true := (Bool.and_eq_true_iff.mp starts).1
  have spaced : cursor.token.spacing.isSpacedBefore = true := by
    rw [Token.Spacing.isSpacedBefore, blank, Bool.true_or]
  unfold isAtGlued
  rw [bind_ok _ (current_eq scope cursor), spaced, Bool.not_true, Bool.and_false]
  rfl

/-- Behind a blank the arguments of a command are read, then its block. -/
theorem callRest_of_starts (name : String) (starts : startsCommandArgument cursor.token = true) :
    callRest nest none name scope cursor = (do
      let args ← withNoDo true (openArguments nest)
      return .call none name args (← block nest) : Parser Node) scope cursor := by
  unfold callRest
  rw [bind_ok _ (isAtGlued_of_starts starts), bind_ok _ (current_eq scope cursor), starts]
  rfl

theorem plainIdentifier_of_starts (name : String)
    (starts : startsCommandArgument cursor.token = true) :
    plainIdentifier nest name scope cursor = callRest nest none name scope cursor := by
  obtain ⟨found, opens⟩ := startsBlock_ok scope cursor
  unfold plainIdentifier
  rw [bind_ok _ (isAtGlued_of_starts starts), bind_ok _ (current_eq _ _), bind_ok _ opens]
  simp only [starts]
  rfl

theorem callRest_iff (name : String) (plain : isPlain node = true)
    (begins : BeginsArgument cursor.token) (ends : EndsStatement final.token.kind) :
    callRest nest none name scope cursor = .ok (.functionCall name [node], final) ↔
      nest .expression { scope with noDo := true } cursor = .ok (node, final) := by
  rw [callRest_of_starts name begins.starts, ← openArguments_iff plain begins ends]
  constructor
  · intro done
    obtain ⟨args, middle, read, rest⟩ := bind_eq_ok done
    obtain ⟨block?, after, blockRead, same⟩ := bind_eq_ok rest
    cases same
    rwa [cursor_of_block_none blockRead]
  · intro read
    have arguments : withNoDo true (openArguments nest) scope cursor = .ok ([node], final) := read
    rw [bind_ok _ arguments, bind_ok _ (block_of_ends ends)]
    rfl

variable {dummy name first : Token} {rest : List Token}

/-- What begins with such a name is decided behind it. -/
theorem primary_name (command : IsCommandName name) (known : first.kind ≠ .unknown) :
    primary nest scope (.ofTokens name (first :: rest)) =
      plainIdentifier nest name.text scope (.ofTokens first rest) := by
  have noLambda : (name.text == "lambda" || name.text == "proc") = false := by
    rw [beq_false_of_ne command.notLambda, beq_false_of_ne command.notProc]
    rfl
  unfold primary
  rw [bind_ok _ (kind_eq _ _)]
  simp only [Cursor.token_ofTokens, command.kind]
  unfold identifier
  rw [bind_ok _ (advance_ofTokens known rest)]
  simp only [noLambda, Bool.false_eq_true, if_false]
  rfl

/-- A command with one plain argument is read exactly where its argument is. -/
theorem command_iff (command : IsCommandName name) (plain : isPlain node = true)
    (begins : BeginsArgument first) (ends : EndsStatement final.token.kind) :
    primary nest scope (.ofTokens name (first :: rest)) =
        .ok (.functionCall name.text [node], final) ↔
      nest .expression { scope with noDo := true } (.ofTokens first rest) = .ok (node, final) := by
  rw [primary_name command begins.plain.known, plainIdentifier_of_starts name.text begins.starts]
  exact callRest_iff name.text plain begins ends

/-- A program is a command with one plain argument exactly where the argument is a
program by itself, where no `do` belongs to it. -/
theorem program_command_iff (command : IsCommandName name) (plain : isPlain node = true)
    (begins : BeginsArgument first) :
    (∃ final, program (depth + 1) scope (.ofTokens dummy (name :: first :: rest)) =
        .ok ([.functionCall name.text [node]], final)) ↔
      ∃ final, program depth { scope with noDo := true } (.ofTokens dummy (first :: rest)) =
        .ok ([node], final) := by
  have identifier : BeginsPlain name.kind := command.kind ▸ beginsPlain_identifier
  rw [program_succ_iff rfl identifier, program_iff plain begins.plain]
  refine exists_congr fun stop => and_congr_left fun closes => ?_
  exact command_iff command plain begins closes.endsStatement

end RubySyntax.Grammar
