import RubySyntax.Proofs.Grammar.Progress
import RubySyntax.Proofs.Grammar.Standalone

namespace RubySyntax.Grammar

open RubySyntax.Tree (Node)
open Token (Kind)
open Grammar.Parser

variable {nest : Nest} {node : Node} {scope : Scope} {cursor final : Cursor}

/-- Only separators are left in front of the end of the input. -/
inductive Closes : Token → List Token → Prop where
  | ended (last : token.kind = .endOfFile) : Closes token rest
  | separated (separator : token.kind.isSeparator = true) (more : Closes next rest) :
      Closes token (next :: rest)

theorem Closes.endsStatement (closes : Closes token rest) : EndsStatement token.kind := by
  cases closes with
  | ended last => exact .inl last
  | separated separator _ => exact .inr separator

/-- Only the kinds of the tokens count. -/
theorem Closes.of_kinds (closes : Closes token rest)
    (same : (other :: others).map Token.kind = (token :: rest).map Token.kind) :
    Closes other others := by
  induction closes generalizing other others with
  | ended last => exact .ended ((List.cons.inj same).1.trans last)
  | separated separator more ih =>
    obtain ⟨kind, same⟩ := List.cons.inj same
    cases others with
    | nil => cases same
    | cons next others => exact .separated (kind ▸ separator) (ih same)

theorem skipSeparators_of_closes (closes : Closes token rest) (scope : Scope) :
    ∃ final, skipSeparators scope (.ofTokens token rest) = .ok ((), final) ∧
      final.token.kind = .endOfFile := by
  induction closes with
  | ended last => exact ⟨_, skipWhile_other (by simp [last, Kind.isSeparator]), last⟩
  | separated separator more ih =>
    obtain ⟨final, skipped, last⟩ := ih
    have known := more.endsStatement.ne (show ¬ EndsStatement .unknown by decide)
    exact ⟨final, (skipWhile_ofTokens separator known).trans skipped, last⟩

theorem closes_of_skipSeparators (skipped : skipSeparators scope cursor = .ok ((), final))
    (last : final.token.kind = .endOfFile) : Closes cursor.token cursor.rest := by
  obtain ⟨token, rest, _, rfl⟩ := cursor
  induction rest generalizing token with
  | nil =>
    obtain ⟨rfl, _⟩ | ⟨_, middle, follows, _⟩ := skipWhile_eq_ok skipped
    · exact .ended last
    · cases follows
  | cons first rest ih =>
    obtain ⟨rfl, _⟩ | ⟨separator, middle, follows, more⟩ := skipWhile_eq_ok skipped
    · exact .ended last
    · cases follows
      exact .separated separator (ih first more)

/-- One statement of a program, behind the separators in front of it. -/
def Parser.programStep (nest : Nest) : Parser (Item Node) := do
  skipSeparators
  if (← kind) == .endOfFile || [].contains (← kind) then return .stop
  let node ← statement nest
  let kind ← kind
  if kind.isSeparator then return .more node
  if kind == .endOfFile || [].contains kind then return .last node
  unexpected

/-- What a step makes of a statement, by what is behind it. -/
def Parser.stepEnd (node : Node) : Parser (Item Node) := do
  let kind ← kind
  if kind.isSeparator then return .more node
  if kind == .endOfFile || [].contains kind then return .last node
  unexpected

/-- Where no statement ends, one is read. -/
theorem programStep_eq (begins : ¬ EndsStatement cursor.token.kind) :
    programStep nest scope cursor = (statement nest >>= stepEnd) scope cursor := by
  have stays : skipSeparators scope cursor = .ok ((), cursor) :=
    skipWhile_other (Bool.eq_false_iff.mpr fun separator => begins (.inr separator))
  have going : ¬ (cursor.token.kind == .endOfFile || [].contains cursor.token.kind) = true := by
    simpa using fun last => begins (.inl last)
  unfold programStep
  rw [bind_ok _ stays, bind_ok _ (kind_eq ..), bind_ok _ (kind_eq ..), if_neg going]
  rfl

/-- What such a step reads behind the separators: nothing at the end of the input,
or a statement. -/
inductive ProgramStep (nest : Nest) (scope : Scope) (start : Cursor) : Item Node → Cursor → Prop where
  | stop (last : start.token.kind = .endOfFile) : ProgramStep nest scope start .stop start
  | last (begins : start.token.kind ≠ .endOfFile)
      (read : statement nest scope start = .ok (made, stop)) (last : stop.token.kind = .endOfFile) :
      ProgramStep nest scope start (.last made) stop
  | more (begins : start.token.kind ≠ .endOfFile)
      (read : statement nest scope start = .ok (made, stop))
      (separator : stop.token.kind.isSeparator = true) :
      ProgramStep nest scope start (.more made) stop

theorem programStep_eq_ok_iff {item : Item Node} :
    programStep nest scope cursor = .ok (item, final) ↔
      ∃ start, skipSeparators scope cursor = .ok ((), start) ∧
        ProgramStep nest scope start item final := by
  constructor
  · intro done
    obtain ⟨_, start, skipped, rest⟩ := bind_eq_ok done
    refine ⟨start, skipped, ?_⟩
    rw [bind_ok _ (kind_eq scope start), bind_ok _ (kind_eq scope start)] at rest
    simp only [List.contains_nil, Bool.or_false, beq_iff_eq] at rest
    split at rest
    · rename_i last
      cases rest
      exact .stop last
    · rename_i begins
      obtain ⟨node, after, read, rest⟩ := bind_eq_ok rest
      rw [bind_ok _ (kind_eq scope after)] at rest
      split at rest
      · rename_i separator
        cases rest
        exact .more begins read separator
      · split at rest
        · rename_i last
          cases rest
          exact .last begins read last
        · cases rest
  · rintro ⟨start, skipped, step⟩
    unfold programStep
    rw [bind_ok _ skipped, bind_ok _ (kind_eq scope start), bind_ok _ (kind_eq scope start)]
    simp only [List.contains_nil, Bool.or_false, beq_iff_eq]
    cases step with
    | stop last =>
      rw [if_pos last]
      rfl
    | last begins read last =>
      rw [if_neg begins, bind_ok _ read, bind_ok _ (kind_eq scope final), last]
      rfl
    | more begins read separator =>
      rw [if_neg begins, bind_ok _ read, bind_ok _ (kind_eq scope final), if_pos separator]
      rfl

/-- No statements are read exactly where only separators are left. -/
theorem statements_nil_iff : (∃ final, statements nest [] scope cursor = .ok ([], final)) ↔
    Closes cursor.token cursor.rest := by
  constructor
  · rintro ⟨final, done⟩
    obtain ⟨stepped, _⟩ | ⟨_, _, absurd⟩ | ⟨_, _, _, _, _, absurd⟩ := list_eq_ok done
    · obtain ⟨start, skipped, step⟩ := programStep_eq_ok_iff.mp stepped
      cases step with
      | stop last => exact closes_of_skipSeparators skipped last
    · cases absurd
    · cases absurd
  · intro closes
    obtain ⟨token, rest, _, rfl⟩ := cursor
    obtain ⟨final, skipped, last⟩ := skipSeparators_of_closes closes scope
    exact ⟨final, list_stop (programStep_eq_ok_iff.mpr ⟨final, skipped, .stop last⟩)⟩

/-- A statement is the only one exactly where it is read first and only separators
are left behind it. -/
theorem statements_singleton_iff (begins : ¬ EndsStatement cursor.token.kind)
    (moves : Moves (statement nest)) :
    (∃ final, statements nest [] scope cursor = .ok ([node], final)) ↔
      ∃ stop, statement nest scope cursor = .ok (node, stop) ∧ Closes stop.token stop.rest := by
  have noSeparator : cursor.token.kind.isSeparator = false :=
    Bool.eq_false_iff.mpr fun separator => begins (.inr separator)
  have skipped : skipSeparators scope cursor = .ok ((), cursor) := skipWhile_other noSeparator
  have going : cursor.token.kind ≠ .endOfFile := fun last => begins (.inl last)
  constructor
  · rintro ⟨final, done⟩
    obtain ⟨_, absurd⟩ | ⟨value, stepped, same⟩ | ⟨value, others, middle, stepped, rest, same⟩ :=
      list_eq_ok done
    · cases absurd
    · cases same
      obtain ⟨start, passed, step⟩ := programStep_eq_ok_iff.mp stepped
      cases skipped.symm.trans passed
      cases step with
      | last _ read last => exact ⟨final, read, .ended last⟩
    · cases same
      obtain ⟨start, passed, step⟩ := programStep_eq_ok_iff.mp stepped
      cases skipped.symm.trans passed
      cases step with
      | more _ read _ => exact ⟨middle, read, statements_nil_iff.mp ⟨final, rest⟩⟩
  · rintro ⟨stop, read, closes⟩
    rcases closes.endsStatement with last | separator
    · exact ⟨stop, list_last (programStep_eq_ok_iff.mpr ⟨cursor, skipped, .last going read last⟩)⟩
    · obtain ⟨final, rest⟩ := statements_nil_iff.mpr closes
      have stepped : programStep nest scope cursor = .ok (.more node, stop) :=
        programStep_eq_ok_iff.mpr ⟨cursor, skipped, .more going read separator⟩
      have other : stop.token ≠ cursor.token := fun same => begins (same ▸ .inr separator)
      exact ⟨final, list_more stepped (moves.remaining_lt read other) rest⟩

variable {dummy first : Token} {rest : List Token}

/-- A program is the statements behind the token in front of it. -/
theorem program_ofTokens (known : first.kind ≠ .unknown) :
    program depth scope (.ofTokens dummy (first :: rest)) =
      statements (nested depth) [] scope (.ofTokens first rest) :=
  bind_ok _ (discard_ok (advance_ofTokens known rest))

theorem program_ofTokens_ok
    (done : program depth scope (.ofTokens dummy (first :: rest)) = .ok (nodes, final)) :
    statements (nested depth) [] scope (.ofTokens first rest) = .ok (nodes, final) := by
  obtain ⟨_, middle, passed, read⟩ := bind_eq_ok done
  obtain ⟨_, passed⟩ := discard_eq_ok passed
  rcases (advance_eq_ok passed).2 with ⟨_, ended⟩ | follows
  · cases ended
  · cases follows
    exact read

/-- A program is one expression where only the end of the input is behind it. -/
theorem program_of_expression (begins : BeginsStatement first.kind)
    (ended : final.token.kind = .endOfFile)
    (read : nested depth .expression scope (.ofTokens first rest) = .ok (node, final)) :
    program depth scope (.ofTokens dummy (first :: rest)) = .ok ([node], final) := by
  have stays : skipSeparators scope (.ofTokens first rest) = .ok ((), .ofTokens first rest) :=
    skipWhile_other (Bool.eq_false_iff.mpr fun separator => begins.begins (.inr separator))
  have going : first.kind ≠ .endOfFile := fun last => begins.begins (.inl last)
  have statement : statement (nested depth) scope (.ofTokens first rest) = .ok (node, final) :=
    statement_of_expression (ended ▸ .endOfFile) (ended ▸ nofun) begins.single read
  rw [program_ofTokens begins.known]
  exact list_last (programStep_eq_ok_iff.mpr ⟨_, stays, .last going statement ended⟩)

/-- A program is one expression where only separators are behind it. -/
theorem program_of_closed (begins : BeginsStatement first.kind)
    (read : nested depth .expression scope (.ofTokens first rest) = .ok (node, final))
    (closes : Closes final.token final.rest) (dummy : Token) :
    ∃ stop, program depth scope (.ofTokens dummy (first :: rest)) = .ok ([node], stop) := by
  have moves : Moves (statement (nested depth)) :=
    @Congruence.statement _ Moves.laws (nested depth) (nested depth) (nested_moves depth)
  have ends := closes.endsStatement
  rw [program_ofTokens begins.known, statements_singleton_iff begins.begins moves]
  exact ⟨final, statement_of_expression ends.endsExpression (ends.ne (by decide)) begins.single read,
    closes⟩

/-- A program fails behind its first expression where nothing goes on with that and no
statement ends. -/
theorem program_of_unfinished (begins : BeginsStatement first.kind)
    (read : nested depth .expression scope (.ofTokens first rest) = .ok (node, final))
    (ends : EndsExpression final.token.kind) (apart : final.token.kind ≠ .punct .comma)
    (further : ¬ EndsStatement final.token.kind) (dummy : Token) :
    program depth scope (.ofTokens dummy (first :: rest)) = unexpected scope final := by
  have statement := statement_of_expression ends apart begins.single read
  have refused : programStep (nested depth) scope (.ofTokens first rest) = unexpected scope final := by
    rw [programStep_eq begins.begins, bind_ok _ statement]
    unfold stepEnd
    rw [bind_ok _ (kind_eq ..), if_neg fun separator => further (.inr separator)]
    simp only [List.contains_nil, Bool.or_false, beq_iff_eq]
    rw [if_neg fun last => further (.inl last)]
  rw [program_ofTokens begins.known]
  exact list_error refused

/-- A program is one plain expression exactly where the expression is read first and
only separators are left behind it. -/
theorem program_iff (plain : isPlain node = true) (begins : BeginsPlain first.kind) :
    (∃ final, program depth scope (.ofTokens dummy (first :: rest)) = .ok ([node], final)) ↔
      ∃ stop, nested depth .expression scope (.ofTokens first rest) = .ok (node, stop) ∧
        Closes stop.token stop.rest := by
  have moves : Moves (statement (nested depth)) :=
    @Congruence.statement _ Moves.laws (nested depth) (nested depth) (nested_moves depth)
  rw [program_ofTokens begins.known, statements_singleton_iff begins.begins moves]
  refine exists_congr fun stop => and_congr_left fun closes => ?_
  exact statement_iff plain closes.endsStatement begins.single

/-- A program fails where the expression that it begins with does. -/
theorem program_of_refused (begins : BeginsStatement first.kind)
    (failed : nested depth .expression scope (.ofTokens first rest) = .error error) :
    program depth scope (.ofTokens dummy (first :: rest)) = .error error := by
  have plain : plainStatement (nested depth) scope (.ofTokens first rest) = .error error := by
    unfold plainStatement
    rw [bind_ok _ (eat_other begins.single)]
    exact bind_error _ failed
  have refused : programStep (nested depth) scope (.ofTokens first rest) = .error error :=
    (programStep_eq begins.begins).trans (bind_error _ (bind_error _ plain))
  rw [program_ofTokens begins.known]
  exact list_error refused

/-- A program that is one plain expression is one primary expression. -/
theorem program_succ_iff (plain : isPlain node = true) (begins : BeginsPlain first.kind) :
    (∃ final, program (depth + 1) scope (.ofTokens dummy (first :: rest)) = .ok ([node], final)) ↔
      ∃ stop, primary (nested depth) scope (.ofTokens first rest) = .ok (node, stop) ∧
        Closes stop.token stop.rest := by
  rw [program_iff plain begins]
  refine exists_congr fun stop => and_congr_left fun closes => ?_
  exact expression_iff plain closes.endsStatement.endsExpression begins

end RubySyntax.Grammar
