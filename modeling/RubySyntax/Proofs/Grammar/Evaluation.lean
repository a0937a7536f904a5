import RubySyntax.Grammar.Parser

namespace RubySyntax.Grammar

/-- A cursor with its current token in front of others. -/
def Cursor.ofTokens (token : Token) (rest : List Token) : Cursor :=
  let remaining := rest.length
  { token, rest, remaining }

@[simp] theorem Cursor.token_ofTokens (token : Token) (rest : List Token) :
    (Cursor.ofTokens token rest).token = token := rfl

theorem Cursor.next?_ofTokens (token next : Token) (rest : List Token) :
    (Cursor.ofTokens token (next :: rest)).next? = some (.ofTokens next rest) := rfl

theorem Cursor.rest_of_ended {cursor : Cursor} (ended : cursor.next? = none) : cursor.rest = [] := by
  unfold Cursor.next? at ended
  split at ended
  · assumption
  · cases ended

theorem Cursor.rest_of_next? {cursor next : Cursor} (follows : cursor.next? = some next) :
    cursor.rest = next.token :: next.rest := by
  unfold Cursor.next? at follows
  split at follows
  · cases follows
  · cases follows
    assumption

namespace Parser

open Diagnostic (ParseError)

variable {α β : Type} {scope : Scope} {cursor middle final : Cursor} {error : ParseError}

theorem bind_error {first : Parser α} (next : α → Parser β)
    (failed : first scope cursor = .error error) : (first >>= next) scope cursor = .error error := by
  show Except.bind (first scope cursor) _ = _
  rw [failed]
  rfl

theorem bind_ok {first : Parser α} (next : α → Parser β)
    (done : first scope cursor = .ok (value, middle)) :
    (first >>= next) scope cursor = next value scope middle := by
  show Except.bind (first scope cursor) _ = _
  rw [done]
  rfl

/-- What follows goes on alike behind readings that are the same. -/
theorem bind_alike {first other : Parser α} {cursor' : Cursor} (next : α → Parser β)
    (same : first scope cursor = other scope cursor') :
    (first >>= next) scope cursor = (other >>= next) scope cursor' := by
  show Except.bind (first scope cursor) _ = Except.bind (other scope cursor') _
  rw [same]

/-- A parser in front of another has read something. -/
theorem bind_eq_ok {first : Parser α} {next : α → Parser β}
    (done : (first >>= next) scope cursor = .ok (value, final)) :
    ∃ read middle, first scope cursor = .ok (read, middle) ∧
      next read scope middle = .ok (value, final) := by
  cases start : first scope cursor with
  | error error =>
    rw [bind_error next start] at done
    cases done
  | ok result =>
    rw [bind_ok next start] at done
    exact ⟨result.1, result.2, rfl, done⟩

theorem map_eq_ok {parser : Parser α} {f : α → β}
    (done : (f <$> parser) scope cursor = .ok (value, final)) :
    ∃ read, parser scope cursor = .ok (read, final) ∧ value = f read := by
  rw [map_eq_pure_bind] at done
  obtain ⟨read, middle, start, same⟩ := bind_eq_ok done
  cases same
  exact ⟨read, start, rfl⟩

theorem discard_eq_ok {parser : Parser α}
    (done : Functor.discard parser scope cursor = .ok (value, final)) :
    ∃ read, parser scope cursor = .ok (read, final) := by
  obtain ⟨read, start, _⟩ := map_eq_ok done
  exact ⟨read, start⟩

theorem discard_ok {parser : Parser α} (done : parser scope cursor = .ok (value, final)) :
    Functor.discard parser scope cursor = .ok ((), final) := by
  show Except.map _ (parser scope cursor) = _
  rw [done]
  rfl

/-- The fault behind a token of unknown kind. -/
def Scope.faultAt (scope : Scope) (token : Token) : Diagnostic.Report :=
  scope.fault.getD (.raiseAt token.span .unexpectedCharacter [token.text])

theorem get_here (scope : Scope) (cursor : Cursor) :
    (get : Parser Cursor) scope cursor = .ok (cursor, cursor) := rfl

theorem advance_none (ended : cursor.next? = none) :
    advance scope cursor = .ok (cursor.token, cursor) := by
  rw [advance, bind_ok _ (get_here scope cursor), ended]
  rfl

theorem advance_some (follows : cursor.next? = some middle) :
    advance scope cursor =
      if middle.token.kind == .unknown then .error (.lexical (Scope.faultAt scope middle.token))
      else .ok (cursor.token, middle) := by
  rw [advance, bind_ok _ (get_here scope cursor), follows]
  dsimp only
  split
  · rfl
  · rfl

theorem advance_eq_ok (moved : advance scope cursor = .ok (token, final)) :
    token = cursor.token ∧
      (final = cursor ∧ cursor.next? = none ∨ cursor.next? = some final) := by
  cases follows : cursor.next? with
  | none =>
    rw [advance_none follows] at moved
    cases moved
    exact ⟨rfl, .inl ⟨rfl, rfl⟩⟩
  | some next =>
    rw [advance_some follows] at moved
    split at moved
    · cases moved
    · cases moved
      exact ⟨rfl, .inr rfl⟩

/-- What stands ahead is the current token behind the one that is consumed. -/
theorem kind_of_advance {kind : Token.Kind} (moved : advance scope cursor = .ok (token, final))
    (ahead : cursor.rest.head?.map Token.kind = some kind) : final.token.kind = kind := by
  rcases (advance_eq_ok moved).2 with ⟨_, ended⟩ | follows
  · rw [Cursor.rest_of_ended ended] at ahead
    cases ahead
  · rw [Cursor.rest_of_next? follows] at ahead
    exact Option.some.inj ahead

theorem advance_ofTokens {token next : Token} (known : next.kind ≠ .unknown) (rest : List Token) :
    advance scope (.ofTokens token (next :: rest)) = .ok (token, .ofTokens next rest) := by
  have other : ¬ (next.kind == .unknown) = true := by simpa using known
  rw [advance_some (Cursor.next?_ofTokens token next rest)]
  exact if_neg other

theorem current_eq (scope : Scope) (cursor : Cursor) :
    current scope cursor = .ok (cursor.token, cursor) := rfl

theorem kind_eq (scope : Scope) (cursor : Cursor) :
    kind scope cursor = .ok (cursor.token.kind, cursor) := rfl

theorem isAt_eq (kind : Token.Kind) (scope : Scope) (cursor : Cursor) :
    isAt kind scope cursor = .ok (cursor.token.kind == kind, cursor) := rfl

theorem isAt_here {kind : Token.Kind} (here : cursor.token.kind = kind) :
    isAt kind scope cursor = .ok (true, cursor) := by
  rw [isAt_eq, beq_iff_eq.mpr here]

theorem isAt_other {kind : Token.Kind} (other : cursor.token.kind ≠ kind) :
    isAt kind scope cursor = .ok (false, cursor) := by
  rw [isAt_eq, beq_false_of_ne other]

theorem eat_other {kind : Token.Kind} (other : cursor.token.kind ≠ kind) :
    eat kind scope cursor = .ok (false, cursor) := by
  unfold eat
  rw [bind_ok _ (isAt_eq kind scope cursor), beq_false_of_ne other]
  rfl

theorem eat_ofTokens {kind : Token.Kind} {token next : Token} {rest : List Token}
    (here : token.kind = kind) (known : next.kind ≠ .unknown) :
    eat kind scope (.ofTokens token (next :: rest)) = .ok (true, .ofTokens next rest) := by
  unfold eat
  rw [bind_ok _ (isAt_here here)]
  exact bind_ok _ (discard_ok (advance_ofTokens known rest))

/-- What is eaten is the token at the cursor, if it is of the kind. -/
theorem eat_eq_ok {kind : Token.Kind} (eaten : eat kind scope cursor = .ok (found, final)) :
    (found = false ∧ final = cursor) ∨
      (found = true ∧ cursor.token.kind = kind ∧
        ∃ token, advance scope cursor = .ok (token, final)) := by
  by_cases here : cursor.token.kind = kind
  · unfold eat at eaten
    rw [bind_ok _ (isAt_eq kind scope cursor), beq_iff_eq.mpr here] at eaten
    obtain ⟨_, middle, moved, same⟩ := bind_eq_ok eaten
    cases same
    exact .inr ⟨rfl, here, discard_eq_ok moved⟩
  · rw [eat_other here] at eaten
    cases eaten
    exact .inl ⟨rfl, rfl⟩

theorem expect_ofTokens {kind : Token.Kind} {token next : Token} {rest : List Token}
    (here : token.kind = kind) (known : next.kind ≠ .unknown) :
    expect kind scope (.ofTokens token (next :: rest)) = .ok (token, .ofTokens next rest) := by
  unfold expect
  rw [bind_ok _ (isAt_here here)]
  exact advance_ofTokens known rest

theorem expect_eq_ok {kind : Token.Kind} (done : expect kind scope cursor = .ok (token, final)) :
    cursor.token.kind = kind ∧ advance scope cursor = .ok (token, final) := by
  by_cases here : cursor.token.kind = kind
  · refine ⟨here, ?_⟩
    unfold expect at done
    rwa [bind_ok _ (isAt_eq kind scope cursor), beq_iff_eq.mpr here] at done
  · unfold expect at done
    rw [bind_ok _ (isAt_eq kind scope cursor), beq_false_of_ne here] at done
    dsimp only at done
    rw [if_neg Bool.false_ne_true, bind_ok _ (isAt_eq _ scope cursor)] at done
    split at done
    · cases done
    · cases done

section List

variable {step : Parser (Item α)}

theorem list_error (failed : step scope cursor = .error error) :
    list step scope cursor = .error error := by
  rw [list, failed]

theorem list_stop (done : step scope cursor = .ok (.stop, middle)) :
    list step scope cursor = .ok ([], middle) := by
  rw [list, done]

theorem list_last (done : step scope cursor = .ok (.last value, middle)) :
    list step scope cursor = .ok ([value], middle) := by
  rw [list, done]

theorem list_more_error (done : step scope cursor = .ok (.more value, middle))
    (moved : middle.remaining < cursor.remaining) (failed : list step scope middle = .error error) :
    list step scope cursor = .error error := by
  rw [list, done]
  simp only [if_pos moved, failed]

theorem list_more (done : step scope cursor = .ok (.more value, middle))
    (moved : middle.remaining < cursor.remaining)
    (rest : list step scope middle = .ok (values, final)) :
    list step scope cursor = .ok (value :: values, final) := by
  rw [list, done]
  simp only [if_pos moved, rest]

/-- A step that others should follow but that does not move on. -/
theorem list_stuck (done : step scope cursor = .ok (.more value, middle))
    (stuck : ¬ middle.remaining < cursor.remaining) :
    list step scope cursor = unexpected scope middle := by
  rw [list, done]
  simp only [if_neg stuck]

/-- A list is empty, ends with its first element or goes on behind it. -/
theorem list_eq_ok (done : list step scope cursor = .ok (values, final)) :
    (step scope cursor = .ok (.stop, final) ∧ values = []) ∨
      (∃ value, step scope cursor = .ok (.last value, final) ∧ values = [value]) ∨
      ∃ value others middle, step scope cursor = .ok (.more value, middle) ∧
        list step scope middle = .ok (others, final) ∧ values = value :: others := by
  rw [list] at done
  split at done
  · cases done
  · cases done
    rename_i stepped
    exact .inl ⟨stepped, rfl⟩
  · cases done
    rename_i value stepped
    exact .inr (.inl ⟨value, stepped, rfl⟩)
  · rename_i value middle stepped
    split at done
    · split at done
      · cases done
      · cases done
        rename_i others rest
        exact .inr (.inr ⟨value, others, middle, stepped, rest, rfl⟩)
    · cases done

end List

section Chain

variable {step : β → Parser (Option β)}

theorem chain_error (failed : step value scope cursor = .error error) :
    chain step value scope cursor = .error error := by
  rw [chain, failed]

theorem chain_none (done : step value scope cursor = .ok (none, middle)) :
    chain step value scope cursor = .ok (value, middle) := by
  rw [chain, done]

theorem chain_some (done : step value scope cursor = .ok (some built, middle))
    (moved : middle.remaining < cursor.remaining) :
    chain step value scope cursor = chain step built scope middle := by
  rw [chain, done]
  simp only [if_pos moved]

theorem chain_stuck (done : step value scope cursor = .ok (some built, middle))
    (stuck : ¬ middle.remaining < cursor.remaining) :
    chain step value scope cursor = unexpected scope middle := by
  rw [chain, done]
  simp only [if_neg stuck]

end Chain

theorem skipWhile_other {holds : Token.Kind → Bool} (other : holds cursor.token.kind = false) :
    skipWhile holds scope cursor = .ok ((), cursor) := by
  refine chain_none ?_
  rw [bind_ok _ (kind_eq scope cursor), other]
  rfl

theorem skipNewLines_other (other : cursor.token.kind ≠ .newLine) :
    skipNewLines scope cursor = .ok ((), cursor) := skipWhile_other (beq_false_of_ne other)

theorem eatComma_other (other : cursor.token.kind ≠ .punct .comma) :
    eatComma scope cursor = .ok (false, cursor) := by
  unfold eatComma
  rw [bind_ok _ (eat_other other)]
  rfl

/-- A comma is eaten where no line break is behind it. -/
theorem eatComma_ofTokens {token next : Token} {rest : List Token}
    (here : token.kind = .punct .comma) (known : next.kind ≠ .unknown)
    (inLine : next.kind ≠ .newLine) :
    eatComma scope (.ofTokens token (next :: rest)) = .ok (true, .ofTokens next rest) := by
  unfold eatComma
  rw [bind_ok _ (eat_ofTokens here known)]
  exact bind_ok _ (skipNewLines_other inLine)

/-- One token is passed over, and the rest goes on at the next one. -/
theorem skipWhile_ofTokens {holds : Token.Kind → Bool} {token next : Token} {rest : List Token}
    (here : holds token.kind = true) (known : next.kind ≠ .unknown) :
    skipWhile holds scope (.ofTokens token (next :: rest)) =
      skipWhile holds scope (.ofTokens next rest) := by
  refine chain_some ?_ (Nat.lt_succ_self rest.length)
  rw [bind_ok _ (kind_eq _ _), Cursor.token_ofTokens, if_pos here]
  exact bind_ok _ (congrArg (Except.map _) (advance_ofTokens known rest))

/-- Either the token at the cursor stays, or it is passed over. -/
theorem skipWhile_eq_ok {holds : Token.Kind → Bool}
    (skipped : skipWhile holds scope cursor = .ok ((), final)) :
    final = cursor ∧ holds cursor.token.kind = false ∨
      holds cursor.token.kind = true ∧ ∃ middle, cursor.next? = some middle ∧
        skipWhile holds scope middle = .ok ((), final) := by
  unfold skipWhile at skipped
  rw [chain] at skipped
  split at skipped
  · cases skipped
  · rename_i middle stepped
    rw [bind_ok _ (kind_eq scope cursor)] at stepped
    split at stepped
    · obtain ⟨_, _, _, same⟩ := bind_eq_ok stepped
      cases same
    · rename_i other
      cases stepped
      cases skipped
      exact .inl ⟨rfl, Bool.eq_false_iff.mpr other⟩
  · rename_i middle stepped
    split at skipped
    · rename_i moved
      rw [bind_ok _ (kind_eq scope cursor)] at stepped
      split at stepped
      · rename_i here
        obtain ⟨_, after, passed, same⟩ := bind_eq_ok stepped
        cases same
        obtain ⟨token, passed⟩ := discard_eq_ok passed
        rcases (advance_eq_ok passed).2 with ⟨rfl, _⟩ | follows
        · exact absurd moved (Nat.lt_irrefl _)
        · exact .inr ⟨here, middle, follows, skipped⟩
      · cases stepped
    · cases skipped

end Parser

end RubySyntax.Grammar
