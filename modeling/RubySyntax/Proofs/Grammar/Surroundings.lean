import Mathlib.Data.List.Forall2
import RubySyntax.Grammar.Program
import RubySyntax.Proofs.Grammar.Evaluation
import RubySyntax.Proofs.Grammar.Expression
import RubySyntax.Proofs.Grammar.Progress

/-! What a reading takes from its surroundings. The places of the tokens and what
is left of the nesting limit do not change what is read, and to whom a `do` belongs
matters only where there is one. -/
namespace RubySyntax

namespace Token

open Grammar (startsCommandArgument)

/-- Two tokens that may stand at different places. -/
def Like (token other : Token) : Prop := ∃ span, other = { token with span }

/-- The same tokens at other places, with other white space around them. Behind a name
the arguments of a command begin in both lists or in neither. -/
inductive Respaced : List Token → List Token → Prop where
  | last {token : Token} (place : token.Place)
      (starts : token.kind.isMethodName = true →
        startsCommandArgument (token.placed place) = startsCommandArgument token) :
      Respaced [token] [token.placed place]
  | cons {token next next' : Token} (place : token.Place)
      (starts : token.kind.isMethodName = true →
        startsCommandArgument next' = startsCommandArgument next)
      (more : Respaced (next :: rest) (next' :: rest')) :
      Respaced (token :: next :: rest) (token.placed place :: next' :: rest')

namespace Respaced

variable {tokens others : List Token}

theorem symm (alike : Respaced tokens others) : Respaced others tokens := by
  induction alike with
  | @last token place starts =>
    let back : (token.placed place).Place :=
      ⟨token.span, token.spacing, fun inLine => (place.spaced inLine).symm,
        fun bracket => (place.opens bracket).symm⟩
    exact .last back fun name => (starts name).symm
  | @cons _ _ token _ _ place starts _ ih =>
    let back : (token.placed place).Place :=
      ⟨token.span, token.spacing, fun inLine => (place.spaced inLine).symm,
        fun bracket => (place.opens bracket).symm⟩
    exact .cons back (fun name => (starts name).symm) ih

theorem length_eq (alike : Respaced tokens others) : others.length = tokens.length := by
  induction alike with
  | last _ _ => rfl
  | cons _ _ _ ih => exact congrArg Nat.succ ih

theorem kinds (alike : Respaced tokens others) :
    others.map Token.kind = tokens.map Token.kind := by
  induction alike with
  | last _ _ => rfl
  | cons _ _ _ ih => exact congrArg (_ :: ·) ih

/-- Only the spans differ. -/
theorem of_like (token : Token) (span : Text.Span) (rest : List.Forall₂ Like tokens others) :
    Respaced (token :: tokens) ({ token with span } :: others) := by
  induction rest generalizing token span with
  | nil => exact .last ⟨span, token.spacing, fun _ => rfl, fun _ => rfl⟩ fun _ => rfl
  | cons like _ ih =>
    obtain ⟨moved, rfl⟩ := like
    exact .cons ⟨span, token.spacing, fun _ => rfl, fun _ => rfl⟩ (fun _ => rfl) (ih _ moved)

theorem refl (token : Token) (rest : List Token) : Respaced (token :: rest) (token :: rest) :=
  of_like token token.span (List.forall₂_same.mpr fun token _ => ⟨token.span, rfl⟩)

end Respaced

end Token

namespace Grammar

open Grammar.Parser
open Token (Kind)

namespace Cursor

/-- Two cursors at the same tokens, which may stand at different places. -/
def Like (cursor other : Cursor) : Prop := Token.Respaced cursor.tokens other.tokens

def WithoutDo (cursor : Cursor) : Prop :=
  ∀ token ∈ cursor.token :: cursor.rest, token.kind ≠ .keyword .doKw

variable {cursor other moved : Cursor}

theorem Like.symm (like : cursor.Like other) : other.Like cursor := Token.Respaced.symm like

theorem Like.token (like : cursor.Like other) :
    ∃ place, other.token = cursor.token.placed place := by
  obtain ⟨token, rest, _, rfl⟩ := cursor
  obtain ⟨token', rest', _, rfl⟩ := other
  cases like with
  | last place _ => exact ⟨place, rfl⟩
  | cons place _ _ => exact ⟨place, rfl⟩

theorem Like.kind (like : cursor.Like other) : other.token.kind = cursor.token.kind := by
  obtain ⟨place, same⟩ := like.token
  rw [same, Token.kind_placed]

theorem Like.remaining (like : cursor.Like other) : other.remaining = cursor.remaining := by
  rw [other.remaining_eq, cursor.remaining_eq]
  exact Nat.succ.inj (Token.Respaced.length_eq like)

theorem Like.next? (like : cursor.Like other) :
    (cursor.next? = none ∧ other.next? = none ∧ (cursor.token.kind.isMethodName = true →
      startsCommandArgument other.token = startsCommandArgument cursor.token)) ∨
      ∃ moved moved', cursor.next? = some moved ∧ other.next? = some moved' ∧
        moved.Like moved' ∧ (cursor.token.kind.isMethodName = true →
          startsCommandArgument moved'.token = startsCommandArgument moved.token) := by
  obtain ⟨token, rest, _, rfl⟩ := cursor
  obtain ⟨token', rest', _, rfl⟩ := other
  cases like with
  | last _ starts => exact .inl ⟨rfl, rfl, starts⟩
  | cons _ starts more =>
    exact .inr ⟨.ofTokens _ _, .ofTokens _ _, rfl, rfl, more, starts⟩

theorem WithoutDo.next (without : cursor.WithoutDo) (follows : cursor.next? = some moved) :
    moved.WithoutDo := by
  intro token member
  exact without token (List.mem_cons_of_mem _ (rest_of_next? follows ▸ member))

end Cursor

/-- What the first parser reads the second one reads as well, at other places and
with more nesting left; it may stand where a `do` belongs to something else unless
one is ahead. -/
def Carries {α : Type} (parser other : Parser α) : Prop :=
  ∀ {scope scope' : Scope} {cursor cursor' : Cursor} {value : α} {final : Cursor},
    cursor.Like cursor' → scope'.noDo = scope.noDo ∨ cursor.WithoutDo →
    parser scope cursor = .ok (value, final) →
    ∃ final', other scope' cursor' = .ok (value, final') ∧ final.Like final' ∧
      (cursor.WithoutDo → final.WithoutDo)

namespace Carries

variable {α β : Type}

theorem pure (value : α) : Carries (pure value) (pure value) := by
  intro scope scope' cursor cursor' read final like same done
  cases done
  exact ⟨cursor', rfl, like, id⟩

theorem bind {first first' : Parser α} {next next' : α → Parser β} (start : Carries first first')
    (more : ∀ value, Carries (next value) (next' value)) :
    Carries (first >>= next) (first' >>= next') := by
  intro scope scope' cursor cursor' value final like same done
  obtain ⟨read, middle, begun, rest⟩ := bind_eq_ok done
  obtain ⟨middle', begun', like, kept⟩ := start like same begun
  obtain ⟨final', rest', like, still⟩ := more read like (same.imp_right kept) rest
  exact ⟨final', (bind_ok next' begun').trans rest', like, still ∘ kept⟩

theorem current {next next' : Token → Parser β}
    (alike : ∀ token (place : token.Place), Carries (next token) (next' (token.placed place))) :
    Carries (current >>= next) (current >>= next') := by
  intro scope scope' cursor cursor' value final like same done
  obtain ⟨place, moved⟩ := like.token
  rw [bind_ok _ (current_eq scope cursor)] at done
  rw [bind_ok _ (current_eq scope' cursor'), moved]
  exact alike cursor.token place like same done

/-- Both move on, and behind a name the arguments of a command begin for both or for
neither. -/
theorem advance_like {scope : Scope} (scope' : Scope) {cursor cursor' middle : Cursor} {token : Token}
    (like : cursor.Like cursor') (passed : Parser.advance scope cursor = .ok (token, middle)) :
    ∃ (place : token.Place) (middle' : Cursor),
      Parser.advance scope' cursor' = .ok (token.placed place, middle') ∧ middle.Like middle' ∧
        (cursor.WithoutDo → middle.WithoutDo) ∧ (token.kind.isMethodName = true →
          startsCommandArgument middle'.token = startsCommandArgument middle.token) := by
  obtain ⟨place, moved⟩ := like.token
  obtain ⟨ended, ended', starts⟩ | ⟨behind, behind', follows, follows', more, starts⟩ := like.next?
  · rw [advance_none ended] at passed
    cases passed
    exact ⟨place, cursor', by rw [advance_none ended', moved], like, id, starts⟩
  · rw [advance_some follows] at passed
    split at passed
    · cases passed
    · rename_i known
      cases passed
      refine ⟨place, behind', ?_, more, fun without => without.next follows, starts⟩
      rw [advance_some follows', more.kind, if_neg known, moved]

theorem advance {next next' : Token → Parser β}
    (alike : ∀ token (place : token.Place), Carries (next token) (next' (token.placed place))) :
    Carries (advance >>= next) (advance >>= next') := by
  intro scope scope' cursor cursor' value final like same done
  obtain ⟨token, middle, passed, rest⟩ := bind_eq_ok done
  obtain ⟨place, middle', passed', like, kept, _⟩ := advance_like scope' like passed
  rw [bind_ok _ passed']
  obtain ⟨final', rest', like, still⟩ := alike token place like (same.imp_right kept) rest
  exact ⟨final', rest', like, still ∘ kept⟩

/-- Behind a name both are asked the same. -/
theorem command {named named' : Token → Bool → Parser β} {other other' : Kind → Parser β}
    (names : Kind → Bool) (methods : ∀ kind, names kind = true → kind.isMethodName = true)
    (alike : ∀ name (place : name.Place) starts,
      Carries (named name starts) (named' (name.placed place) starts))
    (otherwise : ∀ kind, Carries (other kind) (other' kind)) :
    Carries
      (kind >>= fun kind =>
        if names kind then Parser.advance >>= fun name => Parser.current >>= fun behind =>
          named name (startsCommandArgument behind)
        else other kind)
      (kind >>= fun kind =>
        if names kind then Parser.advance >>= fun name => Parser.current >>= fun behind =>
          named' name (startsCommandArgument behind)
        else other' kind) := by
  intro scope scope' cursor cursor' value final like same done
  rw [bind_ok _ (kind_eq scope cursor)] at done
  rw [bind_ok _ (kind_eq scope' cursor'), like.kind]
  split at done
  · rename_i name
    rw [if_pos name]
    obtain ⟨token, middle, passed, rest⟩ := bind_eq_ok done
    obtain ⟨place, middle', passed', like, kept, starts⟩ := advance_like scope' like passed
    have method : token.kind.isMethodName = true := by
      rw [(advance_eq_ok passed).1]
      exact methods _ name
    rw [bind_ok _ (current_eq scope middle)] at rest
    rw [bind_ok _ passed', bind_ok _ (current_eq scope' middle'), starts method]
    obtain ⟨final', rest', like, still⟩ := alike token place _ like (same.imp_right kept) rest
    exact ⟨final', rest', like, still ∘ kept⟩
  · rename_i unnamed
    rw [if_neg unnamed]
    exact otherwise _ like same done

theorem nextKind : Carries nextKind nextKind := by
  intro scope scope' cursor cursor' value final like same done
  cases done
  refine ⟨cursor', ?_, like, id⟩
  have heads : cursor'.rest.head?.map Token.kind = cursor.rest.head?.map Token.kind := by
    obtain ⟨token, rest, _, rfl⟩ := cursor
    obtain ⟨token', rest', _, rfl⟩ := cursor'
    cases like with
    | last _ _ => rfl
    | cons _ _ more =>
      cases more with
      | last _ _ => rfl
      | cons _ _ _ => rfl
  exact congrArg (fun kind => Except.ok (kind, cursor')) heads

/-- Where a `do` is the current token, both ask the same of their surroundings. -/
theorem atDo {asked asked' : Bool → Parser β} {other other' : Kind → Parser β}
    (alike : ∀ noDo, Carries (asked noDo) (asked' noDo))
    (otherwise : ∀ kind, Carries (other kind) (other' kind)) :
    Carries
      (kind >>= fun kind => if kind = .keyword .doKw then noDo >>= asked else other kind)
      (kind >>= fun kind => if kind = .keyword .doKw then noDo >>= asked' else other' kind) := by
  intro scope scope' cursor cursor' value final like same done
  rw [bind_ok _ (kind_eq scope cursor)] at done
  rw [bind_ok _ (kind_eq scope' cursor'), like.kind]
  split at done
  · rename_i here
    rw [if_pos here]
    have agree : scope'.noDo = scope.noDo :=
      same.resolve_right fun without => without _ List.mem_cons_self here
    show ∃ final', asked' scope'.noDo scope' cursor' = _ ∧ _
    rw [agree]
    exact alike scope.noDo like same done
  · rename_i elsewhere
    rw [if_neg elsewhere]
    exact otherwise _ like same done

theorem list {step step' : Parser (Item α)} (alike : Carries step step') :
    Carries (list step) (list step') := by
  intro scope scope' cursor cursor' values final like same done
  fun_induction Parser.list step scope cursor generalizing cursor' values with
  | case1 cursor error failed => cases done
  | case2 cursor middle stepped =>
    cases done
    obtain ⟨middle', stepped', like, kept⟩ := alike like same stepped
    exact ⟨middle', list_stop stepped', like, kept⟩
  | case3 cursor value middle stepped =>
    cases done
    obtain ⟨middle', stepped', like, kept⟩ := alike like same stepped
    exact ⟨middle', list_last stepped', like, kept⟩
  | case4 cursor value middle stepped moved error failed ih => cases done
  | case5 cursor value middle stepped moved others rest more ih =>
    cases done
    obtain ⟨middle', stepped', middleLike, kept⟩ := alike like same stepped
    obtain ⟨final', more', finalLike, still⟩ := ih middleLike (same.imp_right kept) more
    have moved' : middle'.remaining < cursor'.remaining := by
      rwa [middleLike.remaining, like.remaining]
    exact ⟨final', list_more stepped' moved' more', finalLike, still ∘ kept⟩
  | case6 cursor value middle stepped stuck => cases done

theorem chain {step step' : β → Parser (Option β)}
    (alike : ∀ value, Carries (step value) (step' value)) (value : β) :
    Carries (chain step value) (chain step' value) := by
  intro scope scope' cursor cursor' built final like same done
  fun_induction Parser.chain step value scope cursor generalizing cursor' with
  | case1 value cursor error failed => cases done
  | case2 value cursor middle stepped =>
    cases done
    obtain ⟨middle', stepped', like, kept⟩ := alike _ like same stepped
    exact ⟨middle', chain_none stepped', like, kept⟩
  | case3 value cursor next middle stepped moved ih =>
    obtain ⟨middle', stepped', middleLike, kept⟩ := alike _ like same stepped
    obtain ⟨final', more', finalLike, still⟩ := ih middleLike (same.imp_right kept) done
    have moved' : middle'.remaining < cursor'.remaining := by
      rwa [middleLike.remaining, like.remaining]
    exact ⟨final', (chain_some stepped' moved').trans more', finalLike, still ∘ kept⟩
  | case4 value cursor next middle stepped stuck => cases done

theorem fail (message : Diagnostic.Message) (args : List String) :
    Carries (Parser.fail message args : Parser α) (Parser.fail message args) :=
  fun _ _ done => nomatch done

theorem laws : Congruence Carries where
  pure := pure
  bind := bind
  current := current
  advance := advance
  nextKind := nextKind
  atDo := atDo
  command := command
  numberOr := Congruence.numberOr_of_fail current (fun node => advance fun _ _ => pure node)
    fun message args _ => fail message args
  fail message args _ := fail message args
  withNoDo noDo alike := @fun scope scope' _ _ _ _ like _ done =>
    @alike { scope with noDo } { scope' with noDo } _ _ _ _ like (.inl rfl) done
  list := list
  chain := chain

end Carries

theorem nested_carries (le : n ≤ m) (level : Level) : Carries (nested n level) (nested m level) := by
  induction n generalizing m level with
  | zero => exact fun _ _ done => nomatch done
  | succ n ih =>
    obtain ⟨m, rfl⟩ : ∃ lower, m = lower + 1 := ⟨m - 1, by omega⟩
    exact Carries.laws.atLevel (fun level => ih (by omega) level) level

theorem program_carries (le : n ≤ m) : Carries (program n) (program m) :=
  Carries.laws.step (Carries.laws.statements (nested_carries le) [])

/-- Programs are the same wherever their tokens stand. -/
theorem program_iff_of_like {cursor other : Cursor} {scope scope' : Scope} (like : cursor.Like other)
    (same : scope'.noDo = scope.noDo) :
    (∃ final, program depth scope cursor = .ok (nodes, final)) ↔
      ∃ final, program depth scope' other = .ok (nodes, final) := by
  constructor
  · rintro ⟨final, read⟩
    obtain ⟨final', read', _⟩ := program_carries (Nat.le_refl depth) like (.inl same) read
    exact ⟨final', read'⟩
  · rintro ⟨final, read⟩
    obtain ⟨final', read', _⟩ := program_carries (Nat.le_refl depth) like.symm (.inl same.symm) read
    exact ⟨final', read'⟩

/-- Where there is no `do` it does not matter to whom it would belong. -/
theorem program_of_withoutDo {cursor : Cursor} {scope : Scope} (without : cursor.WithoutDo)
    (read : program depth scope cursor = .ok (nodes, final)) (scope' : Scope) :
    ∃ final, program depth scope' cursor = .ok (nodes, final) := by
  have like : cursor.Like cursor := Token.Respaced.refl cursor.token cursor.rest
  obtain ⟨final', read', _⟩ := program_carries (Nat.le_refl depth) like (.inr without) read
  exact ⟨final', read'⟩

end Grammar

end RubySyntax
