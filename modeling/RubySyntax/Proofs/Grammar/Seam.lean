import RubySyntax.Proofs.Grammar.Discipline.Expression
import RubySyntax.Proofs.Grammar.LexicalFault

/-! Programs in front of others. A statement is read in front of the end of a line as it
is read in front of the end of the input, so the statements of a program are read alike
with the statements of another one behind them. -/
namespace RubySyntax.Grammar

open RubySyntax.Tree (Node)
open Token (Kind Punct)
open Grammar.Parser

/-- Only ends of statements are left. -/
def Cursor.Spent (cursor : Cursor) : Prop := ∀ token ∈ cursor.tokens, EndsStatement token.kind

theorem Cursor.Spent.here {cursor : Cursor} (spent : cursor.Spent) :
    EndsStatement cursor.token.kind := spent _ List.mem_cons_self

theorem Cursor.next?_of_tokens {cursor : Cursor} {token first : Token} {rest : List Token}
    (split : cursor.tokens = token :: first :: rest) :
    cursor.next? = some (.ofTokens first rest) := by
  obtain ⟨_, ahead, _, rfl⟩ := cursor
  obtain ⟨rfl, rfl⟩ := List.cons.inj split
  rfl

/-- How a program ends by itself, and how it ends in front of another one: at a separator
that it has in any case, or at a line break in the place of the end of the input. -/
structure Seam where
  last : Token
  rest : List Token
  first : Token
  more : List Token
  ends : ∀ token ∈ last :: rest, EndsStatement token.kind
  separates : first.kind.isSeparator = true
  alike : first = last ∨ last.kind = .endOfFile ∧ first.kind = .newLine

namespace Seam

variable {seam : Seam} {cursor other final next next' : Cursor} {scope : Scope} {α β : Type}

theorem last_ends (seam : Seam) : EndsStatement seam.last.kind := seam.ends _ List.mem_cons_self

theorem first_ends (seam : Seam) : EndsStatement seam.first.kind := .inr seam.separates

/-- The same tokens are left up to the seam. -/
def Cut (seam : Seam) (cursor other : Cursor) : Prop :=
  ∃ front, (∀ token ∈ front, token.isTerminal = false) ∧
    cursor.tokens = front ++ seam.last :: seam.rest ∧ other.tokens = front ++ seam.first :: seam.more

/-- Both stand at the seam. -/
structure AtSeam (seam : Seam) (cursor other : Cursor) : Prop where
  spent : cursor.Spent
  last : cursor.token = seam.last
  joined : other.tokens = seam.first :: seam.more

theorem AtSeam.first (place : seam.AtSeam cursor other) : other.token = seam.first :=
  (List.cons.inj place.joined).1

/-- Both stand at the same token in front of the seam. -/
structure InFront (seam : Seam) (cursor other next next' : Cursor) : Prop where
  same : other.token = cursor.token
  running : cursor.token.isTerminal = false
  follows : cursor.next? = some next
  follows' : other.next? = some next'
  cut : seam.Cut next next'

theorem InFront.running_kind (place : seam.InFront cursor other next next') :
    cursor.token.kind ≠ .endOfFile := by
  intro last
  have running := place.running
  rw [(Lexer.isTerminal_iff cursor.token).mpr (.inl last)] at running
  cases running

theorem Cut.cases (cut : seam.Cut cursor other) :
    seam.AtSeam cursor other ∨ ∃ next next', seam.InFront cursor other next next' := by
  obtain ⟨front, running, alone, joined⟩ := cut
  cases front with
  | nil =>
    refine .inl ⟨?_, (List.cons.inj alone).1, joined⟩
    rw [Cursor.Spent, alone]
    exact seam.ends
  | cons token behind =>
    obtain ⟨first, rest, split⟩ := List.exists_cons_of_ne_nil
      (List.append_ne_nil_of_right_ne_nil behind (List.cons_ne_nil seam.last seam.rest))
    obtain ⟨first', rest', split'⟩ := List.exists_cons_of_ne_nil
      (List.append_ne_nil_of_right_ne_nil behind (List.cons_ne_nil seam.first seam.more))
    obtain ⟨here, others⟩ := List.forall_mem_cons.mp running
    rw [List.cons_append, split] at alone
    rw [List.cons_append, split'] at joined
    have same : cursor.token = token := (List.cons.inj alone).1
    have same' : other.token = token := (List.cons.inj joined).1
    exact .inr ⟨.ofTokens first rest, .ofTokens first' rest', same'.trans same.symm, same ▸ here,
      Cursor.next?_of_tokens alone, Cursor.next?_of_tokens joined,
      behind, others, split.symm, split'.symm⟩

/-- What holds at the seam, and in front of a token in front of which it holds behind the
token, holds all the way. -/
theorem Cut.induction {motive : (cursor other : Cursor) → seam.Cut cursor other → Prop}
    (atSeam : ∀ cursor other, seam.AtSeam cursor other → ∀ cut, motive cursor other cut)
    (inFront : ∀ cursor other next next' (place : seam.InFront cursor other next next') cut,
      motive next next' place.cut → motive cursor other cut)
    (cut : seam.Cut cursor other) : motive cursor other cut := by
  induction left : cursor.rest generalizing cursor other with
  | nil =>
    obtain place | ⟨next, next', place⟩ := cut.cases
    · exact atSeam _ _ place cut
    · rw [Cursor.rest_of_next? place.follows] at left
      cases left
  | cons first rest ih =>
    obtain place | ⟨next, next', place⟩ := cut.cases
    · exact atSeam _ _ place cut
    · have split := (Cursor.rest_of_next? place.follows).symm.trans left
      exact inFront _ _ _ _ place cut (ih place.cut (List.cons.inj split).2)

/-- Within a statement both stand in front of the seam. -/
theorem Cut.within (cut : seam.Cut cursor other) (within : ¬ EndsStatement cursor.token.kind) :
    ∃ next next', seam.InFront cursor other next next' :=
  cut.cases.resolve_left fun place => within place.spent.here

theorem Cut.known (cut : seam.Cut cursor other) : other.token.kind ≠ .unknown := by
  obtain place | ⟨_, _, place⟩ := cut.cases
  · rw [place.first]
    exact seam.first_ends.ne (show ¬ EndsStatement .unknown by decide)
  · rw [place.same]
    exact Lexer.known_of_running place.running

theorem Cut.remaining (cut : seam.Cut cursor other) :
    other.remaining + seam.rest.length = cursor.remaining + seam.more.length := by
  obtain ⟨front, _, alone, joined⟩ := cut
  have alone := congrArg List.length alone
  have joined := congrArg List.length joined
  simp only [Cursor.tokens, List.length_cons, List.length_append] at alone joined
  rw [cursor.remaining_eq, other.remaining_eq]
  omega

theorem Cut.remaining_lt (cut : seam.Cut cursor other) (cut' : seam.Cut final next)
    (moved : final.remaining < cursor.remaining) : next.remaining < other.remaining := by
  have before := cut.remaining
  have behind := cut'.remaining
  omega

theorem Cut.advance (cut : seam.Cut cursor other) (within : ¬ EndsStatement cursor.token.kind)
    (moved : Parser.advance scope cursor = .ok (token, final)) :
    other.token = cursor.token ∧ token = cursor.token ∧
      ∃ final', Parser.advance scope other = .ok (token, final') ∧ seam.Cut final final' := by
  obtain ⟨next, next', place⟩ := cut.within within
  obtain ⟨rfl, ⟨rfl, ended⟩ | follows⟩ := advance_eq_ok moved
  · rw [place.follows] at ended
    cases ended
  · obtain rfl := Option.some.inj (place.follows.symm.trans follows)
    refine ⟨place.same, rfl, next', ?_, place.cut⟩
    have known : ¬ (next'.token.kind == .unknown) = true := by simpa using place.cut.known
    rw [advance_some place.follows', if_neg known, place.same]

/-- Reading ends of statements leaves only ends of statements. -/
structure Stays (here : Kind → Prop) (parser : Parser α) : Prop where
  spent {scope : Scope} {cursor final : Cursor} {value : α} : here cursor.token.kind →
    cursor.Spent → parser scope cursor = .ok (value, final) → final.Spent

/-- What is read in front of the seam does not depend on what is behind it. -/
structure Firm (seam : Seam) (here : Kind → Prop) (parser : Parser α) : Prop
    extends Stays here parser where
  joined {scope : Scope} {cursor other final : Cursor} {value : α} : here cursor.token.kind →
    seam.Cut cursor other → parser scope cursor = .ok (value, final) →
      ∃ final', parser scope other = .ok (value, final') ∧ seam.Cut final final'

/-- The same, unless the reading goes on over the seam. -/
structure Loose (seam : Seam) (parser : Parser α) : Prop extends Stays (fun _ => True) parser where
  joined {scope : Scope} {cursor other final : Cursor} {value : α} : seam.Cut cursor other →
    parser scope cursor = .ok (value, final) → final.Spent ∨
      ∃ final', parser scope other = .ok (value, final') ∧ seam.Cut final final'

/-- What is read needs a token in front of the seam. -/
structure Needs (seam : Seam) (here : Kind → Prop) (parser : Parser α) : Prop
    extends Firm seam here parser where
  unread {scope : Scope} {cursor final : Cursor} {value : α} : here cursor.token.kind →
    cursor.Spent → parser scope cursor ≠ .ok (value, final)

variable {here : Kind → Prop}

theorem Needs.of_unread {parser : Parser α}
    (unread : ∀ {scope cursor final value}, here cursor.token.kind → cursor.Spent →
      parser scope cursor ≠ .ok (value, final))
    (joined : ∀ {scope cursor other final value}, here cursor.token.kind →
      seam.Cut cursor other → parser scope cursor = .ok (value, final) →
        ∃ final', parser scope other = .ok (value, final') ∧ seam.Cut final final') :
    Needs seam here parser where
  spent fits spent done := absurd done (unread fits spent)
  joined := joined
  unread := unread

theorem Firm.loose {parser : Parser α} (firm : Firm seam Anywhere parser) : Loose seam parser where
  spent := firm.spent
  joined cut done := .inr (firm.joined trivial cut done)

theorem Loose.looks {parser : Parser α}
    (looks : ∀ scope cursor, ∃ value, parser scope cursor = .ok (value, cursor))
    (same : ∀ {scope} {cursor other next next' : Cursor}, seam.InFront cursor other next next' →
      ∀ value, parser scope cursor = .ok (value, cursor) → parser scope other = .ok (value, other)) :
    Loose seam parser where
  spent := by
    intro scope cursor final value _ spent done
    obtain ⟨_, looked⟩ := looks scope cursor
    cases looked.symm.trans done
    exact spent
  joined := by
    intro scope cursor other final value cut done
    obtain ⟨_, looked⟩ := looks scope cursor
    cases looked.symm.trans done
    obtain place | ⟨_, _, place⟩ := cut.cases
    · exact .inl place.spent
    · exact .inr ⟨other, same place _ done, cut⟩

theorem Firm.bind {first : Parser α} {next : α → Parser β} (start : Firm seam here first)
    (more : ∀ value, Firm seam Anywhere (next value)) : Firm seam here (first >>= next) where
  spent := by
    intro scope cursor final value fits spent done
    obtain ⟨read, middle, begun, rest⟩ := bind_eq_ok done
    exact (more read).spent trivial (start.spent fits spent begun) rest
  joined := by
    intro scope cursor other final value fits cut done
    obtain ⟨read, middle, begun, rest⟩ := bind_eq_ok done
    obtain ⟨middle', begun', cut⟩ := start.joined fits cut begun
    obtain ⟨final', rest', cut⟩ := (more read).joined trivial cut rest
    exact ⟨final', (bind_ok next begun').trans rest', cut⟩

theorem Loose.bind {first : Parser α} {next : α → Parser β} (start : Loose seam first)
    (more : ∀ value, Loose seam (next value)) : Loose seam (first >>= next) where
  spent := by
    intro scope cursor final value _ spent done
    obtain ⟨read, middle, begun, rest⟩ := bind_eq_ok done
    exact (more read).spent trivial (start.spent trivial spent begun) rest
  joined := by
    intro scope cursor other final value cut done
    obtain ⟨read, middle, begun, rest⟩ := bind_eq_ok done
    obtain spent | ⟨middle', begun', cut⟩ := start.joined cut begun
    · exact .inl ((more read).spent trivial spent rest)
    · refine ((more read).joined cut rest).imp_right fun ⟨final', rest', cut⟩ => ?_
      exact ⟨final', (bind_ok next begun').trans rest', cut⟩

theorem Needs.begins {first : Parser α} {next : α → Parser β} (start : Needs seam here first)
    (more : ∀ value, Firm seam Anywhere (next value)) : Needs seam here (first >>= next) where
  toFirm := start.toFirm.bind more
  unread := by
    intro scope cursor final value fits spent done
    obtain ⟨read, middle, begun, _⟩ := bind_eq_ok done
    exact start.unread fits spent begun

theorem Needs.ends {first : Parser α} {next : α → Parser β} (start : Loose seam first)
    (more : ∀ value, Needs seam Anywhere (next value)) : Needs seam here (first >>= next) := by
  refine .of_unread ?_ ?_
  · intro scope cursor final value _ spent done
    obtain ⟨read, middle, begun, rest⟩ := bind_eq_ok done
    exact (more read).unread trivial (start.spent trivial spent begun) rest
  · intro scope cursor other final value _ cut done
    obtain ⟨read, middle, begun, rest⟩ := bind_eq_ok done
    obtain spent | ⟨middle', begun', cut⟩ := start.joined cut begun
    · exact absurd rest ((more read).unread trivial spent)
    · obtain ⟨final', rest', cut⟩ := (more read).joined trivial cut rest
      exact ⟨final', (bind_ok next begun').trans rest', cut⟩

theorem Firm.current {next : Token → Parser β}
    (alike : ∀ token, here token.kind → Firm seam (· = token.kind) (next token))
    (ended : ∀ last broken : Token, last.kind = .endOfFile → broken.kind = .newLine →
      here .endOfFile → next broken = next last ∨ Needs seam (· = .endOfFile) (next last)) :
    Firm seam here (Parser.current >>= next) where
  spent := by
    intro scope cursor final value fits spent done
    exact (alike cursor.token fits).spent rfl spent done
  joined := by
    intro scope cursor other final value fits cut done
    have rest : next cursor.token scope cursor = .ok (value, final) := done
    show ∃ final', next other.token scope other = .ok (value, final') ∧ seam.Cut final final'
    obtain place | ⟨_, _, place⟩ := cut.cases
    · rcases seam.alike with same | ⟨last, broken⟩
      · rw [place.first, same, ← place.last]
        exact (alike cursor.token fits).joined rfl cut rest
      · rw [← place.last] at last
        rw [← place.first] at broken
        rcases ended cursor.token other.token last broken (last ▸ fits) with same | needs
        · rw [same]
          exact (alike cursor.token fits).joined rfl cut rest
        · exact absurd rest (needs.unread last place.spent)
    · rw [place.same]
      exact (alike cursor.token fits).joined rfl cut rest

theorem Needs.current {next : Token → Parser β}
    (alike : ∀ token, here token.kind → Needs seam (· = token.kind) (next token)) :
    Needs seam here (Parser.current >>= next) := by
  refine .of_unread ?_ ?_
  · intro scope cursor final value fits spent done
    exact (alike cursor.token fits).unread rfl spent done
  · intro scope cursor other final value fits cut done
    have rest : next cursor.token scope cursor = .ok (value, final) := done
    obtain place | ⟨_, _, place⟩ := cut.cases
    · exact absurd rest ((alike cursor.token fits).unread rfl place.spent)
    · show ∃ final', next other.token scope other = .ok (value, final') ∧ seam.Cut final final'
      rw [place.same]
      exact (alike cursor.token fits).joined rfl cut rest

theorem Firm.advance {next : Token → Parser β} (within : ∀ kind, here kind → ¬ EndsStatement kind)
    (more : ∀ token, Firm seam Anywhere (next token)) :
    Firm seam here (Parser.advance >>= next) where
  spent fits spent _ := absurd spent.here (within _ fits)
  joined := by
    intro scope cursor other final value fits cut done
    obtain ⟨token, middle, passed, rest⟩ := bind_eq_ok done
    obtain ⟨_, rfl, middle', passed', cut⟩ := cut.advance (within _ fits) passed
    obtain ⟨final', rest', cut⟩ := (more cursor.token).joined trivial cut rest
    exact ⟨final', (bind_ok next passed').trans rest', cut⟩

theorem Firm.step {next : Parser β} (within : ∀ kind, here kind → ¬ EndsStatement kind)
    (more : Firm seam Anywhere next) :
    Firm seam here (Functor.discard Parser.advance >>= fun _ => next) := by
  show Firm seam here ((fun _ => ()) <$> Parser.advance >>= fun _ => next)
  rw [map_eq_pure_bind, bind_assoc]
  exact .advance within fun token => more

theorem Needs.expect {kind : Kind} (within : ¬ EndsStatement kind) :
    Needs seam here (Functor.discard (Parser.expect kind)) := by
  refine .of_unread ?_ ?_
  · intro scope cursor final _ _ spent done
    obtain ⟨_, read⟩ := discard_eq_ok done
    exact within ((expect_eq_ok read).1 ▸ spent.here)
  · intro scope cursor other final _ _ cut done
    obtain ⟨token, read⟩ := discard_eq_ok done
    obtain ⟨rfl, moved⟩ := expect_eq_ok read
    obtain ⟨same, _, final', moved', cut⟩ := cut.advance within moved
    have found : Parser.expect cursor.token.kind scope other = .ok (token, final') := by
      unfold Parser.expect
      rw [bind_ok _ (isAt_eq _ scope other), same, beq_self_eq_true]
      exact moved'
    exact ⟨final', discard_ok found, cut⟩

/-- In front of the seam the token behind the current one is the same, or ends a
statement in both. -/
theorem InFront.behind {next next' : Cursor} (place : seam.InFront cursor other next next')
    {kind : Kind} (within : ¬ EndsStatement kind) :
    (other.rest.head?.map Token.kind == some kind) =
      (cursor.rest.head?.map Token.kind == some kind) := by
  rw [Cursor.rest_of_next? place.follows, Cursor.rest_of_next? place.follows']
  show (some next'.token.kind == some kind) = (some next.token.kind == some kind)
  obtain there | ⟨_, _, further⟩ := place.cut.cases
  · rw [there.last, there.first, beq_false_of_ne, beq_false_of_ne]
    · exact fun same => seam.last_ends.ne within (Option.some.inj same)
    · exact fun same => seam.first_ends.ne within (Option.some.inj same)
  · rw [further.same]

theorem Cut.advanceTwo {second : Kind} {next : Token → Parser β} {value : β}
    (cut : seam.Cut cursor other) (within : ¬ EndsStatement cursor.token.kind)
    (ahead : cursor.rest.head?.map Token.kind = some second) (within' : ¬ EndsStatement second)
    (more : ∀ token, Firm seam Anywhere (next token))
    (done : (Functor.discard Parser.advance >>= fun _ => Parser.advance >>= next) scope cursor =
      .ok (value, final)) :
    ∃ final', (Functor.discard Parser.advance >>= fun _ => Parser.advance >>= next) scope other =
      .ok (value, final') ∧ seam.Cut final final' := by
  obtain ⟨token, middle, passed, rest⟩ := bind_eq_ok done
  obtain ⟨_, passed⟩ := discard_eq_ok passed
  obtain ⟨_, _, middle', passed', cut⟩ := cut.advance within passed
  have there : middle.token.kind = second := kind_of_advance passed ahead
  have further : Firm seam (· = second) (Parser.advance >>= next) :=
    .advance (fun _ same => same ▸ within') more
  obtain ⟨final', rest', cut⟩ := further.joined there cut rest
  exact ⟨final', (bind_ok _ (discard_ok passed')).trans rest', cut⟩

theorem Firm.advanceTwo {first second : Kind} {otherwise : Parser β} {next : Token → Parser β}
    (within : ¬ EndsStatement first) (within' : ¬ EndsStatement second)
    (stays : Firm seam Anywhere otherwise) (more : ∀ token, Firm seam Anywhere (next token)) :
    Firm seam Anywhere (isAtGlued first >>= fun here => nextKind >>= fun behind =>
      if (here && behind == some second) = true then
        Functor.discard Parser.advance >>= fun _ => Parser.advance >>= next
      else otherwise) where
  spent := by
    intro scope cursor final value _ spent done
    have other : (cursor.token.kind == first) = false :=
      beq_false_of_ne (spent.here.ne within)
    obtain ⟨_, _, asked, done⟩ := bind_eq_ok done
    cases asked
    obtain ⟨_, _, asked, done⟩ := bind_eq_ok done
    cases asked
    rw [other, Bool.false_and, Bool.false_and, if_neg Bool.false_ne_true] at done
    exact stays.spent trivial spent done
  joined := by
    intro scope cursor other final value _ cut done
    have asks (cursor : Cursor) : (isAtGlued first >>= fun here => nextKind >>= fun behind =>
        if (here && behind == some second) = true then
          Functor.discard Parser.advance >>= fun _ => Parser.advance >>= next
        else otherwise) scope cursor =
      (if ((cursor.token.kind == first && !cursor.token.spacing.isSpacedBefore) &&
          cursor.rest.head?.map Token.kind == some second) = true then
        Functor.discard Parser.advance >>= fun _ => Parser.advance >>= next
      else otherwise) scope cursor := rfl
    rw [asks] at done
    rw [asks]
    obtain place | ⟨_, _, place⟩ := cut.cases
    · have here : (cursor.token.kind == first) = false :=
        beq_false_of_ne (place.spent.here.ne within)
      have there : (other.token.kind == first) = false :=
        beq_false_of_ne ((place.first ▸ seam.first_ends).ne within)
      rw [here, Bool.false_and, Bool.false_and, if_neg Bool.false_ne_true] at done
      rw [there, Bool.false_and, Bool.false_and, if_neg Bool.false_ne_true]
      exact stays.joined trivial cut done
    · rw [place.same, place.behind within']
      split at done
      · rename_i both
        rw [if_pos both]
        obtain ⟨glued, ahead⟩ := Bool.and_eq_true_iff.mp both
        have here : cursor.token.kind = first := beq_iff_eq.mp (Bool.and_eq_true_iff.mp glued).1
        exact cut.advanceTwo (here ▸ within) (beq_iff_eq.mp ahead) within' more done
      · rename_i neither
        rw [if_neg neither]
        exact stays.joined trivial cut done

theorem skipWhile_some {holds : Kind → Bool} (here : holds cursor.token.kind = true)
    (follows : cursor.next? = some next) (known : next.token.kind ≠ .unknown) :
    Parser.skipWhile holds scope cursor = Parser.skipWhile holds scope next := by
  obtain ⟨token, rest, _, rfl⟩ := cursor
  obtain ⟨first, behind, _, rfl⟩ := next
  cases Cursor.rest_of_next? follows
  exact skipWhile_ofTokens here known

theorem Stays.skipWhile {holds : Kind → Bool} : Stays Anywhere (Parser.skipWhile holds) := by
  refine ⟨?_⟩
  intro scope cursor final _ _ spent done
  obtain ⟨run, split, _, _⟩ := skipWhile_run done
  exact fun token member => spent token (split ▸ List.mem_append_right run member)

theorem Loose.skipWhile {holds : Kind → Bool} : Loose seam (Parser.skipWhile holds) := by
  refine ⟨.skipWhile, ?_⟩
  intro scope cursor other final _ cut done
  induction cut using Cut.induction with
  | atSeam cursor other place _ => exact .inl (Stays.skipWhile.spent trivial place.spent done)
  | inFront cursor other next next' place cut ih =>
    obtain ⟨rfl, stopped⟩ | ⟨here, middle, follows, more⟩ := skipWhile_eq_ok done
    · exact .inr ⟨_, skipWhile_other (place.same ▸ stopped), cut⟩
    · obtain rfl := Option.some.inj (place.follows.symm.trans follows)
      rw [skipWhile_some (place.same ▸ here) place.follows' place.cut.known]
      exact ih more

theorem Stays.list {step : Parser (Item α)} (alike : Stays Anywhere step) :
    Stays Anywhere (Parser.list step) where
  spent := by
    intro scope cursor final values _ spent done
    fun_induction Parser.list step scope cursor generalizing values with
    | case1 cursor error failed => cases done
    | case2 cursor middle stepped =>
      cases done
      exact alike.spent trivial spent stepped
    | case3 cursor value middle stepped =>
      cases done
      exact alike.spent trivial spent stepped
    | case4 cursor value middle stepped moved error failed ih => cases done
    | case5 cursor value middle stepped moved others rest more ih =>
      cases done
      exact ih trivial (alike.spent trivial spent stepped) more
    | case6 cursor value middle stepped stuck => cases done

theorem Firm.list {step : Parser (Item α)} (alike : Firm seam Anywhere step) :
    Firm seam Anywhere (Parser.list step) where
  toStays := alike.toStays.list
  joined := by
    intro scope cursor other final values _ cut done
    fun_induction Parser.list step scope cursor generalizing other values with
    | case1 cursor error failed => cases done
    | case2 cursor middle stepped =>
      cases done
      obtain ⟨middle', stepped', cut⟩ := alike.joined trivial cut stepped
      exact ⟨middle', list_stop stepped', cut⟩
    | case3 cursor value middle stepped =>
      cases done
      obtain ⟨middle', stepped', cut⟩ := alike.joined trivial cut stepped
      exact ⟨middle', list_last stepped', cut⟩
    | case4 cursor value middle stepped moved error failed ih => cases done
    | case5 cursor value middle stepped moved others rest more ih =>
      cases done
      obtain ⟨middle', stepped', cut'⟩ := alike.joined trivial cut stepped
      obtain ⟨final', more', cut''⟩ := ih trivial cut' more
      exact ⟨final', list_more stepped' (cut.remaining_lt cut' moved) more', cut''⟩
    | case6 cursor value middle stepped stuck => cases done

theorem Loose.list {step : Parser (Item α)} (alike : Loose seam step) :
    Loose seam (Parser.list step) where
  toStays := alike.toStays.list
  joined := by
    intro scope cursor other final values cut done
    fun_induction Parser.list step scope cursor generalizing other values with
    | case1 cursor error failed => cases done
    | case2 cursor middle stepped =>
      cases done
      obtain spent | ⟨middle', stepped', cut⟩ := alike.joined cut stepped
      · exact .inl spent
      · exact .inr ⟨middle', list_stop stepped', cut⟩
    | case3 cursor value middle stepped =>
      cases done
      obtain spent | ⟨middle', stepped', cut⟩ := alike.joined cut stepped
      · exact .inl spent
      · exact .inr ⟨middle', list_last stepped', cut⟩
    | case4 cursor value middle stepped moved error failed ih => cases done
    | case5 cursor value middle stepped moved others rest more ih =>
      cases done
      obtain spent | ⟨middle', stepped', cut'⟩ := alike.joined cut stepped
      · exact .inl (alike.toStays.list.spent trivial spent more)
      · obtain spent | ⟨final', more', cut''⟩ := ih cut' more
        · exact .inl spent
        · exact .inr ⟨final', list_more stepped' (cut.remaining_lt cut' moved) more', cut''⟩
    | case6 cursor value middle stepped stuck => cases done

theorem Firm.chain {step : β → Parser (Option β)} (alike : ∀ value, Firm seam Anywhere (step value))
    (value : β) : Firm seam Anywhere (Parser.chain step value) where
  spent := by
    intro scope cursor final built _ spent done
    fun_induction Parser.chain step value scope cursor with
    | case1 value cursor error failed => cases done
    | case2 value cursor middle stepped =>
      cases done
      exact (alike _).spent trivial spent stepped
    | case3 value cursor grown middle stepped moved ih =>
      exact ih trivial ((alike value).spent trivial spent stepped) done
    | case4 value cursor grown middle stepped stuck => cases done
  joined := by
    intro scope cursor other final built _ cut done
    fun_induction Parser.chain step value scope cursor generalizing other with
    | case1 value cursor error failed => cases done
    | case2 value cursor middle stepped =>
      cases done
      obtain ⟨middle', stepped', cut⟩ := (alike _).joined trivial cut stepped
      exact ⟨middle', chain_none stepped', cut⟩
    | case3 value cursor grown middle stepped moved ih =>
      obtain ⟨middle', stepped', cut'⟩ := (alike value).joined trivial cut stepped
      obtain ⟨final', more', cut''⟩ := ih trivial cut' done
      exact ⟨final', (chain_some stepped' (cut.remaining_lt cut' moved)).trans more', cut''⟩
    | case4 value cursor grown middle stepped stuck => cases done

theorem Firm.pure (value : α) : Firm seam here (pure value) := by
  refine ⟨⟨?_⟩, ?_⟩
  · intro scope cursor final value _ spent done
    cases done
    exact spent
  · intro scope cursor other final value _ cut done
    cases done
    exact ⟨other, rfl, cut⟩

theorem Firm.eat {kind : Kind} (within : ¬ EndsStatement kind) :
    Firm seam Anywhere (Parser.eat kind) := by
  show Firm seam Anywhere (Parser.current >>= fun token =>
    if (token.kind == kind) = true then
      Functor.discard Parser.advance >>= fun _ => Pure.pure true
    else Pure.pure false)
  refine .current (fun token _ => ?_) ?_
  · split
    · rename_i same
      exact .step (fun _ here => here ▸ beq_iff_eq.mp same ▸ within) (.pure true)
    · exact .pure false
  · intro last broken isLast isBroken _
    have notLast : last.kind ≠ kind := fun same => within (same ▸ isLast ▸ .inl rfl)
    have notBroken : broken.kind ≠ kind := fun same => within (same ▸ isBroken ▸ .inr rfl)
    rw [beq_false_of_ne notLast, beq_false_of_ne notBroken]
    exact .inl rfl

/-- Line breaks behind a comma may go on over the seam. -/
theorem eatComma_joined (cut : seam.Cut cursor other)
    (done : Parser.eatComma scope cursor = .ok (found, final)) :
    (found = true ∧ final.Spent) ∨
      ∃ final', Parser.eatComma scope other = .ok (found, final') ∧ seam.Cut final final' := by
  obtain ⟨eaten, middle, read, rest⟩ := bind_eq_ok done
  have eats : Firm seam Anywhere (Parser.eat Punct.comma) := .eat (by decide)
  obtain ⟨middle', read', cut⟩ := eats.joined trivial cut read
  cases eaten with
  | false =>
    cases rest
    exact .inr ⟨middle', bind_ok _ read', cut⟩
  | true =>
    obtain ⟨_, stop, skipped, same⟩ := bind_eq_ok rest
    cases same
    obtain spent | ⟨final', skipped', cut⟩ := Loose.skipWhile.joined cut skipped
    · exact .inl ⟨rfl, spent⟩
    · exact .inr ⟨final', (bind_ok _ read').trans (bind_ok _ skipped'), cut⟩

section CommaSeparated

/-- An element, and whether a comma is behind it. -/
private def separated (element : Parser α) : Parser (Item α) := do
  let value ← element
  if ← Parser.eatComma then return .more value
  return .last value

private theorem separated_eq_ok {element : Parser α} {item : Item α}
    (stepped : separated element scope cursor = .ok (item, final)) :
    ∃ value middle found, element scope cursor = .ok (value, middle) ∧
      Parser.eatComma scope middle = .ok (found, final) ∧
      item = if found then .more value else .last value := by
  obtain ⟨value, middle, read, rest⟩ := bind_eq_ok stepped
  obtain ⟨found, stop, eaten, same⟩ := bind_eq_ok rest
  cases found with
  | false =>
    cases same
    exact ⟨value, middle, false, read, eaten, rfl⟩
  | true =>
    cases same
    exact ⟨value, middle, true, read, eaten, rfl⟩

private theorem separated_ok {element : Parser α} {middle : Cursor} {value : α} (found : Bool)
    (read : element scope cursor = .ok (value, middle))
    (eaten : Parser.eatComma scope middle = .ok (found, final)) :
    separated element scope cursor = .ok (if found then .more value else .last value, final) := by
  refine (bind_ok _ read).trans ((bind_ok _ eaten).trans ?_)
  cases found <;> rfl

theorem Needs.commaSeparated {element : Parser α} (alike : Needs seam Anywhere element) :
    Needs seam Anywhere (Parser.commaSeparated element) := by
  have unread {scope : Scope} {cursor final : Cursor} {values : List α} (spent : cursor.Spent) :
      Parser.list (separated element) scope cursor ≠ .ok (values, final) := by
    intro done
    obtain ⟨stepped, _⟩ | ⟨_, stepped, _⟩ | ⟨_, _, _, stepped, _⟩ := list_eq_ok done
    all_goals
      obtain ⟨_, _, _, read, _⟩ := separated_eq_ok stepped
      exact alike.unread trivial spent read
  refine .of_unread (fun _ spent => unread spent) ?_
  intro scope cursor other final values _ cut done
  change Parser.list (separated element) scope cursor = .ok (values, final) at done
  change ∃ final', Parser.list (separated element) scope other = .ok (values, final') ∧ _
  fun_induction Parser.list (separated element) scope cursor generalizing other values with
  | case1 cursor error failed => cases done
  | case2 cursor middle stepped =>
    obtain ⟨_, _, found, _, _, same⟩ := separated_eq_ok stepped
    cases found <;> cases same
  | case3 cursor value middle stepped =>
    cases done
    obtain ⟨_, _, found, read, eaten, same⟩ := separated_eq_ok stepped
    obtain ⟨middle', read', cut⟩ := alike.joined trivial cut read
    cases found with
    | true => cases same
    | false =>
      cases same
      obtain ⟨absurd, _⟩ | ⟨final', eaten', cut⟩ := eatComma_joined cut eaten
      · cases absurd
      · exact ⟨final', list_last (separated_ok false read' eaten'), cut⟩
  | case4 cursor value middle stepped moved error failed ih => cases done
  | case5 cursor value middle stepped moved others rest more ih =>
    cases done
    obtain ⟨_, _, found, read, eaten, same⟩ := separated_eq_ok stepped
    obtain ⟨middle', read', cut'⟩ := alike.joined trivial cut read
    cases found with
    | false => cases same
    | true =>
      cases same
      obtain ⟨_, spent⟩ | ⟨behind, eaten', cut'⟩ := eatComma_joined cut' eaten
      · exact absurd more (unread spent)
      · obtain ⟨final', more', cut''⟩ := ih trivial cut' more
        have stepped' := separated_ok true read' eaten'
        exact ⟨final', list_more stepped' (cut.remaining_lt cut' moved) more', cut''⟩
  | case6 cursor value middle stepped stuck => cases done

end CommaSeparated

/-- Reading alike in front of the seam is a discipline. -/
def discipline (seam : Seam) : Discipline where
  Firm := Firm seam
  Loose := Loose seam
  Closing _ := Needs seam
  weaken wider firm := ⟨⟨fun fits => firm.spent (wider _ fits)⟩, fun fits => firm.joined (wider _ fits)⟩
  weakenClosing wider needs := .of_unread (fun fits => needs.unread (wider _ fits))
    fun fits => needs.joined (wider _ fits)
  loose := Firm.loose
  firm := Needs.toFirm
  closing within firm := ⟨firm, fun fits spent => absurd spent.here (within _ fits)⟩
  refuses refuses := by
    refine .of_unread ?_ ?_
    · intro scope cursor final value _ _ done
      obtain ⟨error, failed⟩ := refuses scope cursor
      rw [failed] at done
      cases done
    · intro scope cursor other final value _ _ done
      obtain ⟨error, failed⟩ := refuses scope cursor
      rw [failed] at done
      cases done
  pure := Firm.pure
  bind := Firm.bind
  bindLoose := Loose.bind
  begins := Needs.begins
  ends := Needs.ends
  current := Firm.current
  currentClosing := Needs.current
  kindLoose := by
    refine .looks (fun scope cursor => ⟨_, kind_eq scope cursor⟩) ?_
    intro scope cursor other next next' place value done
    rw [kind_eq] at done ⊢
    rw [place.same]
    cases done
    rfl
  noDo alike :=
    ⟨⟨@fun scope => @(alike scope.noDo).spent scope⟩, @fun scope => @(alike scope.noDo).joined scope⟩
  advance inner more := .advance (fun kind fits => (inner kind fits).within) more
  advanceTwo inner inner' other more := .advanceTwo inner.within inner'.within other more
  opener _ more := .step (fun _ same => same ▸ nofun) more.toFirm
  expect inner := .expect inner.within
  closer _ := .expect nofun
  skipWhile _ := .skipWhile
  withNoDo noDo alike := ⟨⟨@fun scope => @alike.spent { scope with noDo }⟩,
    @fun scope => @alike.joined { scope with noDo }⟩
  withNoDoLoose noDo alike := ⟨⟨@fun scope => @alike.spent { scope with noDo }⟩,
    @fun scope => @alike.joined { scope with noDo }⟩
  withNoDoClosing noDo alike := .of_unread (@fun scope => @alike.unread { scope with noDo })
    @fun scope => @alike.joined { scope with noDo }
  list := Firm.list
  listLoose := Loose.list
  chain := Firm.chain
  commaSeparated := Needs.commaSeparated

end Seam

end RubySyntax.Grammar
