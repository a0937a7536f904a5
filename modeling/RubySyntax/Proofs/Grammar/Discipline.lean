import RubySyntax.Proofs.Grammar.Standalone

/-! Reading disciplines. A parser knows the kind of every token that it moves over:
it reads up to the closer of each bracket that it opens, and passes over ends of lines
only in front of a token that has to follow. What respects this is put together along
the grammar, as a relation that the combinators keep is. -/
namespace RubySyntax

open Token (Kind Punct Keyword)

def Token.Punct.closer? : Punct → Option Punct
  | openParen => some closeParen
  | openBracket => some closeBracket
  | openBrace => some closeBrace
  | _ => none

/-- Brackets come in pairs, each an opener and its closer. -/
def Token.Kind.isBracket : Kind → Bool
  | punct p => p.closer?.isSome || p.isCloser
  | _ => false

namespace Grammar

open Grammar.Parser
open Diagnostic (Message ParseError)

/-- Tokens of this kind stand within a statement and open or close no bracket. -/
structure IsInner (kind : Kind) : Prop where
  within : ¬ EndsStatement kind
  known : kind ≠ .unknown
  single : kind.isBracket = false

instance (kind : Kind) : Decidable (IsInner kind) :=
  decidable_of_iff (¬ EndsStatement kind ∧ kind ≠ .unknown ∧ kind.isBracket = false)
    ⟨fun ⟨within, known, single⟩ => ⟨within, known, single⟩,
      fun ⟨within, known, single⟩ => ⟨within, known, single⟩⟩

abbrev Anywhere : Kind → Prop := fun _ => True

/-- The parser hands nothing back. -/
def Refuses {α : Type} (parser : Parser α) : Prop :=
  ∀ scope cursor, ∃ error, parser scope cursor = .error error

namespace Refuses

variable {α β : Type}

theorem fail (message : Message) (args : List String) : Refuses (fail message args : Parser α) :=
  fun _ _ => ⟨_, rfl⟩

theorem failAt (message : Message) : Refuses (failAt message : Parser α) := fun _ _ => ⟨_, rfl⟩

theorem first {parser : Parser α} {next : α → Parser β} (refuses : Refuses parser) :
    Refuses (parser >>= next) := by
  intro scope cursor
  obtain ⟨error, failed⟩ := refuses scope cursor
  exact ⟨error, bind_error next failed⟩

end Refuses

/-- What a discipline asks of parsers, and that the parsers the grammar begins with and
the combinators meet it. -/
structure Discipline where
  /-- The parser keeps to the discipline where the current token is of such a kind. -/
  Firm : {α : Type} → (Kind → Prop) → Parser α → Prop
  /-- It keeps to the discipline, or only ends of lines are left of the input. -/
  Loose : {α : Type} → Parser α → Prop
  /-- It keeps to the discipline and cannot do without a token within the statement, the
  closer of the bracket that is open if one is. -/
  Closing : {α : Type} → Option Punct → (Kind → Prop) → Parser α → Prop
  weaken {α : Type} {here there : Kind → Prop} {parser : Parser α} :
    (∀ kind, here kind → there kind) → Firm there parser → Firm here parser
  weakenClosing {α : Type} {closer? : Option Punct} {here there : Kind → Prop} {parser : Parser α} :
    (∀ kind, here kind → there kind) → Closing closer? there parser → Closing closer? here parser
  loose {α : Type} {parser : Parser α} : Firm Anywhere parser → Loose parser
  firm {α : Type} {here : Kind → Prop} {parser : Parser α} :
    Closing none here parser → Firm here parser
  closing {α : Type} {here : Kind → Prop} {parser : Parser α} :
    (∀ kind, here kind → ¬ EndsStatement kind) → Firm here parser → Closing none here parser
  refuses {α : Type} {closer? : Option Punct} {here : Kind → Prop} {parser : Parser α} :
    Refuses parser → Closing closer? here parser
  pure {α : Type} {here : Kind → Prop} (value : α) : Firm here (pure value)
  bind {α β : Type} {here : Kind → Prop} {first : Parser α} {next : α → Parser β} :
    Firm here first → (∀ value, Firm Anywhere (next value)) → Firm here (first >>= next)
  bindLoose {α β : Type} {first : Parser α} {next : α → Parser β} :
    Loose first → (∀ value, Loose (next value)) → Loose (first >>= next)
  /-- The token that has to follow comes first. -/
  begins {α β : Type} {closer? : Option Punct} {here : Kind → Prop} {first : Parser α}
      {next : α → Parser β} :
    Closing closer? here first → (∀ value, Firm Anywhere (next value)) →
      Closing closer? here (first >>= next)
  /-- The token that has to follow comes behind something else. -/
  ends {α β : Type} {closer? : Option Punct} {here : Kind → Prop} {first : Parser α}
      {next : α → Parser β} :
    Loose first → (∀ value, Closing closer? Anywhere (next value)) →
      Closing closer? here (first >>= next)
  /-- An end of the line is looked at like the end of the input, unless what follows
  there cannot do without a token. -/
  current {β : Type} {here : Kind → Prop} {next : Token → Parser β} :
    (∀ token, here token.kind → Firm (· = token.kind) (next token)) →
      (∀ last broken : Token, last.kind = .endOfFile → broken.kind = .newLine → here .endOfFile →
        next broken = next last ∨ Closing none (· = .endOfFile) (next last)) →
      Firm here (Parser.current >>= next)
  currentClosing {β : Type} {closer? : Option Punct} {here : Kind → Prop}
      {next : Token → Parser β} :
    (∀ token, here token.kind → Closing closer? (· = token.kind) (next token)) →
      Closing closer? here (Parser.current >>= next)
  kindLoose : Loose Parser.kind
  noDo {β : Type} {here : Kind → Prop} {next : Bool → Parser β} :
    (∀ noDo, Firm here (next noDo)) → Firm here (Parser.noDo >>= next)
  advance {β : Type} {here : Kind → Prop} {next : Token → Parser β} :
    (∀ kind, here kind → IsInner kind) → (∀ token, Firm Anywhere (next token)) →
      Firm here (Parser.advance >>= next)
  /-- A token and the one behind it, each of a known kind. -/
  advanceTwo {β : Type} {first second : Kind} {other : Parser β} {next : Token → Parser β} :
    IsInner first → IsInner second → Firm Anywhere other → (∀ token, Firm Anywhere (next token)) →
      Firm Anywhere (isAtGlued first >>= fun here => nextKind >>= fun behind =>
        if (here && behind == some second) = true then
          Functor.discard Parser.advance >>= fun _ => Parser.advance >>= next
        else other)
  opener {β : Type} {p closer : Punct} {next : Parser β} :
    p.closer? = some closer → Closing (some closer) Anywhere next →
      Firm (· = .punct p) (Functor.discard Parser.advance >>= fun _ => next)
  expect {kind : Kind} : IsInner kind → Closing none Anywhere (Functor.discard (Parser.expect kind))
  closer {p : Punct} : p.isCloser = true →
    Closing (some p) Anywhere (Functor.discard (Parser.expect (Kind.punct p)))
  skipWhile {holds : Kind → Bool} : (∀ kind, holds kind = true → EndsStatement kind) →
    Loose (Parser.skipWhile holds)
  withNoDo {α : Type} {here : Kind → Prop} {parser : Parser α} (noDo : Bool) :
    Firm here parser → Firm here (Parser.withNoDo noDo parser)
  withNoDoLoose {α : Type} {parser : Parser α} (noDo : Bool) :
    Loose parser → Loose (Parser.withNoDo noDo parser)
  withNoDoClosing {α : Type} {closer? : Option Punct} {here : Kind → Prop} {parser : Parser α}
      (noDo : Bool) : Closing closer? here parser → Closing closer? here (Parser.withNoDo noDo parser)
  list {α : Type} {step : Parser (Item α)} : Firm Anywhere step → Firm Anywhere (Parser.list step)
  listLoose {α : Type} {step : Parser (Item α)} : Loose step → Loose (Parser.list step)
  chain {β : Type} {step : β → Parser (Option β)} :
    (∀ value, Firm Anywhere (step value)) → ∀ value, Firm Anywhere (Parser.chain step value)
  commaSeparated {α : Type} {element : Parser α} :
    Closing none Anywhere element → Closing none Anywhere (Parser.commaSeparated element)

namespace Discipline

variable (d : Discipline) {α β : Type} {here : Kind → Prop} {closer? : Option Punct}

theorem choice {c : Prop} [Decidable c] {yes no : Parser α} (first : d.Firm here yes)
    (second : d.Firm here no) : d.Firm here (if c then yes else no) := by
  split
  · exact first
  · exact second

theorem choiceLoose {c : Prop} [Decidable c] {yes no : Parser α} (first : d.Loose yes)
    (second : d.Loose no) : d.Loose (if c then yes else no) := by
  split
  · exact first
  · exact second

theorem anywhere {parser : Parser α} (alike : d.Firm Anywhere parser) : d.Firm here parser :=
  d.weaken (fun _ _ => trivial) alike

theorem anywhereClosing {parser : Parser α} (alike : d.Closing closer? Anywhere parser) :
    d.Closing closer? here parser := d.weakenClosing (fun _ _ => trivial) alike

theorem pureLoose (value : α) : d.Loose (Pure.pure value) := d.loose (d.pure value)

theorem fail (message : Message) (args : List String) :
    d.Firm here (Parser.fail message args : Parser α) := d.firm (d.refuses (.fail message args))

theorem failAt (message : Message) : d.Firm here (Parser.failAt message : Parser α) :=
  d.firm (d.refuses (.failAt message))

theorem map {parser : Parser α} (f : α → β) (alike : d.Firm here parser) :
    d.Firm here (f <$> parser) := by
  rw [map_eq_pure_bind]
  exact d.bind alike fun value => d.pure (f value)

theorem mapLoose {parser : Parser α} (f : α → β) (alike : d.Loose parser) :
    d.Loose (f <$> parser) := by
  rw [map_eq_pure_bind]
  exact d.bindLoose alike fun value => d.pureLoose (f value)

theorem mapClosing {parser : Parser α} (f : α → β) (alike : d.Closing closer? here parser) :
    d.Closing closer? here (f <$> parser) := by
  rw [map_eq_pure_bind]
  exact d.begins alike fun value => d.pure (f value)

/-- A token that is passed over for its kind alone. -/
theorem step {next : Parser β} (inner : ∀ kind, here kind → IsInner kind)
    (more : d.Firm Anywhere next) :
    d.Firm here (Functor.discard Parser.advance >>= fun _ => next) := by
  show d.Firm here ((fun _ => ()) <$> Parser.advance >>= fun _ => next)
  rw [map_eq_pure_bind, bind_assoc]
  exact d.advance inner fun token => more

/-- A token of this kind, passed over for its kind alone. -/
theorem stepAt {kind : Kind} {next : Parser β} (inner : IsInner kind)
    (more : d.Firm Anywhere next) :
    d.Firm (· = kind) (Functor.discard Parser.advance >>= fun _ => next) :=
  d.step (fun _ same => same ▸ inner) more

theorem advanceAt {kind : Kind} {next : Token → Parser β} (inner : IsInner kind)
    (more : ∀ token, d.Firm Anywhere (next token)) :
    d.Firm (· = kind) (Parser.advance >>= next) :=
  d.advance (fun _ same => same ▸ inner) more

section Look

theorem kind {next : Kind → Parser β} (alike : ∀ kind, here kind → d.Firm (· = kind) (next kind))
    (ended : here .endOfFile →
      next .newLine = next .endOfFile ∨ d.Closing none (· = .endOfFile) (next .endOfFile)) :
    d.Firm here (Parser.kind >>= next) := by
  show d.Firm here (Parser.current >>= fun token => next token.kind)
  refine d.current (fun token => alike token.kind) ?_
  intro last broken isLast isBroken reached
  rw [isLast, isBroken]
  exact ended reached

theorem kindClosing {next : Kind → Parser β}
    (alike : ∀ kind, here kind → d.Closing closer? (· = kind) (next kind)) :
    d.Closing closer? here (Parser.kind >>= next) := by
  show d.Closing closer? here (Parser.current >>= fun token => next token.kind)
  exact d.currentClosing fun token => alike token.kind

variable {kind : Kind} {yes no : Parser β}

/-- A question whose answer is no where a statement ends. -/
theorem asks (holds : Token → Bool) {next : Bool → Parser β}
    (inside : ∀ token, holds token = true → token.kind = kind) (within : ¬ EndsStatement kind)
    (found : d.Firm (· = kind) (next true)) (other : d.Firm here (next false)) :
    d.Firm here (Parser.current >>= fun token => next (holds token)) := by
  refine d.current (fun token fits => ?_) ?_
  · cases answer : holds token with
    | true => rwa [inside token answer]
    | false => exact d.weaken (fun _ same => same ▸ fits) other
  · intro last broken isLast isBroken _
    have notLast : holds last = false := Bool.eq_false_iff.mpr fun holds =>
      within (inside last holds ▸ isLast ▸ .inl rfl)
    have notBroken : holds broken = false := Bool.eq_false_iff.mpr fun holds =>
      within (inside broken holds ▸ isBroken ▸ .inr rfl)
    rw [notLast, notBroken]
    exact .inl rfl

theorem asksAt {next : Bool → Parser β} (within : ¬ EndsStatement kind)
    (found : d.Firm (· = kind) (next true)) (other : d.Firm here (next false)) :
    d.Firm here (Parser.isAt kind >>= next) :=
  d.asks (fun token => token.kind == kind) (fun _ same => beq_iff_eq.mp same) within found other

theorem asksGlued {next : Bool → Parser β} (within : ¬ EndsStatement kind)
    (found : d.Firm (· = kind) (next true)) (other : d.Firm here (next false)) :
    d.Firm here (Parser.isAtGlued kind >>= next) :=
  d.asks (fun token => token.kind == kind && !token.spacing.isSpacedBefore)
    (fun _ same => beq_iff_eq.mp (Bool.and_eq_true_iff.mp same).1) within found other

theorem isAt (within : ¬ EndsStatement kind) (found : d.Firm (· = kind) yes)
    (other : d.Firm here no) :
    d.Firm here (Parser.isAt kind >>= fun found => if found = true then yes else no) :=
  d.asksAt within found other

theorem isAtGlued (within : ¬ EndsStatement kind) (found : d.Firm (· = kind) yes)
    (other : d.Firm here no) :
    d.Firm here (Parser.isAtGlued kind >>= fun found => if found = true then yes else no) :=
  d.asksGlued within found other

theorem isAtClosing (found : d.Closing closer? (· = kind) yes) (other : d.Closing closer? here no) :
    d.Closing closer? here (Parser.isAt kind >>= fun found => if found = true then yes else no) := by
  show d.Closing closer? here
    (Parser.current >>= fun token => if (token.kind == kind) = true then yes else no)
  refine d.currentClosing fun token fits => ?_
  split
  · rename_i same
    rwa [beq_iff_eq.mp same]
  · exact d.weakenClosing (fun _ same => same ▸ fits) other

/-- The answer alone, where it is used further on. -/
theorem isAtAlone (within : ¬ EndsStatement kind) : d.Firm here (Parser.isAt kind) := by
  rw [← bind_pure (Parser.isAt kind)]
  exact d.asksAt within (d.pure true) (d.pure false)

theorem isAtGluedAlone (within : ¬ EndsStatement kind) : d.Firm here (Parser.isAtGlued kind) := by
  rw [← bind_pure (Parser.isAtGlued kind)]
  exact d.asksGlued within (d.pure true) (d.pure false)

end Look

section Eat

variable {kind : Kind} {p closer : Punct} {yes no : Parser β}

private theorem eat_eq : (Parser.eat kind >>= fun found => if found = true then yes else no) =
    Parser.isAt kind >>= fun found =>
      if found = true then Functor.discard Parser.advance >>= fun _ => yes else no := by
  unfold Parser.eat
  rw [bind_assoc]
  refine congrArg _ (funext fun found => ?_)
  cases found <;> simp

private theorem eatGlued_eq :
    (Parser.eatGlued kind >>= fun found => if found = true then yes else no) =
      Parser.isAtGlued kind >>= fun found =>
        if found = true then Functor.discard Parser.advance >>= fun _ => yes else no := by
  unfold Parser.eatGlued
  rw [bind_assoc]
  refine congrArg _ (funext fun found => ?_)
  cases found <;> simp

theorem eat (inner : IsInner kind) (found : d.Firm Anywhere yes) (other : d.Firm here no) :
    d.Firm here (Parser.eat kind >>= fun found => if found = true then yes else no) := by
  rw [eat_eq]
  exact d.isAt inner.within (d.stepAt inner found) other

theorem eatGlued (inner : IsInner kind) (found : d.Firm Anywhere yes) (other : d.Firm here no) :
    d.Firm here (Parser.eatGlued kind >>= fun found => if found = true then yes else no) := by
  rw [eatGlued_eq]
  exact d.isAtGlued inner.within (d.stepAt inner found) other

theorem eatClosing (inner : IsInner kind) (found : d.Firm Anywhere yes)
    (other : d.Closing none here no) :
    d.Closing none here (Parser.eat kind >>= fun found => if found = true then yes else no) := by
  rw [eat_eq]
  refine d.isAtClosing (d.closing (fun _ same => same ▸ inner.within) ?_) other
  exact d.stepAt inner found

/-- An opener is eaten in front of what reads up to its closer. -/
theorem eatOpener (opens : p.closer? = some closer) (found : d.Closing (some closer) Anywhere yes)
    (other : d.Firm here no) :
    d.Firm here (Parser.eat p >>= fun found => if found = true then yes else no) := by
  have within : ¬ EndsStatement (Kind.punct p) := by cases p <;> decide
  rw [eat_eq]
  exact d.isAt within (d.opener opens found) other

theorem eatGluedOpener (opens : p.closer? = some closer)
    (found : d.Closing (some closer) Anywhere yes) (other : d.Firm here no) :
    d.Firm here (Parser.eatGlued p >>= fun found => if found = true then yes else no) := by
  have within : ¬ EndsStatement (Kind.punct p) := by cases p <;> decide
  rw [eatGlued_eq]
  exact d.isAtGlued within (d.opener opens found) other

theorem eatAlone (inner : IsInner kind) : d.Firm here (Parser.eat kind) := by
  have same : Parser.eat kind =
      Parser.eat kind >>= fun found => if found = true then Pure.pure true else Pure.pure false := by
    conv => lhs; rw [← bind_pure (Parser.eat kind)]
    refine congrArg _ (funext fun found => ?_)
    cases found <;> rfl
  rw [same]
  exact d.eat inner (d.pure true) (d.pure false)

/-- A token of this kind may stand here and says nothing. -/
theorem eatThen (inner : IsInner kind) {next : Parser β} (more : d.Loose next) :
    d.Loose (Functor.discard (Parser.eat kind) >>= fun _ => next) :=
  d.bindLoose (d.mapLoose _ (d.loose (d.eatAlone inner))) fun _ => more

theorem skipNewLines : d.Loose Parser.skipNewLines :=
  d.skipWhile fun _ same => .inr (beq_iff_eq.mp same ▸ rfl)

theorem skipSeparators : d.Loose Parser.skipSeparators := d.skipWhile fun _ separator => .inr separator

/-- Something has to follow behind line breaks. -/
theorem acrossLines {next : Parser β} (more : d.Closing closer? Anywhere next) :
    d.Closing closer? here (Parser.skipNewLines >>= fun _ => next) := d.ends d.skipNewLines fun _ => more

/-- A comma is eaten in front of what has to follow it. -/
theorem eatComma (found : d.Closing none Anywhere yes) (other : d.Firm here no) :
    d.Firm here (Parser.eatComma >>= fun found => if found = true then yes else no) := by
  have same : (Parser.eatComma >>= fun found => if found = true then yes else no) =
      Parser.eat Punct.comma >>= fun found =>
        if found = true then Parser.skipNewLines >>= fun _ => yes else no := by
    unfold Parser.eatComma
    rw [bind_assoc]
    refine congrArg _ (funext fun found => ?_)
    cases found <;> simp
  rw [same]
  exact d.eat (by decide) (d.firm (d.acrossLines found)) other

theorem eatCommaLoose : d.Loose Parser.eatComma := by
  refine d.bindLoose (d.loose (d.eatAlone (by decide))) fun found => ?_
  exact d.choiceLoose (d.bindLoose d.skipNewLines fun _ => d.pureLoose _) (d.pureLoose _)

theorem commaFollowed {element : Parser α} (alike : d.Closing none Anywhere element) :
    d.Firm Anywhere (Parser.commaFollowed element) :=
  d.list (d.eatComma (d.begins alike fun _ => d.pure _) (d.pure _))

end Eat

end Discipline

end Grammar

end RubySyntax
