import RubySyntax.Grammar.Call
import RubySyntax.Grammar.Literal

/-! Relations that the combinators keep. The grammar is built from a few parsers
by a few combinators and refers to itself only through its levels of nesting, so
what these keep holds of the grammar whenever it holds of the levels. -/
namespace RubySyntax

/-- The kinds of the tokens at which a line ends. -/
inductive Token.Kind.EndsLine : Kind → Prop where
  | newLine : EndsLine .newLine
  | endOfFile : EndsLine .endOfFile

/-- Where a token may stand: anywhere, behind white space of any kind if it stands behind
white space at all, unless it ends a line. What white space behind it tells matters only
of a bracket that may open an index. -/
structure Token.Place (token : Token) where
  span : Text.Span
  spacing : Token.Spacing
  spaced : ¬ token.kind.EndsLine → spacing.isSpacedBefore = token.spacing.isSpacedBefore
  opens : token.kind = .punct .openBracket →
    spacing.isPrefixPosition = token.spacing.isPrefixPosition

namespace Token

/-- The same token at another place. -/
def placed (token : Token) (place : token.Place) : Token :=
  { token with span := place.span, spacing := place.spacing }

/-- The place of the token itself. -/
def here (token : Token) : token.Place := ⟨token.span, token.spacing, fun _ => rfl, fun _ => rfl⟩

variable {token : Token}

theorem Spacing.isPrefixPosition_congr {spacing other : Spacing}
    (before : other.isSpacedBefore = spacing.isSpacedBefore)
    (after : other.spaceAfter = spacing.spaceAfter) :
    other.isPrefixPosition = spacing.isPrefixPosition := by
  rw [isPrefixPosition, before, after, isPrefixPosition]

theorem Kind.inLine_of_punct {kind : Kind} {p : Punct} (sign : kind = .punct p) :
    ¬ kind.EndsLine := by
  rw [sign]
  nofun

theorem kind_placed (place : token.Place) : (token.placed place).kind = token.kind := rfl

theorem isSpacedBefore_placed (place : token.Place) (inLine : ¬ token.kind.EndsLine) :
    (token.placed place).spacing.isSpacedBefore = token.spacing.isSpacedBefore :=
  place.spaced inLine

theorem isPrefixPosition_placed (place : token.Place) (bracket : token.kind = .punct .openBracket) :
    (token.placed place).spacing.isPrefixPosition = token.spacing.isPrefixPosition :=
  place.opens bracket

/-- Whether a token that does not end a line touches the one before it. -/
theorem touches_placed {kind : Token.Kind} (place : token.Place) (inLine : ¬ kind.EndsLine) :
    ((token.placed place).kind == kind && !(token.placed place).spacing.isSpacedBefore) =
      (token.kind == kind && !token.spacing.isSpacedBefore) := by
  by_cases same : token.kind = kind
  · rw [isSpacedBefore_placed place (same ▸ inLine), kind_placed]
  · rw [kind_placed, beq_false_of_ne same, Bool.false_and, Bool.false_and]

end Token

/-- A fault that the grammar finds in the tokens: none of the lexical grammar, and not
the limit of nesting. -/
def Diagnostic.Message.isPhrase (message : Message) : Bool :=
  !message.isLexical && message != .nestingTooDeep

/-- A fault of how the tokens follow each other, whatever number one of them stands for. -/
def Diagnostic.Message.isOrder (message : Message) : Bool :=
  message.isPhrase && message != .integerTooLarge && message != .invalidNumber

theorem Diagnostic.Message.isPhrase_of_isOrder {message : Message} (order : message.isOrder = true) :
    message.isPhrase = true := by
  simp only [isOrder, Bool.and_eq_true] at order
  exact order.1.1

theorem Diagnostic.Message.isLexical_of_isPhrase {message : Message}
    (phrase : message.isPhrase = true) : message.isLexical = false := by
  simp only [isPhrase, Bool.and_eq_true, Bool.not_eq_true'] at phrase
  exact phrase.1

end RubySyntax

namespace RubySyntax.Grammar

open Token (Kind Punct Keyword)
open Diagnostic (Message)
open Grammar.Parser

/-- A number where one is the current token, and what `other` reads elsewhere. -/
def Parser.numberOr (other : Parser Tree.Node) : Parser Tree.Node := do
  match ← kind with
  | .literal .integer => integer
  | .literal .float => float
  | _ => other

theorem Parser.numberOr_eq (other : Parser Tree.Node) : numberOr other =
    current >>= fun token =>
      match token.kind with
      | .literal .integer => integer
      | .literal .float => float
      | _ => other := rfl

/-- A relation between parsers that holds of the parsers that the grammar begins
with, and of what the combinators build from related ones. -/
structure Congruence (Alike : {α : Type} → Parser α → Parser α → Prop) : Prop where
  pure {α : Type} (value : α) : Alike (pure value) (pure value)
  bind {α β : Type} {first first' : Parser α} {next next' : α → Parser β} :
    Alike first first' → (∀ value, Alike (next value) (next' value)) →
      Alike (first >>= next) (first' >>= next')
  /-- What follows may depend on all of the current token but its place. -/
  current {β : Type} {next next' : Token → Parser β} :
    (∀ token (place : token.Place), Alike (next token) (next' (token.placed place))) →
      Alike (current >>= next) (current >>= next')
  advance {β : Type} {next next' : Token → Parser β} :
    (∀ token (place : token.Place), Alike (next token) (next' (token.placed place))) →
      Alike (advance >>= next) (advance >>= next')
  nextKind : Alike nextKind nextKind
  /-- Whether a `do` opens a block is asked only where one is the current token. -/
  atDo {β : Type} {asked asked' : Bool → Parser β} {other other' : Kind → Parser β} :
    (∀ noDo, Alike (asked noDo) (asked' noDo)) → (∀ kind, Alike (other kind) (other' kind)) →
      Alike (kind >>= fun kind => if kind = .keyword .doKw then noDo >>= asked else other kind)
        (kind >>= fun kind => if kind = .keyword .doKw then noDo >>= asked' else other' kind)
  /-- Whether the arguments of a command begin is asked only behind a name. -/
  command {β : Type} {named named' : Token → Bool → Parser β} {other other' : Kind → Parser β}
    (names : Kind → Bool) (methods : ∀ kind, names kind = true → kind.isMethodName = true) :
    (∀ name (place : name.Place) starts,
      Alike (named name starts) (named' (name.placed place) starts)) →
    (∀ kind, Alike (other kind) (other' kind)) →
      Alike
        (kind >>= fun kind =>
          if names kind then Parser.advance >>= fun name => Parser.current >>= fun behind =>
            named name (startsCommandArgument behind)
          else other kind)
        (kind >>= fun kind =>
          if names kind then Parser.advance >>= fun name => Parser.current >>= fun behind =>
            named' name (startsCommandArgument behind)
          else other' kind)
  /-- The text of a token is read as a number only where the token is one. -/
  numberOr {other other' : Parser Tree.Node} :
    Alike other other' → Alike (numberOr other) (numberOr other')
  /-- Elsewhere the grammar fails with a fault of the order of the tokens, never with one of
  the lexical grammar. -/
  fail {α : Type} (message : Message) (args : List String)
    (order : message.isOrder = true) :
    Alike (fail message args : Parser α) (fail message args)
  withNoDo {α : Type} {parser parser' : Parser α} (noDo : Bool) :
    Alike parser parser' → Alike (withNoDo noDo parser) (withNoDo noDo parser')
  list {α : Type} {step step' : Parser (Item α)} :
    Alike step step' → Alike (list step) (list step')
  chain {β : Type} {step step' : β → Parser (Option β)} :
    (∀ value, Alike (step value) (step' value)) →
      ∀ value, Alike (chain step value) (chain step' value)

/-- A relation between parsers that read the same tokens, in the same surroundings or
in ones that make no difference, and fail with what `raises` admits. -/
structure Uniform (raises : Message → Bool) (Alike : {α : Type} → Parser α → Parser α → Prop) :
    Prop where
  pure {α : Type} (value : α) : Alike (pure value) (pure value)
  bind {α β : Type} {first first' : Parser α} {next next' : α → Parser β} :
    Alike first first' → (∀ value, Alike (next value) (next' value)) →
      Alike (first >>= next) (first' >>= next')
  current : Alike current current
  advance : Alike advance advance
  nextKind : Alike nextKind nextKind
  noDo : Alike noDo noDo
  fail {α : Type} (message : Message) (args : List String) (raised : raises message = true) :
    Alike (fail message args : Parser α) (fail message args)
  withNoDo {α : Type} {parser parser' : Parser α} (noDo : Bool) :
    Alike parser parser' → Alike (withNoDo noDo parser) (withNoDo noDo parser')
  list {α : Type} {step step' : Parser (Item α)} :
    Alike step step' → Alike (list step) (list step')
  chain {β : Type} {step step' : β → Parser (Option β)} :
    (∀ value, Alike (step value) (step' value)) →
      ∀ value, Alike (chain step value) (chain step' value)

namespace Congruence

variable {Alike : {α : Type} → Parser α → Parser α → Prop} {α β : Type}

theorem choice {c : Prop} [Decidable c] {yes yes' no no' : Parser α} (first : Alike yes yes')
    (second : Alike no no') : Alike (if c then yes else no) (if c then yes' else no') := by
  split
  · exact first
  · exact second

/-- Where every fault of the grammar is admitted, numbers are as good as other tokens. -/
theorem numberOr_of_fail
    (current : ∀ {β : Type} {next next' : Token → Parser β},
      (∀ token (place : token.Place), Alike (next token) (next' (token.placed place))) →
        Alike (Parser.current >>= next) (Parser.current >>= next'))
    (leaf : ∀ node : Tree.Node, Alike (Parser.advance >>= fun _ => Pure.pure node)
      (Parser.advance >>= fun _ => Pure.pure node))
    (fail : ∀ {α : Type} (message : Message) (args : List String), message.isPhrase = true →
      Alike (Parser.fail message args : Parser α) (Parser.fail message args))
    {other other' : Parser Tree.Node} (alike : Alike other other') :
    Alike (Parser.numberOr other) (Parser.numberOr other') := by
  have value (node : Tree.Node) : Alike (Parser.leaf node) (Parser.leaf node) := by
    have same : Parser.leaf node = Parser.advance >>= fun _ => Pure.pure node := by
      show (fun _ => ()) <$> Parser.advance >>= _ = _
      rw [map_eq_pure_bind, bind_assoc]
      rfl
    rw [same]
    exact leaf node
  rw [numberOr_eq, numberOr_eq]
  refine current fun token place => ?_
  rw [Token.kind_placed]
  split
  · refine current fun token _ => ?_
    dsimp only [Token.placed]
    split
    · exact value _
    · exact fail _ _ rfl
    · exact fail _ _ rfl
  · refine current fun token _ => ?_
    dsimp only [Token.placed]
    split
    · exact value _
    · exact fail _ _ rfl
  · exact alike

theorem of_order {raises : Message → Bool} (laws : Uniform raises Alike)
    (order : ∀ message : Message, message.isOrder = true → raises message = true)
    (numberOr : ∀ {other other' : Parser Tree.Node}, Alike other other' →
      Alike (Parser.numberOr other) (Parser.numberOr other')) : Congruence Alike where
  pure := laws.pure
  bind := laws.bind
  current alike := laws.bind laws.current fun token => alike token token.here
  advance alike := laws.bind laws.advance fun token => alike token token.here
  nextKind := laws.nextKind
  atDo asked other := by
    apply laws.bind (laws.bind laws.current fun token => laws.pure token.kind)
    exact fun kind => choice (laws.bind laws.noDo asked) (other kind)
  command names _ named other := by
    apply laws.bind (laws.bind laws.current fun token => laws.pure token.kind)
    intro kind
    apply choice _ (other kind)
    apply laws.bind laws.advance
    exact fun name => laws.bind laws.current fun behind => named name name.here _
  numberOr := numberOr
  fail message args raised := laws.fail message args (order message raised)
  withNoDo := laws.withNoDo
  list := laws.list
  chain := laws.chain

theorem of_uniform (laws : Uniform Message.isPhrase Alike) : Congruence Alike :=
  of_order laws (fun _ => Message.isPhrase_of_isOrder) <| numberOr_of_fail
    (fun alike => laws.bind laws.current fun token => alike token token.here)
    (fun node => laws.bind laws.advance fun _ => laws.pure node) laws.fail

variable (laws : Congruence Alike)

include laws

theorem map {parser parser' : Parser α} (f : α → β) (alike : Alike parser parser') :
    Alike (f <$> parser) (f <$> parser') := by
  rw [map_eq_pure_bind, map_eq_pure_bind]
  exact laws.bind alike fun value => laws.pure (f value)

/-- Only what a parser passes over matters, not what it reads. -/
theorem discard {parser parser' : Parser α} (alike : Alike parser parser') :
    Alike (Functor.discard parser) (Functor.discard parser') := laws.map _ alike

/-- One parser behind another that reads nothing of interest. -/
theorem seq {parser parser' : Parser α} {next next' : Parser β} (first : Alike parser parser')
    (second : Alike next next') :
    Alike (Functor.discard parser >>= fun _ => next) (Functor.discard parser' >>= fun _ => next') :=
  laws.bind (laws.discard first) fun _ => second

theorem skip : Alike (Functor.discard Parser.advance) (Functor.discard Parser.advance) := by
  show Alike ((fun _ => ()) <$> Parser.advance) ((fun _ => ()) <$> Parser.advance)
  rw [map_eq_pure_bind]
  exact laws.advance fun _ _ => laws.pure _

theorem step {next next' : Parser β} (second : Alike next next') :
    Alike (Functor.discard Parser.advance >>= fun _ => next)
      (Functor.discard Parser.advance >>= fun _ => next') :=
  laws.bind laws.skip fun _ => second

theorem behind {parser parser' : Parser Unit} {next next' : Parser β} (first : Alike parser parser')
    (second : Alike next next') : Alike (parser >>= fun _ => next) (parser' >>= fun _ => next') :=
  laws.bind first fun _ => second

/-- A step taken where a condition holds, and what follows in any case. -/
theorem whenThen {c : Prop} [Decidable c] {first first' : Parser Unit} {next next' : Parser β}
    (step : Alike first first') (alike : Alike next next') :
    Alike (if c then first >>= fun _ => next else next)
      (if c then first' >>= fun _ => next' else next') :=
  choice (laws.behind step alike) alike

/-- A step taken where a condition does not hold, and what follows in any case. -/
theorem unlessThen {c : Prop} [Decidable c] {first first' : Parser Unit} {next next' : Parser β}
    (step : Alike first first') (alike : Alike next next') :
    Alike (if c then next else first >>= fun _ => next)
      (if c then next' else first' >>= fun _ => next') :=
  choice alike (laws.behind step alike)

theorem kind : Alike kind kind := laws.current fun _ _ => laws.pure _

theorem isAt (kind : Kind) : Alike (isAt kind) (isAt kind) :=
  laws.current fun _ _ => laws.pure _

theorem isAtGlued (kind : Kind) (inLine : ¬ kind.EndsLine) :
    Alike (isAtGlued kind) (isAtGlued kind) := by
  refine laws.current fun token place => ?_
  rw [Token.touches_placed place inLine]
  exact laws.pure _

theorem failAt (message : Message) (order : message.isOrder = true) :
    Alike (failAt message : Parser α) (failAt message) :=
  laws.current fun _ _ => laws.fail message _ order

theorem unexpected : Alike (unexpected : Parser α) unexpected := laws.failAt _ rfl

theorem eat (kind : Kind) : Alike (eat kind) (eat kind) := by
  refine laws.bind (laws.isAt kind) fun found => choice ?_ (laws.pure false)
  exact laws.step (laws.pure true)

theorem eatGlued (kind : Kind) (inLine : ¬ kind.EndsLine) :
    Alike (eatGlued kind) (eatGlued kind) := by
  refine laws.bind (laws.isAtGlued kind inLine) fun found => choice ?_ (laws.pure false)
  exact laws.step (laws.pure true)

theorem expect (kind : Kind) : Alike (Functor.discard (Parser.expect kind))
    (Functor.discard (Parser.expect kind)) := by
  show Alike ((fun _ => ()) <$> Parser.expect kind) ((fun _ => ()) <$> Parser.expect kind)
  unfold Parser.expect
  rw [map_eq_pure_bind, bind_assoc]
  refine laws.bind (laws.isAt kind) fun found => ?_
  cases found with
  | true => exact laws.advance fun _ _ => laws.pure _
  | false =>
    refine laws.bind (laws.bind (laws.isAt .endOfFile) fun ended => ?_) fun _ => laws.pure _
    refine laws.whenThen (laws.fail _ _ rfl) ?_
    exact laws.current fun _ _ => laws.fail _ _ rfl

theorem skipWhile (holds : Kind → Bool) : Alike (skipWhile holds) (skipWhile holds) := by
  refine laws.chain (fun _ => ?_) ()
  refine laws.bind laws.kind fun kind => choice ?_ (laws.pure none)
  exact laws.step (laws.pure _)

theorem skipNewLines : Alike skipNewLines skipNewLines := laws.skipWhile _

theorem skipSeparators : Alike skipSeparators skipSeparators := laws.skipWhile _

theorem eatComma : Alike eatComma eatComma := by
  refine laws.bind (laws.eat _) fun found => choice ?_ (laws.pure false)
  exact laws.behind laws.skipNewLines (laws.pure true)

theorem commaSeparated {element element' : Parser α} (alike : Alike element element') :
    Alike (commaSeparated element) (commaSeparated element') := by
  refine laws.list (laws.bind alike fun value => laws.bind laws.eatComma fun more => ?_)
  exact choice (laws.pure _) (laws.pure _)

theorem commaFollowed {element element' : Parser α} (alike : Alike element element') :
    Alike (commaFollowed element) (commaFollowed element') := by
  refine laws.list (laws.bind laws.eatComma fun more => ?_)
  exact choice (laws.bind alike fun _ => laws.pure _) (laws.pure _)

end Congruence

/-- A second relation between parsers that read a token before anything nests in them:
what stands behind the token need only keep the first one. -/
structure Opening (Alike Opens : {α : Type} → Parser α → Parser α → Prop) : Prop where
  laws : Congruence Alike
  bind {α β : Type} {first first' : Parser α} {next next' : α → Parser β} :
    Opens first first' → (∀ value, Alike (next value) (next' value)) →
      Opens (first >>= next) (first' >>= next')
  current {β : Type} {next next' : Token → Parser β} :
    (∀ token (place : token.Place), Opens (next token) (next' (token.placed place))) →
      Opens (current >>= next) (current >>= next')
  advance {β : Type} {next next' : Token → Parser β} :
    (∀ token (place : token.Place), Alike (next token) (next' (token.placed place))) →
      Opens (advance >>= next) (advance >>= next')
  command {β : Type} {named named' : Token → Bool → Parser β} {other other' : Kind → Parser β}
    (names : Kind → Bool) (methods : ∀ kind, names kind = true → kind.isMethodName = true) :
    (∀ name (place : name.Place) starts,
      Alike (named name starts) (named' (name.placed place) starts)) →
    (∀ kind, Opens (other kind) (other' kind)) →
      Opens
        (kind >>= fun kind =>
          if names kind then Parser.advance >>= fun name => Parser.current >>= fun behind =>
            named name (startsCommandArgument behind)
          else other kind)
        (kind >>= fun kind =>
          if names kind then Parser.advance >>= fun name => Parser.current >>= fun behind =>
            named' name (startsCommandArgument behind)
          else other' kind)
  numberOr {other other' : Parser Tree.Node} :
    Opens other other' → Opens (numberOr other) (numberOr other')
  fail {α : Type} (message : Message) (args : List String)
    (order : message.isOrder = true) :
    Opens (fail message args : Parser α) (fail message args)

/-- What holds of all parsers holds of those that read a token first. -/
theorem Congruence.opening {Alike : {α : Type} → Parser α → Parser α → Prop}
    (laws : Congruence Alike) : Opening Alike Alike where
  laws := laws
  bind := laws.bind
  current := laws.current
  advance := laws.advance
  command := laws.command
  numberOr := laws.numberOr
  fail := laws.fail

namespace Opening

variable {Alike Opens : {α : Type} → Parser α → Parser α → Prop} {α β : Type}
  (opening : Opening Alike Opens)

include opening

theorem step {next next' : Parser β} (second : Alike next next') :
    Opens (Functor.discard Parser.advance >>= fun _ => next)
      (Functor.discard Parser.advance >>= fun _ => next') := by
  show Opens ((fun _ => ()) <$> Parser.advance >>= fun _ => next)
    ((fun _ => ()) <$> Parser.advance >>= fun _ => next')
  rw [map_eq_pure_bind, bind_assoc, bind_assoc]
  exact opening.advance fun _ _ => second

theorem kind {next next' : Kind → Parser β} (alike : ∀ kind, Opens (next kind) (next' kind)) :
    Opens (Parser.kind >>= next) (Parser.kind >>= next') := by
  show Opens (Parser.current >>= fun token => next token.kind)
    (Parser.current >>= fun token => next' token.kind)
  exact opening.current fun token _ => alike token.kind

theorem isAt (kind : Kind) {next next' : Bool → Parser β}
    (alike : ∀ found, Opens (next found) (next' found)) :
    Opens (Parser.isAt kind >>= next) (Parser.isAt kind >>= next') := by
  show Opens (Parser.current >>= fun token => next (token.kind == kind))
    (Parser.current >>= fun token => next' (token.kind == kind))
  exact opening.current fun token _ => alike (token.kind == kind)

theorem eat (kind : Kind) {next next' : Bool → Parser β} (eaten : Alike (next true) (next' true))
    (other : Opens (next false) (next' false)) :
    Opens (Parser.eat kind >>= next) (Parser.eat kind >>= next') := by
  unfold Parser.eat
  rw [bind_assoc, bind_assoc]
  refine opening.isAt kind fun found => ?_
  cases found with
  | false => exact other
  | true =>
    show Opens ((Functor.discard Parser.advance >>= fun _ => Pure.pure true) >>= next)
      ((Functor.discard Parser.advance >>= fun _ => Pure.pure true) >>= next')
    rw [bind_assoc, bind_assoc]
    exact opening.step eaten

theorem failAt (message : Message) (order : message.isOrder = true) :
    Opens (failAt message : Parser α) (failAt message) :=
  opening.current fun _ _ => opening.fail message _ order

end Opening

end RubySyntax.Grammar
