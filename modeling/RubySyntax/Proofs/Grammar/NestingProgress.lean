import RubySyntax.Proofs.Grammar.Brackets
import RubySyntax.Proofs.Grammar.Diagnostics
import RubySyntax.Proofs.Grammar.NestingLimit

/-! Progress from one level of nesting to the next. Each level reads a token before the
next one is entered, so there are never more levels open than tokens consumed, and a limit
of as many levels as there are tokens is never met. -/
namespace RubySyntax.Grammar

open Token (Kind)
open Diagnostic (Message ParseError Report)
open Grammar.Parser

/-- A reading ends with an end of the tokens `ahead` left, or with an error of a kind. -/
def Settles (raises : ParseError → Prop) (ahead : List Token) {α : Type} :
    Except ParseError (α × Cursor) → Prop
  | .ok (_, final) => final.tokens <:+ ahead
  | .error error => raises error

theorem Settles.earlier {raises : ParseError → Prop} {behind ahead : List Token}
    {result : Except ParseError (α × Cursor)} (settles : Settles raises behind result)
    (moved : behind <:+ ahead) : Settles raises ahead result := by
  cases result with
  | ok read => exact List.IsSuffix.trans settles moved
  | error error => exact settles

/-- The errors of a kind include every fault of the tokens, but not necessarily the limit
of nesting. -/
structure RaisesFaults (raises : ParseError → Prop) : Prop where
  lexical (report : Report) : raises (.lexical report)
  phrase (span : Text.Span) (message : Message) (args : List String)
    (phrase : message.isPhrase = true) : raises (.grammatical (.raiseAt span message args))

theorem Cursor.remaining_le {cursor final : Cursor} (moved : final.tokens <:+ cursor.tokens) :
    final.remaining ≤ cursor.remaining := by
  rw [final.remaining_eq, cursor.remaining_eq]
  exact Nat.le_of_succ_le_succ moved.length_le

theorem Cursor.Terminated.suffix {cursor final : Cursor} (terminated : cursor.Terminated)
    (moved : final.tokens <:+ cursor.tokens) : final.Terminated := by
  obtain ⟨run, split⟩ := moved
  exact terminated.behind split.symm

/-- Two parsers do the same where fewer than `bound` tokens are behind the current one. -/
def Agree (raises : ParseError → Prop) (bound : Nat) {α : Type} (parser parser' : Parser α) : Prop :=
  ∀ scope cursor, cursor.Terminated → cursor.remaining < bound →
    parser scope cursor = parser' scope cursor ∧ Settles raises cursor.tokens (parser scope cursor)

namespace Agree

variable {α β : Type} {raises : ParseError → Prop} {bound : Nat}

theorem looks {parser : Parser α} (read : Scope → Cursor → α)
    (same : ∀ scope cursor, parser scope cursor = .ok (read scope cursor, cursor)) :
    Agree raises bound parser parser := by
  intro scope cursor _ _
  rw [same]
  exact ⟨rfl, List.suffix_rfl⟩

theorem fail (faults : RaisesFaults raises) (message : Message) (args : List String)
    (phrase : message.isPhrase = true) :
    Agree raises bound (fail message args : Parser α) (fail message args) :=
  fun _ cursor _ _ => ⟨rfl, faults.phrase cursor.token.span message args phrase⟩

/-- What a step leaves is settled in any further step, and the two runs go on there. -/
theorem go_on {parser parser' : Parser α} (alike : Agree raises bound parser parser')
    {scope : Scope} {cursor middle : Cursor} (terminated : cursor.Terminated)
    (within : cursor.remaining < bound) (done : parser scope cursor = .ok (value, middle)) :
    parser' scope cursor = .ok (value, middle) ∧ middle.tokens <:+ cursor.tokens ∧
      middle.Terminated ∧ middle.remaining < bound := by
  obtain ⟨same, settles⟩ := alike scope cursor terminated within
  rw [done] at same settles
  exact ⟨same.symm, settles, terminated.suffix settles,
    Nat.lt_of_le_of_lt (Cursor.remaining_le settles) within⟩

theorem refused {parser parser' : Parser α} (alike : Agree raises bound parser parser')
    {scope : Scope} {cursor : Cursor} (terminated : cursor.Terminated)
    (within : cursor.remaining < bound) (failed : parser scope cursor = .error error) :
    parser' scope cursor = .error error ∧ raises error := by
  obtain ⟨same, settles⟩ := alike scope cursor terminated within
  rw [failed] at same settles
  exact ⟨same.symm, settles⟩

theorem bind {first first' : Parser α} {next next' : α → Parser β}
    (start : Agree raises bound first first')
    (more : ∀ value, Agree raises bound (next value) (next' value)) :
    Agree raises bound (first >>= next) (first' >>= next') := by
  intro scope cursor terminated within
  cases done : first scope cursor with
  | error error =>
    obtain ⟨failed, raised⟩ := start.refused terminated within done
    rw [bind_error next done, bind_error next' failed]
    exact ⟨rfl, raised⟩
  | ok result =>
    obtain ⟨value, middle⟩ := result
    obtain ⟨done', moved, terminated, within⟩ := start.go_on terminated within done
    rw [bind_ok next done, bind_ok next' done']
    obtain ⟨same, settles⟩ := more value scope middle terminated within
    exact ⟨same, settles.earlier moved⟩

theorem advance (faults : RaisesFaults raises) : Agree raises bound advance advance := by
  intro scope cursor _ _
  refine ⟨rfl, ?_⟩
  cases follows : cursor.next? with
  | none =>
    rw [advance_none follows]
    exact List.suffix_rfl
  | some next =>
    rw [advance_some follows]
    split
    · exact faults.lexical _
    · show next.tokens <:+ cursor.tokens
      rw [Cursor.tokens, Cursor.tokens, Cursor.rest_of_next? follows]
      exact List.suffix_cons _ _

/-- A repetition that does not move on fails at the token in hand. -/
theorem stuck (faults : RaisesFaults raises) (scope : Scope) (middle : Cursor) (ahead : List Token) :
    Settles raises ahead ((unexpected : Parser α) scope middle) := faults.phrase _ _ _ rfl

theorem list (faults : RaisesFaults raises) {step step' : Parser (Item α)}
    (alike : Agree raises bound step step') : Agree raises bound (list step) (list step') := by
  intro scope cursor terminated within
  fun_induction Parser.list step scope cursor with
  | case1 cursor error failed =>
    obtain ⟨failed', raised⟩ := alike.refused terminated within failed
    exact ⟨(list_error failed').symm, raised⟩
  | case2 cursor middle done =>
    obtain ⟨done', moved, _⟩ := alike.go_on terminated within done
    exact ⟨(list_stop done').symm, moved⟩
  | case3 cursor value middle done =>
    obtain ⟨done', moved, _⟩ := alike.go_on terminated within done
    exact ⟨(list_last done').symm, moved⟩
  | case4 cursor value middle done further error failed ih =>
    obtain ⟨done', _, terminated, within⟩ := alike.go_on terminated within done
    obtain ⟨same, raised⟩ := ih terminated within
    rw [failed] at same raised
    exact ⟨(list_more_error done' further same.symm).symm, raised⟩
  | case5 cursor value middle done further values final rest ih =>
    obtain ⟨done', moved, terminated, within⟩ := alike.go_on terminated within done
    obtain ⟨same, settles⟩ := ih terminated within
    rw [rest] at same settles
    exact ⟨(list_more done' further same.symm).symm, List.IsSuffix.trans settles moved⟩
  | case6 cursor value middle done still =>
    obtain ⟨done', _⟩ := alike.go_on terminated within done
    exact ⟨(list_stuck done' still).symm, stuck faults ..⟩

theorem chain (faults : RaisesFaults raises) {step step' : β → Parser (Option β)}
    (alike : ∀ value, Agree raises bound (step value) (step' value)) (value : β) :
    Agree raises bound (chain step value) (chain step' value) := by
  intro scope cursor terminated within
  fun_induction Parser.chain step value scope cursor with
  | case1 value cursor error failed =>
    obtain ⟨failed', raised⟩ := (alike value).refused terminated within failed
    exact ⟨(chain_error failed').symm, raised⟩
  | case2 value cursor middle done =>
    obtain ⟨done', moved, _⟩ := (alike value).go_on terminated within done
    exact ⟨(chain_none done').symm, moved⟩
  | case3 value cursor built middle done further ih =>
    obtain ⟨done', moved, terminated, within⟩ := (alike value).go_on terminated within done
    obtain ⟨same, settles⟩ := ih terminated within
    exact ⟨same.trans (chain_some done' further).symm, settles.earlier moved⟩
  | case4 value cursor built middle done still =>
    obtain ⟨done', _⟩ := (alike value).go_on terminated within done
    exact ⟨(chain_stuck done' still).symm, stuck faults ..⟩

theorem laws (faults : RaisesFaults raises) (bound : Nat) : Congruence (Agree raises bound) :=
  .of_uniform {
    pure := fun value => looks (fun _ _ => value) fun _ _ => rfl
    bind := bind
    current := looks (fun _ cursor => cursor.token) current_eq
    advance := advance faults
    nextKind := looks (fun _ cursor => cursor.rest.head?.map Token.kind) fun _ _ => rfl
    noDo := looks (fun scope _ => scope.noDo) fun _ _ => rfl
    fail := fail faults
    withNoDo := fun noDo alike scope => alike { scope with noDo }
    list := list faults
    chain := chain faults }

end Agree

/-- Two parsers that read a token first do the same where at most `bound` tokens are behind
the current one. -/
def AgreeOpening (raises : ParseError → Prop) (bound : Nat) {α : Type} (parser parser' : Parser α) :
    Prop :=
  ∀ scope cursor, cursor.Terminated → cursor.token.isTerminal = false → cursor.remaining ≤ bound →
    parser scope cursor = parser' scope cursor ∧ Settles raises cursor.rest (parser scope cursor)

namespace AgreeOpening

variable {α β : Type} {raises : ParseError → Prop} {bound : Nat}

theorem bind {first first' : Parser α} {next next' : α → Parser β}
    (start : AgreeOpening raises bound first first')
    (more : ∀ value, Agree raises bound (next value) (next' value)) :
    AgreeOpening raises bound (first >>= next) (first' >>= next') := by
  intro scope cursor terminated running within
  obtain ⟨same, settles⟩ := start scope cursor terminated running within
  cases done : first scope cursor with
  | error error =>
    rw [done] at same settles
    rw [bind_error next done, bind_error next' same.symm]
    exact ⟨rfl, settles⟩
  | ok result =>
    obtain ⟨value, middle⟩ := result
    rw [done] at same settles
    rw [bind_ok next done, bind_ok next' same.symm]
    have moved : middle.tokens <:+ cursor.rest := settles
    have fewer : middle.remaining < bound := by
      have shorter := moved.length_le
      rw [Cursor.tokens, List.length_cons, ← cursor.remaining_eq, ← middle.remaining_eq] at shorter
      omega
    obtain ⟨same, settles⟩ := more value scope middle
      (terminated.suffix (moved.trans (List.suffix_cons _ _))) fewer
    exact ⟨same, settles.earlier moved⟩

/-- A token that is not the last one is left behind. -/
theorem advance (faults : RaisesFaults raises) : AgreeOpening raises bound advance advance := by
  intro scope cursor terminated running _
  refine ⟨rfl, ?_⟩
  cases moved : Parser.advance scope cursor with
  | error error =>
    have alike : Agree raises (cursor.remaining + 1) Parser.advance Parser.advance :=
      .advance faults
    exact (alike.refused terminated (Nat.lt_succ_self _) moved).2
  | ok result =>
    obtain ⟨token, final⟩ := result
    have split := Balanced.tokens_of_advance terminated running moved
    exact (List.cons.inj split).2 ▸ List.suffix_rfl

theorem fail (faults : RaisesFaults raises) (message : Message) (args : List String)
    (phrase : message.isPhrase = true) :
    AgreeOpening raises bound (Parser.fail message args : Parser α) (Parser.fail message args) :=
  fun _ cursor _ _ _ => ⟨rfl, faults.phrase cursor.token.span message args phrase⟩

theorem current {next next' : Token → Parser β}
    (alike : ∀ token (place : token.Place),
      AgreeOpening raises bound (next token) (next' (token.placed place))) :
    AgreeOpening raises bound (Parser.current >>= next) (Parser.current >>= next') :=
  fun scope cursor => alike cursor.token cursor.token.here scope cursor

theorem opening (faults : RaisesFaults raises) (bound : Nat) :
    Opening (Agree raises bound) (AgreeOpening raises bound) where
  laws := Agree.laws faults bound
  bind := bind
  current := current
  advance alike := (advance faults).bind fun token => alike token token.here
  command names _ named other := by
    intro scope cursor
    have looks : Agree raises bound Parser.current Parser.current :=
      .looks (fun _ cursor => cursor.token) current_eq
    have passed := (advance faults).bind fun name => looks.bind fun behind =>
      named name name.here (startsCommandArgument behind)
    rw [bind_ok _ (kind_eq scope cursor), bind_ok _ (kind_eq scope cursor)]
    split
    · exact passed scope cursor
    · exact other cursor.token.kind scope cursor
  numberOr := Congruence.numberOr_of_fail current
    (fun node => (advance faults).bind fun _ => .looks (fun _ _ => node) fun _ _ => rfl)
    (fail faults)
  fail message args order := fail faults message args (Message.isPhrase_of_isOrder order)

end AgreeOpening

/-- No level of nesting reads anything at the end of the tokens. -/
theorem atLevel_terminal {nest : Nest} {scope : Scope} {cursor : Cursor}
    (terminal : cursor.token.isTerminal = true) (level : Level) :
    atLevel nest level scope cursor = failAt .expressionExpected scope cursor := by
  have ends := (Lexer.isTerminal_iff cursor.token).mp terminal
  have primary : primary nest scope cursor = failAt .expressionExpected scope cursor := by
    unfold Parser.primary
    rw [bind_ok _ (kind_eq scope cursor)]
    obtain ended | unknown := ends
    · rw [ended]
    · rw [unknown]
  have unsigned : unaryOp? cursor.token.kind = none := by
    obtain ended | unknown := ends
    · rw [ended]
      rfl
    · rw [unknown]
      rfl
  have positive : cursor.token.kind ≠ .keyword .notKw := by
    obtain ended | unknown := ends
    · rw [ended]
      nofun
    · rw [unknown]
      nofun
  exact atLevel_of_refused unsigned positive primary level

/-- Where what nests does the same with fewer tokens left, a level of nesting does the same
with one more. -/
theorem atLevel_agree {raises : ParseError → Prop} (faults : RaisesFaults raises)
    {nest nest' : Nest} (nests : ∀ level, Agree raises bound (nest level) (nest' level))
    (level : Level) : Agree raises (bound + 1) (atLevel nest level) (atLevel nest' level) := by
  intro scope cursor terminated within
  by_cases terminal : cursor.token.isTerminal = true
  · rw [atLevel_terminal terminal, atLevel_terminal terminal]
    exact ⟨rfl, faults.phrase _ _ _ rfl⟩
  · obtain ⟨same, settles⟩ := (AgreeOpening.opening faults bound).atLevel nests level scope cursor
      terminated (Bool.eq_false_iff.mpr terminal) (Nat.le_of_lt_succ within)
    exact ⟨same, settles.earlier (List.suffix_cons _ _)⟩

namespace Parser

/-- The levels of nesting, `used` of them open and `left` of them left, where every entry
is checked: `count - 1 - cursor.remaining` of the `count` tokens are consumed, and no
more levels may be open than that. Where more are open, `early` takes over. -/
def watched (early : Nest) (count used : Nat) : (left : Nat) → Nest
  | left, level => fun scope cursor =>
    if used + cursor.remaining < count then
      match left with
      | 0 => fail .nestingTooDeep [toString scope.limit] scope cursor
      | left + 1 => atLevel (watched early count (used + 1) left) level scope cursor
    else early level scope cursor

/-- A whole program, with what nests in it. -/
def programIn (nest : Nest) : Parser Tree.Program := do
  discard advance
  statements nest []

end Parser

/-- The check at an entry never fails: no more levels are open than tokens consumed. -/
theorem nested_agree_watched (early : Nest) (count used left : Nat) (level : Level) :
    Agree (fun _ => True) (count - used) (nested left level) (watched early count used left level) := by
  have faults : RaisesFaults fun _ => True := ⟨fun _ => trivial, fun _ _ _ _ => trivial⟩
  induction left generalizing used level with
  | zero =>
    intro scope cursor _ within
    unfold watched
    rw [if_pos (show used + cursor.remaining < count by omega)]
    exact ⟨rfl, trivial⟩
  | succ left ih =>
    intro scope cursor terminated within
    unfold watched
    rw [if_pos (show used + cursor.remaining < count by omega)]
    exact atLevel_agree faults (ih (used + 1)) level scope cursor terminated (by omega)

/-- An error of the lexical grammar, or one that is not raised by the limit of nesting. -/
def Shallow : ParseError → Prop
  | .lexical _ => True
  | .grammatical report => report.code ≠ Message.nestingTooDeep.code

theorem raisesFaults_shallow : RaisesFaults Shallow where
  lexical _ := trivial
  phrase span message args phrase := by
    intro same
    rw [Message.code_injective (show message.code = Message.nestingTooDeep.code from same)] at phrase
    cases phrase

/-- With as many levels left as there are tokens the limit of nesting is not met. -/
theorem nested_shallow (depth : Nat) (level : Level) :
    Agree Shallow depth (nested depth level) (nested depth level) := by
  induction depth generalizing level with
  | zero => exact fun _ _ _ within => absurd within (Nat.not_lt_zero _)
  | succ depth ih => exact atLevel_agree raisesFaults_shallow ih level

theorem programIn_agree {raises : ParseError → Prop} (faults : RaisesFaults raises)
    {nest nest' : Nest} {first : Token} {rest : List Token}
    (nests : ∀ level, Agree raises (first :: rest).length (nest level) (nest' level))
    (terminated : (Cursor.ofTokens first rest).Terminated) (scope : Scope) (dummy : Token) :
    programIn nest scope (.ofTokens dummy (first :: rest)) =
        programIn nest' scope (.ofTokens dummy (first :: rest)) ∧
      Settles raises (first :: rest) (programIn nest scope (.ofTokens dummy (first :: rest))) := by
  have whole : (Cursor.ofTokens dummy (first :: rest)).Terminated := by
    intro token last
    exact terminated token last
  cases passed : (Functor.discard advance : Parser Unit) scope (.ofTokens dummy (first :: rest)) with
  | error error =>
    have raised := ((Agree.laws faults ((first :: rest).length + 1)).skip.refused whole
      (Nat.lt_succ_self _) passed).2
    unfold programIn
    rw [bind_error _ passed, bind_error _ passed]
    exact ⟨rfl, raised⟩
  | ok result =>
    obtain ⟨_, middle⟩ := result
    obtain ⟨_, moved⟩ := discard_eq_ok passed
    rcases (advance_eq_ok moved).2 with ⟨_, ended⟩ | follows
    · cases ended
    · cases follows
      unfold programIn
      rw [bind_ok _ passed, bind_ok _ passed]
      exact (Agree.laws faults _).statements nests [] scope _ terminated (Nat.lt_succ_self _)

end RubySyntax.Grammar

namespace RubySyntax

open Diagnostic (ParseError Message)
open Grammar (Nest)
open Grammar.Parser (nested watched programIn)

/-- Reading a source with given levels of nesting. -/
def parseIn (nest : Nest) (source : String) (options : Options) : Except ParseError Tree.Program :=
  ((programIn nest { limit := options.maxDepth, fault := (scan source).2 }
    (.ofTokens startToken (scan source).1)).map Prod.fst).mapError fun error =>
      error.inFile options.fileName (.ofSource source)

/-- What any two levels of nesting agree on while there are tokens, they agree on for a
whole source. -/
theorem parseIn_agree {raises : ParseError → Prop} (faults : Grammar.RaisesFaults raises)
    (source : String) {nest nest' : Nest} (nests : ∀ level,
      Grammar.Agree raises (scan source).1.length (nest level) (nest' level)) (scope : Grammar.Scope) :
    programIn nest scope (.ofTokens startToken (scan source).1) =
        programIn nest' scope (.ofTokens startToken (scan source).1) ∧
      Grammar.Settles raises (scan source).1
        (programIn nest scope (.ofTokens startToken (scan source).1)) := by
  obtain ⟨front, last, tokens, _, terminal, _⟩ := scan_ends source
  have nonempty : front ++ [last] ≠ [] := List.append_ne_nil_of_right_ne_nil front nofun
  obtain ⟨first, rest, split⟩ := List.exists_cons_of_ne_nil nonempty
  rw [tokens, split] at nests ⊢
  refine Grammar.programIn_agree faults nests ?_ scope startToken
  intro token here
  have ends : token ∈ (first :: rest).getLast? := here
  rw [← split, List.getLast?_concat] at ends
  exact Option.some.inj ends ▸ terminal

/-- Whatever the limit is, no more levels of nesting are open at any entry to one than
tokens were consumed, so a check at every entry changes nothing; and a limit of at least
as many levels as there are tokens never rejects a source. -/
theorem parse_within_limit (source : String) (options : Options) :
    (∀ early, parse source options =
      parseIn (watched early (scan source).1.length 0 options.maxDepth) source options) ∧
    ((scan source).1.length ≤ options.maxDepth →
      ∀ error, parse source options = .error error → error.report.code ≠ 1116) := by
  constructor
  · intro early
    have agrees := Grammar.nested_agree_watched early (scan source).1.length 0 options.maxDepth
    have same := (parseIn_agree ⟨fun _ => trivial, fun _ _ _ _ => trivial⟩ source agrees
      { limit := options.maxDepth, fault := (scan source).2 }).1
    show parseIn (nested options.maxDepth) source options = _
    unfold parseIn
    rw [same]
  · intro enough error failed
    obtain ⟨fault, rfl, refused⟩ := parse_eq_error failed
    have shallow (level : Grammar.Level) : Grammar.Agree Grammar.Shallow (scan source).1.length
        (nested options.maxDepth level) (nested options.maxDepth level) :=
      fun scope cursor terminated within =>
        Grammar.nested_shallow _ level scope cursor terminated (Nat.lt_of_lt_of_le within enough)
    have settles := (parseIn_agree Grammar.raisesFaults_shallow source shallow
      { limit := options.maxDepth, fault := (scan source).2 }).2
    have raised : Grammar.Shallow fault := by
      rwa [show programIn (nested options.maxDepth) _ _ = .error fault from refused] at settles
    obtain ⟨sorted, _⟩ := program_refused refused
    rw [Diagnostic.ParseError.code_inFile]
    cases fault with
    | lexical report =>
      obtain ⟨_, below⟩ : 1000 ≤ report.code ∧ report.code < 1100 := sorted
      show report.code ≠ 1116
      omega
    | grammatical report => exact raised

private theorem signs_match :
    (scan "--").1.length = 3 ∧
      (match parse "--" { maxDepth := 2 } with
        | .error error => error.report.code == 1116
        | .ok _ => false) = true ∧
      (match parse "--" { maxDepth := 3 } with
        | .error error => error.report.code == 1103
        | .ok _ => false) = true := by
  decide +kernel

/-- Two signs and the end of the input need three levels of nesting, and no fewer. -/
theorem parse_within_limit_signs :
    (scan "--").1.length ≤ 3 ∧
      (∃ error, parse "--" { maxDepth := 2 } = .error error ∧ error.report.code = 1116) ∧
      ∃ error, parse "--" { maxDepth := 3 } = .error error ∧ error.report.code = 1103 ∧
        error.report.code ≠ 1116 := by
  obtain ⟨count, tooDeep, refused⟩ := signs_match
  refine ⟨Nat.le_of_eq count, ?_, ?_⟩
  · split at tooDeep
    · rename_i error failed
      exact ⟨error, failed, beq_iff_eq.mp tooDeep⟩
    · cases tooDeep
  · split at refused
    · rename_i error failed
      have within := (parse_within_limit "--" { maxDepth := 3 }).2 (Nat.le_of_eq count) error failed
      exact ⟨error, failed, beq_iff_eq.mp refused, within⟩
    · cases refused

end RubySyntax
