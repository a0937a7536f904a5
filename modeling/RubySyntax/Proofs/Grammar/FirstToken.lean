import RubySyntax.Proofs.Grammar.Joined
import RubySyntax.Proofs.Lexer.Joined

namespace RubySyntax.Grammar

open RubySyntax.Tree (Node)
open Token (Kind Punct Keyword Spacing)
open Diagnostic (Message ParseError)
open Grammar.Parser

/-- The white space in front of the current token says nothing to the parser. -/
def Blind {α : Type} (here : Kind → Prop) (parser : Parser α) : Prop :=
  ∀ (scope : Scope) (token next : Token) (spacing : Spacing) (rest : List Token), here token.kind →
    parser scope (.ofTokens { token with spacing } (next :: rest)) =
      parser scope (.ofTokens token (next :: rest))

namespace Blind

variable {α β : Type} {here : Kind → Prop}

theorem bind {first : Parser α} {next : α → Parser β} (blind : Blind here first) :
    Blind here (first >>= next) := by
  intro scope token following spacing rest fits
  exact bind_alike next (blind scope token following spacing rest fits)

/-- A parser that looks at the current token first, but not at the white space. -/
theorem current {next : Token → Parser β}
    (same : ∀ (token : Token) (spacing : Spacing), next { token with spacing } = next token)
    (blind : ∀ token, here token.kind → Blind (· = token.kind) (next token)) :
    Blind here (Parser.current >>= next) := by
  intro scope token following spacing rest fits
  show next { token with spacing } scope _ = next token scope _
  rw [same]
  exact blind token fits scope token following spacing rest rfl

theorem kind {next : Kind → Parser β} (blind : ∀ kind, here kind → Blind (· = kind) (next kind)) :
    Blind here (Parser.kind >>= next) :=
  current (fun _ _ => rfl) fun token => blind token.kind

theorem fail (message : Message) (args : List String) :
    Blind here (Parser.fail message args : Parser α) := fun _ _ _ _ _ _ => rfl

theorem failAt (message : Message) : Blind here (Parser.failAt message : Parser α) :=
  fun _ _ _ _ _ _ => rfl

theorem advance {next : Token → Parser β}
    (same : ∀ (token : Token) (spacing : Spacing), next { token with spacing } = next token) :
    Blind here (Parser.advance >>= next) := by
  intro scope token following spacing rest _
  show Except.bind (Parser.advance scope _) _ = Except.bind (Parser.advance scope _) _
  rw [advance_some (Cursor.next?_ofTokens _ following rest),
    advance_some (Cursor.next?_ofTokens token following rest)]
  split
  · rfl
  · exact congrFun (congrFun (same token spacing) scope) _

theorem step {next : Parser β} : Blind here (Functor.discard Parser.advance >>= fun _ => next) := by
  show Blind here ((fun _ => ()) <$> Parser.advance >>= fun _ => next)
  rw [map_eq_pure_bind, bind_assoc]
  exact .advance fun _ _ => rfl

theorem ite {c : Prop} [Decidable c] {yes no : Parser α} (first : c → Blind here yes)
    (second : ¬ c → Blind here no) : Blind here (if c then yes else no) := by
  split
  · rename_i holds
    exact first holds
  · rename_i fails
    exact second fails

theorem weaken {there : Kind → Prop} {parser : Parser α} (wider : ∀ kind, here kind → there kind)
    (blind : Blind there parser) : Blind here parser :=
  fun scope token next spacing rest fits => blind scope token next spacing rest (wider _ fits)

theorem isAt {kind : Kind} {next : Bool → Parser β} (blind : ∀ found, Blind here (next found)) :
    Blind here (Parser.isAt kind >>= next) := by
  show Blind here (Parser.current >>= fun token => next (token.kind == kind))
  exact current (fun _ _ => rfl) fun token fits => (blind _).weaken fun _ same => same ▸ fits

theorem eat {kind : Kind} {next : Bool → Parser β} (other : Blind here (next false)) :
    Blind here (Parser.eat kind >>= next) := by
  unfold Parser.eat
  rw [bind_assoc]
  refine isAt fun found => ?_
  cases found with
  | false => exact other
  | true =>
    show Blind here ((Functor.discard Parser.advance >>= fun _ => Pure.pure true) >>= next)
    rw [bind_assoc]
    exact step

section Primary

variable {nest : Nest}

theorem leaf (node : Node) : Blind here (leaf node) := step

theorem integer : Blind here integer := by
  refine current (fun _ _ => rfl) fun token _ => ?_
  split
  · exact leaf _
  · exact fail _ _
  · exact fail _ _

theorem float : Blind here float := by
  refine current (fun _ _ => rfl) fun token _ => ?_
  split
  · exact leaf _
  · exact fail _ _

theorem literal (kind : Token.LiteralKind) : Blind here (literal kind) := by
  cases kind with
  | integer => exact integer
  | float => exact float
  | character =>
    refine current (fun _ _ => rfl) fun token _ => ?_
    split
    · exact leaf _
    · exact failAt _
  | _ => exact advance fun _ _ => rfl

theorem constantName : Blind here constantName := by
  refine isAt fun found => ite (fun _ => ?_) fun _ => ?_
  · exact advance fun _ _ => rfl
  · exact current (fun _ _ => rfl) fun _ _ => bind (fail _ _)

theorem leadingConstant : Blind here leadingConstant := eat (bind constantName)

theorem constant : Blind here (constant nest) := bind leadingConstant

theorem punctuated (p : Punct) : Blind here (punctuated nest p) := by
  unfold Parser.punctuated
  split
  · exact constant
  · exact step
  · exact step
  · exact step
  · exact step
  · exact failAt _

theorem worded (k : Keyword) : Blind here (worded nest k) := by
  unfold Parser.worded
  split
  iterate 6 exact leaf _
  iterate 7 exact advance fun _ _ => rfl
  iterate 8 exact step
  exact failAt _

theorem primary : Blind here (primary nest) := by
  refine kind fun kind _ => ?_
  split
  · exact literal _
  iterate 3 exact advance fun _ _ => rfl
  · exact advance fun _ _ => rfl
  · exact constant
  · exact punctuated _
  · exact worded _
  · exact failAt _

end Primary

section Layers

variable {nest : Nest}

theorem postfixed : Blind here (postfixed nest) := bind primary

theorem power : Blind here (power nest) := bind postfixed

theorem unary : Blind here (unary nest) := by
  refine kind fun kind _ => ?_
  split
  · exact power
  · exact step

theorem binary (above : Precedence) : Blind here (binary nest above) := bind unary

theorem range : Blind here (range nest) := bind (binary .lowest)

theorem negation : Blind here (negation nest) := eat range

theorem weakLogical : Blind here (weakLogical nest) := bind negation

theorem ternary : Blind here (ternary nest) := bind weakLogical

theorem assignment : Blind here (assignment nest) := bind ternary

theorem nested (depth : Nat) (level : Level) : Blind here (nested depth level) := by
  cases depth with
  | zero => exact fun _ _ _ _ _ _ => rfl
  | succ depth =>
    cases level with
    | expression => exact assignment
    | ternary => exact ternary
    | negation => exact negation
    | binary above => exact binary above
    | unary => exact unary
    | postfixed => exact postfixed

theorem statement (depth : Nat) : Blind here (statement (Parser.nested depth)) :=
  bind (eat (bind (nested depth .expression)))

theorem skipWhile {holds : Kind → Bool} : Blind (holds · = true) (skipWhile holds) := by
  have stepped : Blind (holds · = true) (do
      if holds (← Parser.kind) then
        discard Parser.advance
        return some ()
      return none) := by
    refine kind fun kind fits => ?_
    rw [if_pos fits]
    exact step
  intro scope token next spacing rest fits
  unfold Parser.skipWhile
  rw [chain, chain, stepped scope token next spacing rest fits]
  rfl

/-- A step of a program passes the first token, or begins a statement with it. -/
theorem programStep (depth : Nat) :
    Blind (· ≠ .endOfFile) (programStep (Parser.nested depth)) := by
  intro scope token next spacing rest running
  by_cases separator : token.kind.isSeparator = true
  · have skips : Blind (Kind.isSeparator · = true) skipSeparators := skipWhile
    exact skips.bind scope token next spacing rest separator
  · have begins : ¬ EndsStatement token.kind := fun ends => ends.elim running separator
    have begins' : ¬ EndsStatement ({ token with spacing } : Token).kind := begins
    have blind : Blind (· ≠ .endOfFile) (Parser.statement (Parser.nested depth)) := statement depth
    rw [programStep_eq begins, programStep_eq begins']
    exact bind_alike _ (blind scope token next spacing rest running)

end Layers

end Blind

/-- At the end of the input there are no statements. -/
theorem statements_ended {nest : Nest} {scope : Scope} {cursor : Cursor}
    (last : cursor.token.kind = .endOfFile) :
    statements nest [] scope cursor = .ok ([], cursor) := by
  have stays : skipSeparators scope cursor = .ok ((), cursor) :=
    skipWhile_other (by rw [last]; rfl)
  exact list_stop (programStep_eq_ok_iff.mpr ⟨cursor, stays, .stop last⟩)

/-- The white space in front of a program says nothing. -/
theorem statements_respaced {token : Token} {rest : List Token} {scope : Scope} {final : Cursor}
    {nodes : List Node} (bounded : rest = [] → token.kind = .endOfFile)
    (done : statements (nested depth) [] scope (.ofTokens token rest) = .ok (nodes, final))
    (spacing : Spacing) : ∃ final',
      statements (nested depth) [] scope (.ofTokens { token with spacing } rest) =
        .ok (nodes, final') := by
  by_cases last : token.kind = .endOfFile
  · cases (statements_ended last).symm.trans done
    exact ⟨_, statements_ended last⟩
  · cases rest with
    | nil => exact absurd (bounded rfl) last
    | cons next rest =>
      have same := Blind.programStep depth scope token next spacing rest last
      exact ⟨final, list_of_step same (Nat.le_refl _) done⟩

/-- A statement begins with a primary expression, unless an operator stands in front. -/
theorem primary_of_statement {scope : Scope} {cursor final : Cursor} {node : Node}
    (begins : BeginsPlain cursor.token.kind)
    (done : statement (nested depth) scope cursor = .ok (node, final)) :
    ∃ below made stop, primary (nested below) scope cursor = .ok (made, stop) := by
  obtain ⟨_, _, plain, _⟩ := bind_eq_ok done
  unfold plainStatement at plain
  rw [bind_ok _ (eat_other begins.single)] at plain
  obtain ⟨_, _, expression, _⟩ := bind_eq_ok plain
  cases depth with
  | zero => cases expression
  | succ below =>
    have expression : atLevel (nested below) .expression scope cursor = .ok _ := expression
    obtain ⟨made, stop, primary⟩ := primary_of_atLevel begins.unsigned begins.positive expression
    exact ⟨below, made, stop, primary⟩

/-- No dots begin a program. -/
theorem statements_dots {scope : Scope} {cursor final : Cursor} {p : Punct} {nodes : List Node}
    (here : cursor.token.kind = .punct p) (dots : p.isDots = true) :
    statements (nested depth) [] scope cursor ≠ .ok (nodes, final) := by
  intro done
  have begins : BeginsPlain cursor.token.kind := by
    rw [here]
    unfold Punct.isDots at dots
    split at dots
    iterate 4 exact ⟨by decide, by decide, rfl, by decide, by decide⟩
    cases dots
  have refused (nest : Nest) (made : Node) (stop : Cursor) :
      primary nest scope cursor ≠ .ok (made, stop) := by
    unfold primary
    rw [bind_ok _ (kind_eq scope cursor), here]
    unfold Punct.isDots at dots
    split at dots
    iterate 4 exact nofun
    cases dots
  have stays : skipSeparators scope cursor = .ok ((), cursor) := by
    refine skipWhile_other ?_
    rw [here]
    rfl
  have statement (made : Node) (stop : Cursor) :
      Parser.statement (nested depth) scope cursor ≠ .ok (made, stop) := by
    intro read
    obtain ⟨below, made, stop, primary⟩ := primary_of_statement begins read
    exact refused _ _ _ primary
  obtain ⟨stepped, _⟩ | ⟨_, stepped, _⟩ | ⟨_, _, _, stepped, _, _⟩ := list_eq_ok done
  all_goals
    obtain ⟨start, skipped, step⟩ := programStep_eq_ok_iff.mp stepped
    cases stays.symm.trans skipped
    cases step
  · rename_i last
    exact begins.begins (.inl last)
  · rename_i read
    exact statement _ _ read
  · rename_i read
    exact statement _ _ read

end RubySyntax.Grammar
