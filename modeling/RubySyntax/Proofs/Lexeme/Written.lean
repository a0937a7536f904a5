import RubySyntax.Proofs.Lexeme.Heredoc

/-! The text of a lexeme and the characters under its span. They are the same but
for a label, whose colon is no part of its text, and for a heredoc, whose text is
its body. -/
namespace RubySyntax

open Text

/-- The first lines of a text are the front of it. -/
theorem Text.joinLines_front (front lines : List (List Char)) :
    joinLines front <+: joinLines (front ++ lines) := by
  induction front with
  | nil => exact List.nil_prefix
  | cons line front ih =>
    cases front with
    | nil =>
      obtain ⟨passed, begins, same⟩ := joinLines_cons_suffix line lines
      rw [List.cons_append, List.nil_append, same]
      exact begins.trans (List.prefix_append _ _)
    | cons next front =>
      exact (List.prefix_append_right_inj line).mpr (List.cons_prefix_cons.mpr ⟨rfl, ih⟩)

/-- The characters that a token of this kind with this text is written with. -/
def Token.Kind.written (kind : Token.Kind) (text : List Char) : List Char :=
  if kind = .label then text ++ [':'] else text

theorem Token.Kind.written_of_ne {kind : Token.Kind} (other : kind ≠ .label) (text : List Char) :
    kind.written text = text := if_neg other

namespace Lexeme

/-- The text of the lexeme is what its body is written for, the name of a constant begins
like one, and a punctuation mark stands for itself. -/
structure Written (lexeme : Lexeme) : Prop where
  body : lexeme.body = lexeme.kind.written lexeme.text
  constant : lexeme.kind = .constant → lexeme.text.head?.any isConstantStart = true
  punct : ∀ p, lexeme.kind = .punct p → lexeme.chars = lexeme.body

def Reading.Written (reading : Reading) : Prop := ∀ lexeme, reading = .ok lexeme → lexeme.Written

theorem Written.of_eq {lexeme : Lexeme} (other : lexeme.kind ≠ .label)
    (plain : lexeme.kind ≠ .constant) (sign : ∀ p, lexeme.kind ≠ .punct p)
    (same : lexeme.text = lexeme.body) : lexeme.Written :=
  ⟨by rw [Token.Kind.written_of_ne other, same], fun constant => absurd constant plain,
    fun p punct => absurd punct (sign p)⟩

theorem Reading.written_ok {lexeme : Lexeme} (written : lexeme.Written) :
    Reading.Written (.ok lexeme) := by
  intro other read
  cases read
  exact written

theorem Reading.written_error (fault : Fault) : Reading.Written (.error fault) := by
  intro lexeme read
  cases read

theorem Reading.Written.ite {condition : Prop} [Decidable condition] {first second : Reading}
    (yes : first.Written) (no : second.Written) :
    Reading.Written (if condition then first else second) := by
  split
  · exact yes
  · exact no

theorem literal_kind {kind : Token.LiteralKind} {lexeme : Lexeme}
    (read : literal kind opened frame message args input = .ok lexeme) :
    lexeme.kind = .literal kind := by
  unfold literal at read
  split at read
  · cases read
    rfl
  · cases read

theorem literal_written (kind : Token.LiteralKind) (opened : List Char) (frame : Frame)
    (message : Diagnostic.Message) (args : List String) (input : List Char) :
    (literal kind opened frame message args input).Written := by
  unfold literal
  split
  · exact Reading.written_ok (.of_eq (by simp) (by simp) (by simp) rfl)
  · exact Reading.written_error _

theorem withOptions_written (kind : Token.LiteralKind) (opened : List Char) (frame : Frame)
    (message : Diagnostic.Message) (args : List String) (behind input : List Char) :
    Reading.Written ((literal kind opened frame message args behind).map (withOptions input)) := by
  intro lexeme read
  obtain ⟨plain, found, rfl⟩ := ok_of_map read
  have literal : plain.kind = .literal kind := literal_kind found
  obtain ⟨body, constant, _⟩ := literal_written kind opened frame message args behind plain found
  exact ⟨body, constant, by simp [withOptions, literal]⟩

theorem number_written (input : List Char) : (number input).Written :=
  .of_eq (by simp [number]) (by simp [number]) (by simp [number]) rfl

theorem nameKind_ne_label (context : Context) (text : List Char) :
    nameKind context text ≠ .label := by
  unfold nameKind
  split
  · simp
  · split <;> simp

theorem nameKind_ne_punct (context : Context) (text : List Char) (p : Token.Punct) :
    nameKind context text ≠ .punct p := by
  unfold nameKind
  split
  · simp
  · split <;> simp

theorem nameKind_constant {text : List Char} (constant : nameKind context text = .constant) :
    text.head?.any isConstantStart = true := by
  unfold nameKind at constant
  split at constant
  · cases constant
  · split at constant
    · assumption
    · cases constant

theorem name_written (context : Context) (input : List Char) : (name context input).Written := by
  unfold name
  dsimp only
  split
  · exact ⟨(if_pos rfl).symm, nofun, nofun⟩
  · exact ⟨(Token.Kind.written_of_ne (nameKind_ne_label _ _) _).symm, nameKind_constant,
      fun p sign => absurd sign (nameKind_ne_punct _ _ p)⟩

theorem globalVariable_written {kind : Token.Kind} (other : kind ≠ .label)
    (plain : kind ≠ .constant) (sign : ∀ p, kind ≠ .punct p) (before input : List Char) :
    (globalVariable kind before input).Written := by
  unfold globalVariable
  dsimp only
  split
  · exact Reading.written_error _
  · exact Reading.written_ok (.of_eq other plain sign rfl)

theorem sigilVariable_written (input : List Char) : (sigilVariable input).Written := by
  unfold sigilVariable
  split
  · exact globalVariable_written (by simp) (by simp) (by simp) _ _
  · dsimp only
    split
    · refine Reading.written_ok (.of_eq ?_ ?_ ?_ rfl)
      all_goals
        dsimp only
        split <;> simp
    · exact Reading.written_error _

theorem symbol_written (input : List Char) : (symbol input).Written := by
  have plain (body : List Char) :
      Reading.Written (.ok { kind := .literal .symbol, opening := [':'], body }) :=
    Reading.written_ok (.of_eq (by simp) (by simp) (by simp) rfl)
  unfold symbol
  dsimp only
  split
  · exact plain []
  · refine .ite (literal_written _ _ _ _ _ _) (.ite (.ite ?_ (plain _)) (.ite ?_ ?_))
    · exact Reading.written_error _
    · exact globalVariable_written (by simp) (by simp) (by simp) _ _
    · exact .ite (plain _) (plain _)

theorem character_written (input : List Char) : (character input).Written :=
  .ite (Reading.written_ok (.of_eq (by simp) (by simp) (by simp) rfl)) (Reading.written_error _)

theorem percent_written (input : List Char) : (percent input).Written := by
  unfold percent
  dsimp only
  split
  · exact Reading.written_error _
  · split
    · exact Reading.written_error _
    · split
      · exact Reading.written_error _
      · exact .ite (withOptions_written _ _ _ _ _ _ _) (literal_written _ _ _ _ _ _)

theorem operator_written (input : List Char) : (operator input).Written := by
  refine .ite (Reading.written_ok (.of_eq (by simp) (by simp) (by simp) rfl)) ?_
  split
  · exact Reading.written_ok
      ⟨(Token.Kind.written_of_ne (by simp) _).symm, nofun, fun _ _ => by simp [Lexeme.chars]⟩
  · exact Reading.written_error _

theorem readFrom_written (context : Context) (c : Char) (input : List Char) :
    (readFrom context c input).Written := by
  refine .ite (Reading.written_ok (number_written input)) ?_
  refine .ite (literal_written _ _ _ _ _ _) (.ite (literal_written _ _ _ _ _ _) ?_)
  refine .ite (literal_written _ _ _ _ _ _) (.ite (sigilVariable_written input) ?_)
  refine .ite (symbol_written input) (.ite (character_written input) ?_)
  refine .ite (percent_written input) (.ite (withOptions_written _ _ _ _ _ _ input) ?_)
  exact .ite (Reading.written_ok (name_written context input)) (operator_written input)

/-- A token that opens no heredoc is written as its text says. -/
theorem read_written {bodies : Option Pending}
    (read : read context offset pending input = .ok (lexeme, bodies))
    (plain : opener? context input = none) : lexeme.Written := by
  obtain ⟨_, follows, found, _⟩ | ⟨_, _, ⟨_, rfl⟩ | ⟨c, rest, _, found⟩⟩ := read_cases read
  · obtain ⟨opener, _, _, opened, _⟩ := heredoc_eq_ok found
    simp [opener?, follows, opened, Except.toOption] at plain
  · exact .of_eq (by simp) (by simp) (by simp) rfl
  · exact readFrom_written context c (c :: rest) _ found

/-- The body of a heredoc and what follows its terminator are parts of the text in
which the heredoc is looked for. -/
theorem heredocBody_parts {name text : List Char}
    (found : heredocBody name indented text = some (lines, rest)) :
    lines <+: text ∧ rest <:+ text := by
  obtain ⟨region, _, below⟩ := heredocBody_region found
  refine ⟨?_, region, below.symm⟩
  obtain ⟨_, above, last, after, split, _, _, rfl, _⟩ := heredocBody_eq_some.mp found
  have front := joinLines_front above (last :: after)
  rwa [← split, joinLines_splitLines] at front

/-- An opener has its signs, a mark if one follows them, and the name. -/
theorem heredocOpener_marks {opener : HeredocOpener} (opened : heredocOpener input = .ok opener) :
    ∃ mark label, opener.chars = ['<', '<'] ++ mark ++ label ∧ opener.squiggly = (mark == ['~']) ∧
      (mark = [] ∨ mark = ['-'] ∨ mark = ['~']) ∧ label.head? ≠ some '~' := by
  let mark := (input.drop 2).take 1 |>.filter isHeredocMark
  have marks : mark = [] ∨ mark = ['-'] ∨ mark = ['~'] := by
    cases after : input.drop 2 with
    | nil => simp [mark, after]
    | cons c rest =>
      have kept : mark = [c].filter isHeredocMark := by simp [mark, after]
      by_cases marked : isHeredocMark c = true
      · rw [kept, List.filter_cons_of_pos marked, List.filter_nil]
        have sign : c = '-' ∨ c = '~' := by simpa [isHeredocMark] using marked
        rcases sign with rfl | rfl <;> simp
      · rw [kept, List.filter_cons_of_neg marked]
        exact .inl rfl
  unfold heredocOpener at opened
  dsimp only at opened
  split at opened
  · rename_i quote tail _
    split at opened
    · rename_i quoted
      split at opened
      · cases opened
        refine ⟨mark, quote :: tail.takeWhile (fun c => c != quote && !isLineBreak c) ++ [quote],
          by simp [mark], rfl, marks, ?_⟩
        rintro first
        obtain rfl : quote = '~' := by simpa using first
        simp at quoted
      · cases opened
    · cases opened
      refine ⟨mark, _, rfl, rfl, marks, fun first => ?_⟩
      have part := List.mem_takeWhile_imp (List.mem_of_head? first)
      revert part
      decide
  · cases opened
    exact ⟨mark, [], by simp [mark], rfl, marks, by simp⟩

/-- The common indentation of a body is taken away exactly if its opener has a tilde. -/
theorem heredocOpener_squiggly {opener : HeredocOpener} (opened : heredocOpener input = .ok opener) :
    ['<', '<'] <+: opener.chars ∧ ['<', '<', '~'].isPrefixOf opener.chars = opener.squiggly := by
  obtain ⟨mark, label, chars, squiggly, marks, first⟩ := heredocOpener_marks opened
  rw [chars, squiggly, List.append_assoc]
  refine ⟨List.prefix_append _ _, ?_⟩
  rcases marks with rfl | rfl | rfl
  · cases label with
    | nil => rfl
    | cons c label =>
      have other : ('~' == c) = false := beq_false_of_ne fun same => first (by rw [same]; rfl)
      simp [List.isPrefixOf, other]
  · simp [List.isPrefixOf]
  · simp [List.isPrefixOf]

end Lexeme

end RubySyntax
