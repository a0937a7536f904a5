import Mathlib.Data.Bool.AllAny
import Mathlib.Data.List.TakeWhile
import RubySyntax.Proofs.Lexeme.Heredoc

namespace RubySyntax

open Text
open Token (Kind)

/-- A heredoc as it is written: an identifier, of a constant or any other, and lines of
which none is the terminator. -/
structure Heredoc where
  name : List Char
  lines : List (List Char)
  leads : name.head?.any isIdentifierStart = true
  parts : name.all isIdentifierPart = true
  inLines : ∀ line ∈ lines, '\n' ∉ line
  goesOn : ∀ line ∈ lines, trimEnd line ≠ name

namespace Text

theorem splitLines_line {line : List Char} (inLine : '\n' ∉ line) : splitLines line = [line] := by
  induction line with
  | nil => rfl
  | cons c line ih =>
    rw [List.mem_cons, not_or] at inLine
    rw [splitLines, if_neg (Ne.symm inLine.1), ih inLine.2]

/-- Closed lines are lines of the text in front of what stands behind them. -/
theorem splitLines_closeLines {lines : List (List Char)} (inLines : ∀ line ∈ lines, '\n' ∉ line)
    (more : List Char) : splitLines (closeLines lines ++ more) = lines ++ splitLines more := by
  induction lines with
  | nil => rfl
  | cons line lines ih =>
    obtain ⟨first, others⟩ := List.forall_mem_cons.mp inLines
    have split : closeLines (line :: lines) ++ more = line ++ '\n' :: (closeLines lines ++ more) := by
      simp [closeLines]
    rw [split, splitLines_append, splitLines_line first, ih others]
    rfl

def whiteSpace : List Nat :=
  List.range' 0x09 5 ++ [0x20, 0x85, 0xa0, 0x1680] ++ List.range' 0x2000 11 ++
    [0x2028, 0x2029, 0x202f, 0x205f, 0x3000]

/-- No white space is part of an identifier. -/
theorem isWhiteSpace_identifierPart {c : Char} (part : isIdentifierPart c = true) :
    isWhiteSpace c = false := by
  have none : ∀ n ∈ whiteSpace, isIdentifierPart (Char.ofNat n) = false :=
    List.all_iff_forall_prop.mp (by decide +kernel)
  refine Bool.eq_false_iff.mpr fun white => ?_
  have member : c.toNat ∈ whiteSpace := by
    simp only [isWhiteSpace, Bool.or_eq_true, Bool.and_eq_true, decide_eq_true_eq, beq_iff_eq] at white
    simp only [whiteSpace, List.mem_append, List.mem_range'_1, List.mem_cons, List.not_mem_nil]
    omega
  have other := none _ member
  rw [Char.ofNat_toNat, part] at other
  cases other

theorem trimEnd_identifier {name : List Char} (parts : name.all isIdentifierPart = true) :
    trimEnd name = name := by
  have visible : ∀ c ∈ name.reverse, isWhiteSpace c = false := fun c member =>
    isWhiteSpace_identifierPart (List.all_eq_true.mp parts c (List.mem_reverse.mp member))
  have whole : name.reverse.dropWhile isWhiteSpace = name.reverse :=
    List.dropWhile_eq_self_iff.mpr fun _ => Bool.eq_false_iff.mp (visible _ (List.getElem_mem _))
  rw [trimEnd, whole, List.reverse_reverse]

end Text

namespace Heredoc

/-- What stands on the line that opens the heredoc. -/
def mark (heredoc : Heredoc) : List Char := '<' :: '<' :: heredoc.name

/-- The lines below, the terminator included. -/
def block (heredoc : Heredoc) : List (List Char) := heredoc.lines ++ [heredoc.name]

def text (heredoc : Heredoc) : List Char := joinLines heredoc.lines

def lexeme (heredoc : Heredoc) : Lexeme :=
  { kind := .literal .template, body := heredoc.mark, text := heredoc.text }

theorem chars_lexeme (heredoc : Heredoc) : heredoc.lexeme.chars = heredoc.mark := by
  simp [lexeme, Lexeme.chars]

theorem name_split (heredoc : Heredoc) :
    ∃ c tail, heredoc.name = c :: tail ∧ isIdentifierStart c = true := by
  obtain ⟨c, same, start⟩ := (Option.any_eq_true _ _).mp heredoc.leads
  obtain ⟨tail, split⟩ := List.head?_eq_some_iff.mp same
  exact ⟨c, tail, split, start⟩

theorem lineFeed_not_mem_name (heredoc : Heredoc) : '\n' ∉ heredoc.name := fun member => by
  have part := List.all_eq_true.mp heredoc.parts _ member
  rw [Lexeme.isIdentifierPart_lineFeed] at part
  cases part

theorem lineFeed_not_mem_mark (heredoc : Heredoc) : '\n' ∉ heredoc.mark := by
  simp [mark, heredoc.lineFeed_not_mem_name]

theorem lineFeed_not_mem_block (heredoc : Heredoc) : ∀ line ∈ heredoc.block, '\n' ∉ line :=
  List.forall_mem_append.mpr
    ⟨heredoc.inLines, List.forall_mem_singleton.mpr heredoc.lineFeed_not_mem_name⟩

/-- The lines up to the terminator are the body, and the text goes on behind it. -/
theorem heredocBody_block (heredoc : Heredoc) (more : List Char) :
    Lexeme.heredocBody heredoc.name false (closeLines heredoc.block ++ more) =
      some (heredoc.text, more) := by
  have named : heredoc.name.isEmpty = false := by
    obtain ⟨c, tail, split, _⟩ := heredoc.name_split
    rw [split]
    rfl
  have ends : Lexeme.isTerminator heredoc.name false heredoc.name = true := by
    simp [Lexeme.isTerminator, trimEnd_identifier heredoc.parts]
  have passes : ∀ line ∈ heredoc.lines, (!Lexeme.isTerminator heredoc.name false line) = true := by
    intro line member
    simpa [Lexeme.isTerminator] using heredoc.goesOn line member
  have lines : splitLines (closeLines heredoc.block ++ more) =
      heredoc.lines ++ heredoc.name :: splitLines more := by
    rw [splitLines_closeLines heredoc.lineFeed_not_mem_block, block, List.append_assoc]
    rfl
  have body : (heredoc.lines ++ heredoc.name :: splitLines more).takeWhile
      (fun line => !Lexeme.isTerminator heredoc.name false line) = heredoc.lines := by
    rw [List.takeWhile_append_of_pos passes, List.takeWhile_cons_of_neg (by simp [ends]),
      List.append_nil]
  unfold Lexeme.heredocBody
  rw [named, if_neg Bool.false_ne_true, lines]
  dsimp only
  rw [body, List.drop_left]
  dsimp only
  rw [joinLines_splitLines, text]

theorem isHeredocMark_identifierStart (start : isIdentifierStart c = true) :
    Lexeme.isHeredocMark c = false := by
  refine Bool.eq_false_iff.mpr fun mark => ?_
  obtain rfl | rfl : c = '-' ∨ c = '~' := by simpa [Lexeme.isHeredocMark] using mark
  · cases start
  · cases start

theorem heredocOpener_mark (heredoc : Heredoc) (apart : left.head?.any isIdentifierPart = false) :
    Lexeme.heredocOpener (heredoc.mark ++ left) =
      .ok { chars := heredoc.mark, name := heredoc.name, kind := .template
            indented := false, squiggly := false } := by
  have whole := Lexeme.takeWhile_append_of_ends (List.all_eq_true.mp heredoc.parts) apart
  obtain ⟨c, tail, split, start⟩ := heredoc.name_split
  have bare := isHeredocMark_identifierStart start
  have noQuote : c ≠ '\'' ∧ c ≠ '"' := by
    constructor
    · rintro rfl
      cases start
    · rintro rfl
      cases start
  unfold mark Lexeme.heredocOpener
  rw [split] at whole ⊢
  simpa [bare, noQuote] using whole

/-- Where an operand is to come, such signs open a heredoc. -/
theorem heredocFollows_mark (heredoc : Heredoc) {context : Lexeme.Context}
    (operand : context.expectsOperand = true) (left : List Char) :
    Lexeme.heredocFollows context (heredoc.mark ++ left) = true := by
  obtain ⟨c, tail, split, start⟩ := heredoc.name_split
  unfold mark
  rw [split]
  simp [Lexeme.heredocFollows, operand, isHeredocMark_identifierStart start, start]

/-- Where an operand is to come the heredoc is read, and what is read ahead goes on behind
its terminator. -/
theorem read_mark (heredoc : Heredoc) {context : Lexeme.Context} {pending : Option Lexeme.Pending}
    {base : Lexeme.Pending} (operand : context.expectsOperand = true)
    (unnamed : context.namesMethod = false) (apart : left.head?.any isIdentifierPart = false)
    (same : pending.getD (.below offset (heredoc.mark ++ left)) = base)
    (below : base.rest = closeLines heredoc.block ++ more) :
    Lexeme.read context offset pending (heredoc.mark ++ left) =
      .ok (heredoc.lexeme, some { base with
        resume := base.resume + byteLength (closeLines heredoc.block), rest := more }) := by
  have found : Lexeme.heredocBody heredoc.name false base.rest = some (heredoc.text, more) := by
    rw [below, heredoc.heredocBody_block]
  have size : byteLength base.rest - byteLength more = byteLength (closeLines heredoc.block) := by
    rw [below, byteLength_append, Nat.add_sub_cancel]
  have opened : Lexeme.heredoc offset pending (heredoc.mark ++ left) =
      .ok (heredoc.lexeme, { base with
        resume := base.resume + byteLength (closeLines heredoc.block), rest := more }) := by
    subst same
    unfold Lexeme.Pending.below at found size
    unfold Lexeme.heredoc
    simp only [heredoc.heredocOpener_mark apart, Except.bind, found, size]
    rfl
  unfold Lexeme.read
  rw [unnamed, heredoc.heredocFollows_mark operand left, opened]
  rfl

end Heredoc

end RubySyntax
