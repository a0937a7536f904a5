import RubySyntax.Proofs.Lexer.Taken

/-! The lines of heredocs. They are found from the source and the places of the
openers, without the lexer. -/
namespace RubySyntax

open Text (byteLength byteLength_append byteLength_cons isLineBreak)
open Lexeme (HeredocOpener)

/-- The lines of a heredoc: its body and its terminator. -/
structure Block where
  /-- The offset of the line feed that ends the line of the opener. -/
  line : Nat
  start : Nat
  /-- The offset just after the terminator's line. -/
  stop : Nat
  body : List Char

/-- The offset of the first line feed at or after `offset`; the end if there is none. -/
def lineEnd (source : List Char) (offset : Nat) : Nat :=
  offset + byteLength (((Lexeme.dropBytes? offset source).getD []).takeWhile (!isLineBreak ·))

namespace Block

/-- Where the block of a heredoc begins whose line ends at `line`: below the line,
or below the block of the heredoc that was opened before it on the same line. -/
def startBelow (previous : Option Block) (line : Nat) : Nat :=
  match previous with
  | some block => if block.line = line then block.stop else line + 1
  | none => line + 1

/-- The block of a heredoc that is opened at `offset`; none without a terminator. -/
def of? (source : List Char) (previous : Option Block) (offset : Nat) (opener : HeredocOpener) :
    Option Block := do
  let line := lineEnd source offset
  let start := startBelow previous line
  let text ← Lexeme.dropBytes? start source
  let (body, rest) ← Lexeme.heredocBody opener.name opener.indented text
  return { line, start, stop := start + (byteLength text - byteLength rest), body }

end Block

/-- A token takes some of the lines of a heredoc. -/
def Taken.Meets (taken : Taken) (block : Block) : Prop :=
  max taken.first block.start < min taken.stop block.stop

theorem Taken.Meets.offset {taken : Taken} {block : Block} (meets : taken.Meets block) :
    ∃ offset, taken.takes offset ∧ block.start ≤ offset ∧ offset < block.stop := by
  refine ⟨max taken.first block.start, ⟨?_, ?_⟩, ?_, ?_⟩
  all_goals
    unfold Taken.Meets at meets
    omega

/-- Every heredoc has the text of its block, and no later token takes any of it. -/
def Isolated (source : List Char) : Option Block → List Taken → Prop
  | _, [] => True
  | previous, taken :: later =>
    match taken.opener? with
    | none => Isolated source previous later
    | some opener =>
      match Block.of? source previous taken.token.span.start opener with
      | none => False
      | some block =>
        block.line < block.start ∧
          taken.token.text = String.ofList (opener.textOf block.body) ∧
          (∀ other ∈ later, ¬ other.Meets block) ∧ Isolated source (some block) later

instance (taken : Taken) (block : Block) : Decidable (taken.Meets block) :=
  inferInstanceAs (Decidable (_ < _))

instance decidableIsolated (source : List Char) :
    (previous : Option Block) → (tokens : List Taken) → Decidable (Isolated source previous tokens)
  | _, [] => .isTrue trivial
  | previous, taken :: later =>
    show Decidable (match taken.opener? with | none => _ | some _ => _) from
    match taken.opener? with
    | none => decidableIsolated source previous later
    | some opener =>
      show Decidable (match Block.of? _ _ _ opener with | none => _ | some _ => _) from
      match Block.of? source previous taken.token.span.start opener with
      | none => .isFalse id
      | some block =>
        have := decidableIsolated source (some block) later
        inferInstanceAs (Decidable (_ ∧ _ ∧ (∀ other ∈ later, ¬ other.Meets block) ∧ _))

/-- A token other than a line break takes none of the line feed at `line`. -/
def Taken.Spares (taken : Taken) (line : Nat) : Prop :=
  taken.token.kind ≠ .newLine → ¬ taken.takes line

/-- A token runs over the end of the line of the last heredoc, into the lines below. -/
def Taken.Swallows (taken : Taken) (previous : Option Block) : Prop :=
  ∃ block, previous = some block ∧ ¬ taken.Spares block.line ∧ taken.takes (block.line + 1)

/-- No token runs over the end of a line on which a heredoc was opened before it. -/
def Undivided (source : List Char) (taken : List Taken) : Prop :=
  taken.Pairwise fun opened later =>
    opened.opener?.isSome = true → later.Spares (lineEnd source opened.token.span.start)

/-- The tokens of a source with the bytes that they take. -/
def takings (source : String) : List Taken :=
  Lexer.takings (source.toList.length + 1) (.ofSource source)

namespace Text

/-- No character of a part of a line breaks it. -/
theorem pass_of_inLine {line : List Char} (inLine : '\n' ∉ line) :
    ∀ c ∈ line, (!isLineBreak c) = true := by
  intro c member
  have other : c ≠ '\n' := fun same => inLine (same ▸ member)
  simp [isLineBreak, other]

/-- What comes before the first line feed. -/
theorem takeWhile_line (inLine : '\n' ∉ tail) (rest : List Char) :
    (tail ++ '\n' :: rest).takeWhile (!isLineBreak ·) = tail := by
  rw [List.takeWhile_append_of_pos (pass_of_inLine inLine),
    List.takeWhile_cons_of_neg (by simp [isLineBreak]), List.append_nil]

theorem line_unique (first : '\n' ∉ front) (second : '\n' ∉ tail)
    (same : front ++ '\n' :: rest = tail ++ '\n' :: others) : front = tail := by
  rw [← takeWhile_line first rest, same, takeWhile_line second]

/-- The front of a text ends on its first line or runs over the line feed. -/
theorem front_of_line (same : tail ++ '\n' :: below = front ++ rest) :
    (∃ left, tail = front ++ left ∧ rest = left ++ '\n' :: below) ∨
      ∃ beyond, front = tail ++ '\n' :: beyond ∧ below = beyond ++ rest := by
  obtain ⟨beyond, rfl, split⟩ | left := List.append_eq_append_iff.mp same
  · cases beyond with
    | nil => exact .inl ⟨[], by simp, split.symm⟩
    | cons c beyond =>
      obtain ⟨rfl, below⟩ := List.cons.inj split
      exact .inr ⟨beyond, rfl, below⟩
  · exact .inl left

/-- Where anything is left below the first line, the line ends in a line feed. -/
theorem line_split (below : text.drop ((text.takeWhile (!isLineBreak ·)).length + 1) ≠ []) :
    ∃ tail rest, text = tail ++ '\n' :: rest ∧ '\n' ∉ tail := by
  have split : text.takeWhile (!isLineBreak ·) ++ text.dropWhile (!isLineBreak ·) = text :=
    List.takeWhile_append_dropWhile
  have first := List.head?_dropWhile_not (!isLineBreak ·) text
  cases left : text.dropWhile (!isLineBreak ·) with
  | nil =>
    rw [left, List.append_nil] at split
    rw [split] at below
    exact absurd (List.drop_eq_nil_of_le (Nat.le_succ _)) below
  | cons c rest =>
    rw [left] at first split
    obtain rfl : c = '\n' := by simpa [isLineBreak] using first
    refine ⟨_, rest, split.symm, fun member => ?_⟩
    simpa [isLineBreak] using List.mem_takeWhile_imp member

end Text

theorem lineEnd_append (inLine : '\n' ∉ tail) (rest : List Char) :
    lineEnd (front ++ (tail ++ '\n' :: rest)) (byteLength front) = byteLength (front ++ tail) := by
  rw [lineEnd, Lexeme.dropBytes?_append, Option.getD_some, Text.takeWhile_line inLine,
    byteLength_append]

theorem pending_below (inLine : '\n' ∉ tail) (offset : Nat) (rest : List Char) :
    Lexeme.Pending.below offset (tail ++ '\n' :: rest) =
      { lineEnd := offset + byteLength tail, resume := offset + byteLength tail + 1, rest } := by
  simp only [Lexeme.Pending.below, Text.takeWhile_line inLine]
  simp

end RubySyntax
