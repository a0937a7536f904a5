import RubySyntax.Proofs.Text.PlacedLines

namespace RubySyntax

namespace Text

variable {line kept : List Char}

/-- Trimming leaves what does not begin with white space, behind nothing but white space. -/
theorem trimStart_eq_iff : trimStart line = kept ↔
    (∃ before, line = before ++ kept ∧ isWhite before = true) ∧
      kept.head?.any isWhiteSpace = false := by
  constructor
  · rintro rfl
    refine ⟨⟨line.takeWhile isWhiteSpace, List.takeWhile_append_dropWhile.symm, List.all_takeWhile⟩, ?_⟩
    have first := List.head?_dropWhile_not isWhiteSpace line
    unfold trimStart
    cases head : (line.dropWhile isWhiteSpace).head? with
    | none => rfl
    | some c =>
      rw [head] at first
      exact first
  · rintro ⟨⟨before, rfl, white⟩, visible⟩
    rw [trimStart, List.dropWhile_append_of_pos (List.all_eq_true.mp white)]
    cases kept with
    | nil => rfl
    | cons c kept => exact List.dropWhile_cons_of_neg (Bool.eq_false_iff.mp visible)

theorem trimEnd_eq_iff : trimEnd line = kept ↔
    (∃ behind, line = kept ++ behind ∧ isWhite behind = true) ∧
      kept.getLast?.any isWhiteSpace = false := by
  have turned : trimEnd line = kept ↔ trimStart line.reverse = kept.reverse :=
    List.reverse_eq_iff
  rw [turned, trimStart_eq_iff, List.head?_reverse]
  refine and_congr_left fun _ => ⟨?_, ?_⟩
  · rintro ⟨before, split, white⟩
    refine ⟨before.reverse, ?_, by simpa [isWhite] using white⟩
    rw [← List.reverse_reverse line, split, List.reverse_append, List.reverse_reverse]
  · rintro ⟨behind, rfl, white⟩
    exact ⟨behind.reverse, List.reverse_append, by simpa [isWhite] using white⟩

theorem trimStart_trimEnd_eq_iff : trimStart (trimEnd line) = kept ↔
    (∃ before behind, line = before ++ kept ++ behind ∧ isWhite before = true ∧
      isWhite behind = true) ∧
      kept.getLast?.any isWhiteSpace = false ∧ kept.head?.any isWhiteSpace = false := by
  rw [trimStart_eq_iff]
  constructor
  · rintro ⟨⟨before, trimmed, white⟩, opened⟩
    obtain ⟨⟨behind, split, blank⟩, closed⟩ := trimEnd_eq_iff.mp trimmed
    refine ⟨⟨before, behind, split, white, blank⟩, ?_, opened⟩
    cases last : kept.getLast? with
    | none => rfl
    | some c => rwa [List.getLast?_append, last] at closed
  · rintro ⟨⟨before, behind, split, white, blank⟩, closed, opened⟩
    refine ⟨?_, opened⟩
    cases last : kept.getLast? with
    | none =>
      -- Where nothing is kept, the white space in front is trimmed with that behind.
      obtain rfl := List.getLast?_eq_none_iff.mp last
      have all : isWhite line = true := by
        rw [split, List.append_nil, isWhite, List.all_append]
        exact Bool.and_eq_true_iff.mpr ⟨white, blank⟩
      exact ⟨[], trimEnd_eq_iff.mpr ⟨⟨line, rfl, all⟩, rfl⟩, rfl⟩
    | some c =>
      rw [last] at closed
      refine ⟨before, trimEnd_eq_iff.mpr ⟨⟨behind, split, blank⟩, ?_⟩, white⟩
      rwa [List.getLast?_append, last]

end Text

namespace Lexeme

open Text

variable {source front text name line : List Char} {indented : Bool}

/-- A line holds the name of a heredoc, with white space behind it and, where the terminator
may be indented, in front of it. A name that has white space there itself is on no line. -/
structure Terminates (name : List Char) (indented : Bool) (line : List Char) : Prop where
  held : ∃ before behind, line = before ++ name ++ behind ∧ isWhite before = true ∧
    isWhite behind = true ∧ (indented = false → before = [])
  closed : name.getLast?.any isWhiteSpace = false
  opened : indented = true → name.head?.any isWhiteSpace = false

theorem isTerminator_iff : isTerminator name indented line = true ↔ Terminates name indented line := by
  unfold isTerminator
  dsimp only
  cases indented with
  | false =>
    rw [if_neg Bool.false_ne_true, beq_iff_eq, trimEnd_eq_iff]
    constructor
    · rintro ⟨⟨behind, split, white⟩, closed⟩
      exact ⟨⟨[], behind, split, rfl, white, fun _ => rfl⟩, closed,
        fun marked => absurd marked Bool.false_ne_true⟩
    · rintro ⟨⟨before, behind, split, _, white, bare⟩, closed, _⟩
      rw [bare rfl] at split
      exact ⟨⟨behind, split, white⟩, closed⟩
  | true =>
    rw [if_pos rfl, beq_iff_eq, trimStart_trimEnd_eq_iff]
    constructor
    · rintro ⟨⟨before, behind, split, white, blank⟩, closed, opened⟩
      exact ⟨⟨before, behind, split, white, blank, fun bare => absurd bare.symm Bool.false_ne_true⟩,
        closed, fun _ => opened⟩
    · rintro ⟨⟨before, behind, split, white, blank, _⟩, closed, opened⟩
      exact ⟨⟨before, behind, split, white, blank⟩, closed, opened rfl⟩

theorem not_terminates_iff :
    ¬ Terminates name indented line ↔ (!isTerminator name indented line) = true := by
  rw [← isTerminator_iff, Bool.not_eq_true, Bool.not_eq_true']

/-- The first line from an offset on that holds the name of a heredoc. -/
structure FirstTerminator (name : List Char) (indented : Bool) (first : Nat)
    (line : Line source) : Prop where
  below : first ≤ line.start
  ends : Terminates name indented line.chars
  earliest : ∀ other : Line source, first ≤ other.start →
    Terminates name indented other.chars → line.start ≤ other.start

/-- The first line that holds the name stands below lines that do not. -/
theorem firstTerminator_iff {line : Line (front ++ text)} (begins : AtLineStart front)
    (above : line.Above (byteLength front) lines) :
    FirstTerminator name indented (byteLength front) line ↔
      Terminates name indented line.chars ∧ ∀ other ∈ lines, ¬ Terminates name indented other := by
  obtain ⟨below, split, _⟩ := above.splitLines_eq
  constructor
  · rintro ⟨_, ends, earliest⟩
    refine ⟨ends, fun other member terminates => ?_⟩
    -- A line above that holds the name begins earlier.
    obtain ⟨higher, lower, rfl⟩ := List.append_of_mem member
    rw [List.append_assoc, List.cons_append] at split
    obtain ⟨earlier, rfl, aboveEarlier⟩ := Line.exists_line begins split
    have order := earliest earlier (by rw [aboveEarlier.start_eq]; omega) terminates
    have feed : '\n'.utf8Size = 1 := rfl
    rw [aboveEarlier.start_eq, above.start_eq, closeLines_append, closeLines_cons] at order
    simp only [byteLength_append, byteLength_cons, feed] at order
    omega
  · rintro ⟨ends, passes⟩
    refine ⟨by rw [above.start_eq]; omega, ends, fun other beyond terminates => ?_⟩
    obtain ⟨lines', aboveOther⟩ := other.exists_above beyond
    obtain ⟨below', split', _⟩ := aboveOther.splitLines_eq
    rw [above.start_eq, aboveOther.start_eq]
    -- The other line is not among those above this one, so these stand above it as well.
    obtain ⟨more, rfl, _⟩ | ⟨more, rfl, left⟩ := List.append_eq_append_iff.mp (split.symm.trans split')
    · rw [closeLines_append, byteLength_append]
      omega
    · cases more with
      | nil => simp
      | cons next more =>
        obtain ⟨rfl, _⟩ := List.cons.inj left
        exact absurd terminates (passes _ (by simp))

variable {body rest : List Char}

/-- The body of a heredoc is the lines above the first that holds its name. -/
theorem heredocBody_eq_some_iff : heredocBody name indented text = some (body, rest) ↔
    name ≠ [] ∧ ∃ above last below, splitLines text = above ++ last :: below ∧
      Terminates name indented last ∧ (∀ line ∈ above, ¬ Terminates name indented line) ∧
      body = joinLines above ∧ rest = joinLines below := by
  simp only [heredocBody_eq_some, ← isTerminator_iff, Bool.not_eq_true]

theorem heredocBody_eq_none_iff : heredocBody name indented text = none ↔
    name = [] ∨ ∀ line ∈ splitLines text, ¬ Terminates name indented line := by
  unfold heredocBody
  by_cases named : name = []
  · simp [named]
  rw [if_neg (by simpa using named), or_iff_right named]
  dsimp only
  have whole := List.takeWhile_prefix (fun line => !isTerminator name indented line)
    (l := splitLines text)
  constructor
  · intro none
    split at none
    · rename_i left
      have all := whole.eq_of_length_le (List.drop_eq_nil_iff.mp left)
      exact fun line member => not_terminates_iff.mpr (List.takeWhile_eq_self_iff.mp all line member)
    · cases none
  · intro passes
    have all := List.takeWhile_eq_self_iff.mpr fun line member =>
      not_terminates_iff.mp (passes line member)
    rw [all, List.drop_length]

end Lexeme

end RubySyntax
