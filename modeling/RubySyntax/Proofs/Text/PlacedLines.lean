import RubySyntax.Proofs.Lexeme.PlainHeredoc

namespace RubySyntax.Text

/-- A line begins behind `front`. -/
def AtLineStart (front : List Char) : Prop := front = [] ∨ ∃ above, front = above ++ ['\n']

/-- A line of a source, by the text in front of it and behind it. It begins where the source
does or behind a line feed, and goes on to the next line feed or to the end of the source. -/
structure Line (source : List Char) where
  front : List Char
  chars : List Char
  back : List Char
  whole : front ++ chars ++ back = source
  begins : AtLineStart front
  inLine : '\n' ∉ chars
  ends : back = [] ∨ ∃ below, back = '\n' :: below

/-- What ends where a line begins are lines with a line feed behind each. -/
theorem AtLineStart.closed {text : List Char} (begins : AtLineStart text) :
    ∃ lines, text = closeLines lines ∧ ∀ line ∈ lines, '\n' ∉ line := by
  obtain rfl | ⟨above, rfl⟩ := begins
  · exact ⟨[], rfl, by simp⟩
  · refine ⟨splitLines above, ?_, lineFeed_not_mem_splitLines above⟩
    rw [closeLines_eq (splitLines_ne_nil above), joinLines_splitLines]

theorem AtLineStart.append_closeLines {front : List Char} (begins : AtLineStart front)
    (lines : List (List Char)) : AtLineStart (front ++ closeLines lines) := by
  cases lines with
  | nil => simpa [closeLines] using begins
  | cons line lines =>
    refine .inr ⟨front ++ joinLines (line :: lines), ?_⟩
    rw [closeLines_eq (List.cons_ne_nil _ _), List.append_assoc]

theorem AtLineStart.behind {front middle : List Char} (begins : AtLineStart (front ++ middle)) :
    AtLineStart middle := by
  obtain rfl | ⟨between, c, rfl⟩ := List.eq_nil_or_concat middle
  · exact .inl rfl
  · rw [List.concat_eq_append] at begins ⊢
    obtain none | ⟨above, closed⟩ := begins
    · simp at none
    · rw [← List.append_assoc] at closed
      rw [(List.append_inj' closed rfl).2]
      exact .inr ⟨between, rfl⟩

theorem eq_nil_of_byteLength {text : List Char} (none : byteLength text = 0) : text = [] := by
  cases text with
  | nil => rfl
  | cons c text =>
    have wide := Char.utf8Size_pos c
    rw [byteLength_cons] at none
    omega

/-- Of the texts in front of two places in a source the shorter one is the front of the other. -/
theorem isPrefix_of_byteLength_le {front back upto rest : List Char}
    (same : front ++ back = upto ++ rest) (below : byteLength front ≤ byteLength upto) :
    front <+: upto := by
  obtain ⟨more, rfl, _⟩ | ⟨more, rfl, _⟩ := List.append_eq_append_iff.mp same
  · exact List.prefix_append _ _
  · rw [byteLength_append] at below
    obtain rfl := eq_nil_of_byteLength (show byteLength more = 0 by omega)
    simp

theorem closeLines_cons (line : List Char) (lines : List (List Char)) :
    closeLines (line :: lines) = line ++ '\n' :: closeLines lines := by
  simp [closeLines]

/-- Lines that are joined with others behind them are closed in front of those. -/
theorem joinLines_closeLines (above : List (List Char)) (line : List Char)
    (below : List (List Char)) :
    joinLines (above ++ line :: below) = closeLines above ++ joinLines (line :: below) := by
  induction above with
  | nil => rfl
  | cons head above ih =>
    have joined : joinLines (head :: (above ++ line :: below)) =
        head ++ '\n' :: joinLines (above ++ line :: below) := by
      cases above <;> rfl
    rw [List.cons_append, joined, ih, closeLines_cons, List.append_assoc, List.cons_append]

namespace Line

variable {source front text here : List Char} {lines above below : List (List Char)}

def start (line : Line source) : Nat := byteLength line.front

/-- The offset just past the line feed of a line, or the end of the source where the line has
none. -/
def stop (line : Line source) : Nat :=
  match line.back with
  | [] => byteLength source
  | feed :: _ => byteLength (line.front ++ line.chars ++ [feed])

/-- The lines that stand between an offset and a line. -/
structure Above (line : Line source) (first : Nat) (lines : List (List Char)) : Prop where
  inLines : ∀ other ∈ lines, '\n' ∉ other
  between : ∃ before, line.front = before ++ closeLines lines ∧ byteLength before = first

theorem Above.start_eq {line : Line source} (above : line.Above first lines) :
    line.start = first + byteLength (closeLines lines) := by
  obtain ⟨before, split, rfl⟩ := above.between
  rw [start, split, byteLength_append]

theorem exists_above (line : Line (front ++ text)) (below : byteLength front ≤ line.start) :
    ∃ lines, line.Above (byteLength front) lines := by
  obtain ⟨middle, split⟩ := isPrefix_of_byteLength_le
    ((line.whole.symm).trans (List.append_assoc _ _ _)) below
  have begins : AtLineStart (front ++ middle) := split ▸ line.begins
  obtain ⟨lines, rfl, inLines⟩ := begins.behind.closed
  exact ⟨lines, inLines, front, split.symm, rfl⟩

/-- A line is the first of those from its beginning on, and the others stand behind it. -/
theorem splitLines_rest (line : Line source) :
    ∃ below, splitLines (line.chars ++ line.back) = line.chars :: below ∧
      line.stop + byteLength (joinLines below) = byteLength source := by
  have whole := line.whole
  unfold stop
  obtain none | ⟨below, more⟩ := line.ends
  · rw [none, List.append_nil, splitLines_line line.inLine]
    exact ⟨[], rfl, rfl⟩
  · rw [more] at whole
    rw [more, splitLines_append, splitLines_line line.inLine]
    refine ⟨splitLines below, rfl, ?_⟩
    rw [joinLines_splitLines, ← byteLength_append, List.append_assoc]
    exact congrArg byteLength whole

theorem Above.splitLines_eq {line : Line (front ++ text)}
    (above : line.Above (byteLength front) lines) :
    ∃ below, splitLines text = lines ++ line.chars :: below ∧
      line.stop + byteLength (joinLines below) = byteLength (front ++ text) := by
  obtain ⟨before, split, size⟩ := above.between
  have whole := line.whole
  rw [split, List.append_assoc, List.append_assoc] at whole
  obtain rfl : front = before :=
    (isPrefix_of_byteLength_le whole.symm size.ge).eq_of_length_le
      (isPrefix_of_byteLength_le whole size.le).length_le
  obtain ⟨below, rest, left⟩ := line.splitLines_rest
  refine ⟨below, ?_, left⟩
  have same : text = closeLines lines ++ (line.chars ++ line.back) :=
    (List.append_cancel_left whole).symm
  rw [congrArg splitLines same, splitLines_closeLines above.inLines, rest]

/-- Where the text behind `front` is split there is a line. -/
theorem exists_line (begins : AtLineStart front)
    (split : splitLines text = above ++ here :: below) :
    ∃ line : Line (front ++ text), line.chars = here ∧ line.Above (byteLength front) above := by
  have inLines := lineFeed_not_mem_splitLines text
  have whole : text = closeLines above ++ joinLines (here :: below) := by
    rw [← joinLines_closeLines, ← split, joinLines_splitLines]
  rw [split, List.forall_mem_append, List.forall_mem_cons] at inLines
  obtain ⟨back, joined, ends⟩ : ∃ back, joinLines (here :: below) = here ++ back ∧
      (back = [] ∨ ∃ more, back = '\n' :: more) := by
    cases below with
    | nil => exact ⟨[], (List.append_nil here).symm, .inl rfl⟩
    | cons next below => exact ⟨_, rfl, .inr ⟨_, rfl⟩⟩
  rw [joined] at whole
  refine ⟨⟨front ++ closeLines above, here, back, ?_, begins.append_closeLines above,
    inLines.2.1, ends⟩, rfl, inLines.1, front, rfl, rfl⟩
  rw [whole, List.append_assoc, List.append_assoc]

/-- The lines from a place on are those that the text behind it is split into. -/
theorem forall_from_iff (begins : AtLineStart front) (p : List Char → Prop) :
    (∀ line : Line (front ++ text), byteLength front ≤ line.start → p line.chars) ↔
      ∀ line ∈ splitLines text, p line := by
  constructor
  · intro all line member
    obtain ⟨above, below, split⟩ := List.append_of_mem member
    obtain ⟨line, rfl, aboveLine⟩ := exists_line begins split
    exact all line (by rw [aboveLine.start_eq]; omega)
  · intro all line beyond
    obtain ⟨lines, above⟩ := line.exists_above beyond
    obtain ⟨below, split, _⟩ := above.splitLines_eq
    exact all line.chars (by simp [split])

end Line

end RubySyntax.Text
