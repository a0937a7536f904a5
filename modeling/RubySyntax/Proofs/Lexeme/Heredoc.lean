import RubySyntax.Proofs.Lexeme.Read

namespace RubySyntax.Text

/-- Lines joined with others behind them are text in front of those. -/
theorem joinLines_append (front : List (List Char)) (line : List Char) (lines : List (List Char)) :
    ∃ passed, joinLines (front ++ line :: lines) = passed ++ joinLines (line :: lines) := by
  induction front with
  | nil => exact ⟨[], rfl⟩
  | cons head front ih =>
    obtain ⟨passed, same⟩ := ih
    refine ⟨head ++ '\n' :: passed, ?_⟩
    rw [List.append_assoc, List.cons_append, List.cons_append, ← same]
    cases front <;> rfl

theorem joinLines_cons_suffix (line : List Char) (lines : List (List Char)) :
    ∃ passed, line <+: passed ∧ joinLines (line :: lines) = passed ++ joinLines lines := by
  cases lines with
  | nil => exact ⟨line, List.prefix_rfl, (List.append_nil line).symm⟩
  | cons next lines =>
    exact ⟨line ++ ['\n'], List.prefix_append _ _, by simp [joinLines]⟩

/-- Where lines end, the text falls apart into theirs. -/
theorem splitLines_append (front back : List Char) :
    splitLines (front ++ '\n' :: back) = splitLines front ++ splitLines back := by
  induction front with
  | nil => rfl
  | cons c front ih =>
    rw [List.cons_append, splitLines, splitLines, ih]
    split
    · rfl
    · cases lines : splitLines front with
      | nil => exact absurd lines (splitLines_ne_nil front)
      | cons line lines => rfl

theorem lineFeed_not_mem_splitLines (text : List Char) :
    ∀ line ∈ splitLines text, '\n' ∉ line := by
  induction text with
  | nil => simp [splitLines]
  | cons c rest ih =>
    rw [splitLines]
    split
    · simpa using ih
    · rename_i visible
      cases lines : splitLines rest with
      | nil => simpa using Ne.symm visible
      | cons line others =>
        rw [lines] at ih
        simpa [Ne.symm visible] using ih

def closeLines (lines : List (List Char)) : List Char := lines.flatMap (· ++ ['\n'])

theorem closeLines_eq {lines : List (List Char)} (some : lines ≠ []) :
    closeLines lines = joinLines lines ++ ['\n'] := by
  induction lines with
  | nil => exact absurd rfl some
  | cons line others ih =>
    cases others with
    | nil => simp [closeLines, joinLines]
    | cons next more =>
      rw [closeLines, List.flatMap_cons]
      show line ++ ['\n'] ++ closeLines (next :: more) = _
      rw [ih (List.cons_ne_nil _ _)]
      simp [joinLines]

theorem closeLines_append (front back : List (List Char)) :
    closeLines (front ++ back) = closeLines front ++ closeLines back := List.flatMap_append

theorem closeLines_concat (lines : List (List Char)) (line : List Char) :
    closeLines (lines ++ [line]) = closeLines lines ++ line ++ ['\n'] := by
  simp [closeLines]

end RubySyntax.Text

namespace RubySyntax.Lexeme

open Text

theorem isTerminator_ne_nil {name : List Char} (named : name ≠ [])
    (ends : isTerminator name indented line = true) : line ≠ [] := by
  rintro rfl
  have trimmed : [] = name := by simpa [isTerminator, trimEnd, trimStart] using ends
  exact named trimmed.symm

/-- The lines in front of the first that does not satisfy `p`, and that one. -/
theorem takeWhile_split {p : List Char → Bool} {lines : List (List Char)}
    (split : lines.drop (lines.takeWhile p).length = line :: after) :
    p line = false ∧ lines = lines.takeWhile p ++ line :: after := by
  have whole : lines.takeWhile p ++ line :: after = lines := by
    rw [← split]
    exact List.prefix_iff_eq_append.mp (List.takeWhile_prefix p)
  have dropped : lines.dropWhile p = line :: after :=
    List.append_cancel_left ((List.takeWhile_append_dropWhile).trans whole.symm)
  have refused := List.head?_dropWhile_not p lines
  rw [dropped] at refused
  exact ⟨refused, whole.symm⟩

/-- Lines fall apart at the first of them that does not satisfy `p`. -/
theorem drop_takeWhile_eq_cons_iff {p : List Char → Bool} {lines above below : List (List Char)}
    {last : List Char} : lines.takeWhile p = above ∧ lines.drop above.length = last :: below ↔
      lines = above ++ last :: below ∧ (∀ line ∈ above, p line = true) ∧ p last = false := by
  constructor
  · rintro ⟨rfl, left⟩
    obtain ⟨refused, whole⟩ := takeWhile_split left
    exact ⟨whole, fun line member => List.mem_takeWhile_imp member, refused⟩
  · rintro ⟨rfl, passes, refused⟩
    have front : (above ++ last :: below).takeWhile p = above := by
      rw [List.takeWhile_append_of_pos passes, List.takeWhile_cons_of_neg (by simp [refused]),
        List.append_nil]
    exact ⟨front, List.drop_left⟩

/-- The body of a heredoc is the lines above the first that ends it. -/
theorem heredocBody_eq_some {name text body rest : List Char} :
    heredocBody name indented text = some (body, rest) ↔
      name ≠ [] ∧ ∃ above last below, splitLines text = above ++ last :: below ∧
        isTerminator name indented last = true ∧
        (∀ line ∈ above, isTerminator name indented line = false) ∧
        body = joinLines above ∧ rest = joinLines below := by
  unfold heredocBody
  by_cases named : name = []
  · simp [named]
  rw [if_neg (by simpa using named)]
  dsimp only
  constructor
  · intro found
    split at found
    · cases found
    · rename_i last below left
      obtain ⟨rfl, rfl⟩ := Prod.mk.inj (Option.some.inj found)
      obtain ⟨split, passes, refused⟩ := drop_takeWhile_eq_cons_iff.mp ⟨rfl, left⟩
      refine ⟨named, _, last, below, split, by simpa using refused, ?_, rfl, rfl⟩
      exact fun line member => by simpa using passes line member
  · rintro ⟨_, above, last, below, split, ends, passes, rfl, rfl⟩
    have passes : ∀ line ∈ above, (!isTerminator name indented line) = true := by
      intro line member
      rw [passes line member, Bool.not_false]
    obtain ⟨front, left⟩ := drop_takeWhile_eq_cons_iff.mpr ⟨split, passes, by simp [ends]⟩
    rw [front, left]

/-- A body and its terminator are text in front of what follows them. -/
theorem heredocBody_region {name text : List Char}
    (found : heredocBody name indented text = some (lines, rest)) :
    ∃ region, region ≠ [] ∧ text = region ++ rest := by
  obtain ⟨named, above, last, below, split, ends, _, _, rfl⟩ := heredocBody_eq_some.mp found
  obtain ⟨passed, joined⟩ := joinLines_append above last below
  obtain ⟨ended, terminator, behind⟩ := joinLines_cons_suffix last below
  refine ⟨passed ++ ended, ?_, ?_⟩
  · intro none
    rw [(List.append_eq_nil_iff.mp none).2] at terminator
    exact isTerminator_ne_nil named ends (List.prefix_nil.mp terminator)
  · rw [List.append_assoc, ← behind, ← joined, ← split, joinLines_splitLines]

theorem dropBytes?_append (front back : List Char) :
    dropBytes? (byteLength front) (front ++ back) = some back := by
  induction front with
  | nil => cases back <;> rfl
  | cons c front ih =>
    have wide := Char.utf8Size_pos c
    rw [byteLength_cons, List.cons_append]
    obtain ⟨count, same⟩ : ∃ count, c.utf8Size + byteLength front = count + 1 :=
      ⟨c.utf8Size + byteLength front - 1, by omega⟩
    rw [same, dropBytes?, if_pos (by omega)]
    rwa [show count + 1 - c.utf8Size = byteLength front by omega]

/-- What is left to read for the first heredoc of a line: the lines below it. -/
def Pending.below (offset : Nat) (input : List Char) : Pending :=
  let toLineEnd := input.takeWhile fun c => !isLineBreak c
  { lineEnd := offset + byteLength toLineEnd
    resume := offset + byteLength toLineEnd + 1
    rest := input.drop (toLineEnd.length + 1) }

def HeredocOpener.textOf (opener : HeredocOpener) (lines : List Char) : List Char :=
  if opener.squiggly then dedent lines else lines

/-- A heredoc is read from behind the bodies of its line that were read before. -/
theorem heredoc_eq_ok {bodies : Pending}
    (found : heredoc offset pending input = .ok (lexeme, bodies)) :
    ∃ opener lines rest, heredocOpener input = .ok opener ∧
      heredocBody opener.name opener.indented (pending.getD (.below offset input)).rest =
        some (lines, rest) ∧
      lexeme = { kind := .literal opener.kind, body := opener.chars, text := opener.textOf lines } ∧
      bodies.lineEnd = (pending.getD (.below offset input)).lineEnd ∧
      bodies.resume = (pending.getD (.below offset input)).resume +
        (byteLength (pending.getD (.below offset input)).rest - byteLength rest) ∧
      bodies.rest = rest := by
  unfold heredoc at found
  cases opened : heredocOpener input with
  | error fault =>
    rw [opened] at found
    cases found
  | ok opener =>
    rw [opened] at found
    simp only [Except.bind] at found
    split at found
    · cases found
    · rename_i lines rest body
      cases found
      exact ⟨opener, lines, rest, rfl, body, rfl, rfl, rfl, rfl⟩

/-- The opener of the heredoc that stands at the front of the input, if one does. -/
def opener? (context : Context) (input : List Char) : Option HeredocOpener :=
  if !context.namesMethod && heredocFollows context input then (heredocOpener input).toOption
  else none

/-- What is read is a heredoc, the end of the text, or what its first character says. -/
theorem read_cases {bodies : Option Pending}
    (found : read context offset pending input = .ok (lexeme, bodies)) :
    (∃ after, (!context.namesMethod && heredocFollows context input) = true ∧
        heredoc offset pending input = .ok (lexeme, after) ∧ bodies = some after) ∨
      (!context.namesMethod && heredocFollows context input) = false ∧ bodies = pending ∧
        (input = [] ∧ lexeme = { kind := .endOfFile, body := [] } ∨
          ∃ c rest, input = c :: rest ∧ readFrom context c (c :: rest) = .ok lexeme) := by
  unfold read at found
  split at found
  · rename_i follows
    obtain ⟨⟨lexeme, after⟩, heredocRead, same⟩ := ok_of_map found
    cases same
    exact .inl ⟨after, follows, heredocRead, rfl⟩
  · rename_i absent
    have absent := Bool.eq_false_iff.mpr absent
    cases input with
    | nil =>
      cases found
      exact .inr ⟨absent, rfl, .inl ⟨rfl, rfl⟩⟩
    | cons c rest =>
      obtain ⟨lexeme, plain, same⟩ := ok_of_map found
      cases same
      exact .inr ⟨absent, rfl, .inr ⟨c, rest, rfl, plain⟩⟩

/-- Only a heredoc changes what is read ahead. -/
theorem read_eq_ok {bodies : Option Pending}
    (found : read context offset pending input = .ok (lexeme, bodies)) :
    (opener? context input = none ∧ bodies = pending) ∨
      ∃ opener after, opener? context input = some opener ∧ bodies = some after ∧
        opener.Sound input ∧ heredocOpener input = .ok opener ∧
        heredoc offset pending input = .ok (lexeme, after) := by
  obtain ⟨after, follows, heredocRead, later⟩ | ⟨absent, kept, _⟩ := read_cases found
  · obtain ⟨opener, _, _, opened, _⟩ := heredoc_eq_ok heredocRead
    have sound := heredocOpener_sound (heredocFollows_front (Bool.and_eq_true_iff.mp follows).2)
    rw [opened] at sound
    exact .inr ⟨opener, after, by simp [opener?, follows, opened, Except.toOption], later, sound,
      opened, heredocRead⟩
  · exact .inl ⟨by simp [opener?, absent], kept⟩

theorem pending_of_plain {bodies : Option Pending}
    (found : read context offset pending input = .ok (lexeme, bodies))
    (plain : opener? context input = none) : bodies = pending := by
  obtain ⟨_, kept⟩ | ⟨_, _, opens, _⟩ := read_eq_ok found
  · exact kept
  · rw [plain] at opens
    cases opens

end RubySyntax.Lexeme
