import RubySyntax.Proofs.Bytes.Slice
import RubySyntax.Proofs.Lexer.Faithful
import RubySyntax.Proofs.Lexer.Line
import RubySyntax.Proofs.Lexer.Further

namespace RubySyntax

open Text (byteLength byteLength_append byteLength_cons byteLength_nil isLineBreak joinLines splitLines)

namespace Bytes

open Lexeme (heredocBody isTerminator)

/-- Where the line ends that opens a heredoc, and where the text goes on behind its
body. -/
structure Pending where
  lineEnd : Nat
  resume : Nat
deriving DecidableEq, Repr

/-- The text from `first` to the end of the line before the first terminator at
`lineStart` or below, and the offset behind the line of the terminator. -/
def textAbove (source : List Char) (first : Nat) (name : List Char) (indented : Bool)
    (lineStart : Nat) : Option (Option (List Char × Nat)) :=
  -- The recursive call is named as in `Scan.acceptRun`.
  letI textAbove : List Char → Nat → List Char → Bool → Nat →
    Option (Option (List Char × Nat)) := by apply textAbove
  if lineStart < byteLength source then do
    let lineEnd ← lineEndFrom source lineStart
    let line ← slice source lineStart lineEnd
    if isTerminator name indented line then
      let body ← slice source first (max (lineStart - 1) first)
      return some (body, min (lineEnd + 1) (byteLength source))
    else textAbove source first name indented (lineEnd + 1)
  else return none
partial_fixpoint

/-- The body of a heredoc that begins at `first`, and the offset behind the line of its
terminator. -/
def findBody (source : List Char) (first : Nat) (name : List Char) (indented : Bool) :
    Option (Option (List Char × Nat)) :=
  if name.isEmpty then return none else textAbove source first name indented first

variable {source front text name : List Char} {indented : Bool}

/-- The lines that were passed are the text between the first of them and the line
feed in front of the next line. -/
theorem slice_closeLines (front : List Char) (lines : List (List Char)) (back : List Char) :
    slice (front ++ Text.closeLines lines ++ back) (byteLength front)
        (max (byteLength (front ++ Text.closeLines lines) - 1) (byteLength front)) =
      some (joinLines lines) := by
  cases lines with
  | nil => simpa [Text.closeLines, joinLines] using slice_append front [] back
  | cons line lines =>
    rw [Text.closeLines_eq (List.cons_ne_nil line lines)]
    have size : byteLength (front ++ (joinLines (line :: lines) ++ ['\n'])) - 1 =
        byteLength (front ++ joinLines (line :: lines)) := by
      have feed : byteLength ['\n'] = 1 := rfl
      rw [← List.append_assoc, byteLength_append _ ['\n'], feed, Nat.add_sub_cancel]
    have order : byteLength front ≤ byteLength (front ++ joinLines (line :: lines)) := by simp
    rw [size, Nat.max_eq_left order]
    simpa using slice_append front (joinLines (line :: lines)) ('\n' :: back)

theorem lineEndFrom_line {line : List Char} (inLine : '\n' ∉ line) (front : List Char)
    (ends : text = [] ∨ ∃ below, text = '\n' :: below) :
    lineEndFrom (front ++ (line ++ text)) (byteLength front) = some (byteLength (front ++ line)) := by
  have passes : (line ++ text).takeWhile (fun c => !isLineBreak c) = line := by
    rcases ends with rfl | ⟨below, rfl⟩
    · rw [List.append_nil, List.takeWhile_eq_self_iff]
      exact Text.pass_of_inLine inLine
    · exact Text.takeWhile_line inLine below
  rw [lineEndFrom_append, passes, byteLength_append]

theorem textAbove_end (source : List Char) (first : Nat) {lineStart : Nat}
    (past : byteLength source ≤ lineStart) :
    textAbove source first name indented lineStart = some none := by
  rw [textAbove.eq_def, if_neg (Nat.not_lt.mpr past)]
  rfl

theorem textAbove_line {line : List Char} (named : name ≠ []) (inLine : '\n' ∉ line)
    (front : List Char) (lines : List (List Char)) (ends : text = [] ∨ ∃ below, text = '\n' :: below)
    (source : List Char) (whole : front ++ Text.closeLines lines ++ (line ++ text) = source) :
    textAbove source (byteLength front) name indented (byteLength (front ++ Text.closeLines lines)) =
      if isTerminator name indented line then
        some (some (joinLines lines,
          min (byteLength (front ++ Text.closeLines lines ++ line) + 1) (byteLength source)))
      else textAbove source (byteLength front) name indented
        (byteLength (front ++ Text.closeLines lines ++ line) + 1) := by
  subst whole
  by_cases left : line ++ text = []
  · obtain ⟨rfl, rfl⟩ := List.append_eq_nil_iff.mp left
    have other : isTerminator name indented [] = false :=
      Bool.eq_false_iff.mpr fun ends => Lexeme.isTerminator_ne_nil named ends rfl
    simp only [List.append_nil]
    rw [other, if_neg Bool.false_ne_true, textAbove_end _ _ (Nat.le_refl _),
      textAbove_end _ _ (Nat.le_succ _)]
  · have within : byteLength (front ++ Text.closeLines lines) <
        byteLength (front ++ Text.closeLines lines ++ (line ++ text)) := by
      have wide := Lexer.byteLength_pos left
      rw [byteLength_append _ (line ++ text)]
      omega
    rw [textAbove.eq_def, if_pos within, lineEndFrom_line inLine _ ends, Option.bind_eq_bind,
      Option.bind_some, ← List.append_assoc _ line, slice_append, List.append_assoc _ line,
      slice_closeLines]
    rfl

/-- The lines from the first terminator on, and the text above them. -/
theorem textAbove_lines (named : name ≠ []) (front : List Char) (passed lines : List (List Char))
    (inLines : ∀ line ∈ lines, '\n' ∉ line) (source : List Char)
    (whole : front ++ Text.closeLines passed ++ joinLines lines = source) (filled : lines ≠ []) :
    textAbove source (byteLength front) name indented (byteLength (front ++ Text.closeLines passed)) =
      some (match lines.drop (lines.takeWhile fun line => !isTerminator name indented line).length with
        | [] => none
        | _ :: after =>
          some (joinLines (passed ++ lines.takeWhile fun line => !isTerminator name indented line),
            byteLength source - byteLength (joinLines after))) := by
  induction lines generalizing passed with
  | nil => exact absurd rfl filled
  | cons line lines ih =>
    have inLine : '\n' ∉ line := inLines line List.mem_cons_self
    cases lines with
    | nil =>
      rw [textAbove_line named inLine front passed (.inl rfl) source (by simpa [joinLines] using whole)]
      have size : byteLength source = byteLength (front ++ Text.closeLines passed ++ line) := by
        rw [← whole, joinLines]
      cases ends : isTerminator name indented line with
      | true => simp [ends, size, joinLines]
      | false =>
        rw [if_neg Bool.false_ne_true, textAbove_end source _ (Nat.le_succ_of_le size.le)]
        simp [ends]
    | cons next more =>
      have split : front ++ Text.closeLines passed ++ (line ++ '\n' :: joinLines (next :: more)) =
          source := by
        rw [← whole, joinLines]
      rw [textAbove_line named inLine front passed (.inr ⟨_, rfl⟩) source split]
      have size : byteLength (front ++ Text.closeLines (passed ++ [line])) =
          byteLength (front ++ Text.closeLines passed ++ line) + 1 := by
        rw [Text.closeLines_concat, ← List.append_assoc, ← List.append_assoc, byteLength_append _ ['\n']]
        rfl
      have further : front ++ Text.closeLines (passed ++ [line]) ++ joinLines (next :: more) = source := by
        simpa [Text.closeLines_concat] using split
      cases ends : isTerminator name indented line with
      | true =>
        have total : byteLength source =
            byteLength (front ++ Text.closeLines passed ++ line) + 1 + byteLength (joinLines (next :: more)) := by
          rw [← further, byteLength_append _ (joinLines _), size]
        rw [if_pos rfl, List.takeWhile_cons_of_neg (by simp [ends]), List.append_nil, total,
          Nat.min_eq_left (Nat.le_add_right _ _)]
        show _ = some (some (joinLines passed, _ - byteLength (joinLines (next :: more))))
        rw [Nat.add_sub_cancel]
      | false =>
        have passes : (line :: next :: more).takeWhile (fun line => !isTerminator name indented line) =
            line :: (next :: more).takeWhile fun line => !isTerminator name indented line :=
          List.takeWhile_cons_of_pos (by simp [ends])
        rw [if_neg Bool.false_ne_true, passes, List.length_cons, List.drop_succ_cons,
          List.append_cons passed, ← size]
        exact ih (passed ++ [line]) (fun other member => inLines other (List.mem_cons_of_mem _ member))
          further (List.cons_ne_nil _ _)

/-- The body of a heredoc is looked for in the lines of the text. -/
theorem findBody_eq (front text name : List Char) (indented : Bool) :
    findBody (front ++ text) (byteLength front) name indented =
      some ((heredocBody name indented text).map fun found =>
        (found.1, byteLength (front ++ text) - byteLength found.2)) := by
  unfold findBody heredocBody
  cases named : name.isEmpty with
  | true => rfl
  | false =>
    rw [if_neg Bool.false_ne_true, if_neg Bool.false_ne_true]
    have found := @textAbove_lines name indented (by simpa using named) front [] (splitLines text)
      (Text.lineFeed_not_mem_splitLines text) (front ++ text)
      (by simp [Text.closeLines, Text.joinLines_splitLines]) (Text.splitLines_ne_nil text)
    rw [show front ++ Text.closeLines [] = front from List.append_nil front] at found
    rw [found]
    dsimp only
    cases (splitLines text).drop _ with
    | nil => rfl
    | cons line after => rfl

/-- The same bodies, by their offsets alone. -/
def Pending.of (pending : Lexeme.Pending) : Pending := ⟨pending.lineEnd, pending.resume⟩

/-- What is left to read behind the bodies is the source from `resume` on. -/
structure Placed (source : List Char) (pending : Lexeme.Pending) : Prop where
  below : pending.lineEnd < pending.resume
  rest : ∃ passed, source = passed ++ pending.rest ∧ pending.resume = byteLength passed

/-- Below its line a source goes on, or there is nothing to look for. -/
theorem below_placed (front input : List Char) :
    Placed (front ++ input) (.below (byteLength front) input) ∨
      (Lexeme.Pending.below (byteLength front) input).rest = [] ∧
        byteLength (front ++ input) < (Lexeme.Pending.below (byteLength front) input).resume := by
  have split : input.takeWhile (fun c => !isLineBreak c) ++ input.dropWhile (fun c => !isLineBreak c) =
      input := List.takeWhile_append_dropWhile
  have first := List.head?_dropWhile_not (fun c => !isLineBreak c) input
  unfold Lexeme.Pending.below
  dsimp only
  cases left : input.dropWhile fun c => !isLineBreak c with
  | nil =>
    rw [left, List.append_nil] at split
    refine .inr ⟨?_, ?_⟩
    · rw [split]
      exact List.drop_eq_nil_of_le (Nat.le_succ _)
    · rw [split, byteLength_append]
      exact Nat.lt_succ_self _
  | cons c rest =>
    rw [left] at first split
    obtain rfl : c = '\n' := by simpa [isLineBreak] using first
    refine .inl ⟨Nat.lt_succ_self _, front ++ input.takeWhile (fun c => !isLineBreak c) ++ ['\n'], ?_, ?_⟩
    · have behind : input.drop ((input.takeWhile fun c => !isLineBreak c).length + 1) = rest := by
        conv => lhs; arg 2; rw [← split]
        rw [← List.drop_drop, List.drop_left]
        rfl
      rw [behind, List.append_assoc, List.append_assoc, List.singleton_append, split]
    · rw [byteLength_append, byteLength_append]
      rfl

/-- Where the body of a heredoc begins. -/
theorem base_placed {input : List Char} {waiting : Option Lexeme.Pending}
    (placed : ∀ pending, waiting = some pending → Placed (front ++ input) pending) :
    Placed (front ++ input) (waiting.getD (.below (byteLength front) input)) ∨
      (waiting.getD (.below (byteLength front) input)).rest = [] ∧
        byteLength (front ++ input) < (waiting.getD (.below (byteLength front) input)).resume := by
  cases waiting with
  | none => exact below_placed front input
  | some pending => exact .inl (placed pending rfl)

/-- Behind a heredoc its body has been read ahead as well. -/
theorem heredoc_placed {input : List Char} {waiting : Option Lexeme.Pending}
    {bodies : Lexeme.Pending} {lexeme : Lexeme}
    (placed : ∀ pending, waiting = some pending → Placed (front ++ input) pending)
    (found : Lexeme.heredoc (byteLength front) waiting input = .ok (lexeme, bodies)) :
    Placed (front ++ input) bodies := by
  obtain ⟨opener, lines, rest, _, body, _, lineEnd, resume, rfl⟩ := Lexeme.heredoc_eq_ok found
  obtain ⟨region, filled, split⟩ := Lexeme.heredocBody_region body
  have place := base_placed placed
  generalize waiting.getD (.below (byteLength front) input) = start at *
  rcases place with ⟨below, passed, whole, begins⟩ | ⟨none, _⟩
  · constructor
    · omega
    · refine ⟨passed ++ region, ?_, ?_⟩
      · rw [whole, split, List.append_assoc]
      · rw [resume, begins, split, byteLength_append, byteLength_append, Nat.add_sub_cancel]
  · rw [none] at split
    exact absurd (List.append_eq_nil_iff.mp split.symm).1 filled

/-- The body of a heredoc is found from where the bodies before it end. -/
theorem findBody_start {start : Lexeme.Pending}
    (place : Placed source start ∨ start.rest = [] ∧ byteLength source < start.resume)
    (name : List Char) (indented : Bool) :
    findBody source start.resume name indented =
      some ((heredocBody name indented start.rest).map fun found =>
        (found.1, start.resume + (byteLength start.rest - byteLength found.2))) := by
  rcases place with ⟨_, passed, rfl, resume⟩ | ⟨none, past⟩
  · rw [resume, findBody_eq]
    cases found : heredocBody name indented start.rest with
    | none => rfl
    | some body =>
      obtain ⟨region, _, below⟩ := Lexeme.heredocBody_region found
      have order : byteLength body.2 ≤ byteLength start.rest := by simp [below]
      rw [Option.map_some, Option.map_some, byteLength_append, Nat.add_sub_assoc order]
  · unfold findBody
    rw [none]
    cases named : name.isEmpty with
    | true => simp [heredocBody, named]
    | false =>
      have other : isTerminator name indented [] = false :=
        Bool.eq_false_iff.mpr fun ends => Lexeme.isTerminator_ne_nil (by simpa using named) ends rfl
      rw [if_neg Bool.false_ne_true, textAbove_end _ _ past.le]
      simp [heredocBody, named, splitLines, other]

end Bytes

end RubySyntax
