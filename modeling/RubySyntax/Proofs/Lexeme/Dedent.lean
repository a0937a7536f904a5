import RubySyntax.Proofs.Bytes.Slice
import RubySyntax.Proofs.Lexeme.PlainHeredoc

/-! The bodies of squiggly heredocs. Their lines lose the indentation that those that are
not blank have in common. It is measured in bytes, the line feed that ends a body goes
with the empty line behind it, and carriage returns go with the line feeds they stand
in front of. -/
namespace RubySyntax

open Text

/-- Lines that are joined are split where they were joined. -/
theorem Text.splitLines_joinLines {lines : List (List Char)} (some : lines ≠ [])
    (inLines : ∀ line ∈ lines, '\n' ∉ line) : splitLines (joinLines lines) = lines := by
  have closed := splitLines_closeLines inLines []
  rw [closeLines_eq some, List.append_nil, splitLines_append] at closed
  exact List.append_cancel_right closed

/-- A character in its last line is the end of a text. -/
theorem Text.splitLines_concat {c : Char} (visible : c ≠ '\n') (text : List Char) :
    ∃ lines last, splitLines (text ++ [c]) = lines ++ [last ++ [c]] := by
  induction text with
  | nil => exact ⟨[], [], by simp [splitLines, visible]⟩
  | cons d text ih =>
    obtain ⟨lines, last, split⟩ := ih
    rw [List.cons_append, splitLines, split]
    split
    · exact ⟨[] :: lines, last, rfl⟩
    · cases lines with
      | nil => exact ⟨[], d :: last, rfl⟩
      | cons line lines => exact ⟨(d :: line) :: lines, last, rfl⟩

namespace Lexeme

variable {line body : List Char} {lines : List (List Char)}

theorem dropReturn_cases (line : List Char) :
    dropReturn line = line ∨ ∃ front, line = front ++ ['\r'] ∧ dropReturn line = front := by
  unfold dropReturn
  split
  · rename_i ended
    obtain ⟨front, rfl⟩ := List.getLast?_eq_some_iff.mp (beq_iff_eq.mp ended)
    exact .inr ⟨front, rfl, by simp⟩
  · exact .inl rfl

theorem isWhite_dropReturn (line : List Char) : isWhite (dropReturn line) = isWhite line := by
  obtain same | ⟨front, rfl, same⟩ := dropReturn_cases line
  · rw [same]
  · rw [same]
    simp [isWhite, isWhiteSpace]

/-- The carriage return behind a line that is not blank is no part of its indentation. -/
theorem takeWhile_dropReturn (visible : isWhite line = false) :
    (dropReturn line).takeWhile isWhiteSpace = line.takeWhile isWhiteSpace := by
  obtain same | ⟨front, rfl, same⟩ := dropReturn_cases line
  · rw [same]
  · rw [← isWhite_dropReturn, same] at visible
    rw [same, List.takeWhile_append, if_neg]
    intro whole
    have all := List.takeWhile_eq_self_iff.mp ((List.takeWhile_prefix _).eq_of_length whole)
    exact Bool.false_ne_true (visible.symm.trans (List.all_eq_true.mpr all))

/-- The lines of a body, those that are broken without the carriage returns of their breaks. -/
def brokenLines (body : List Char) : List (List Char) :=
  (splitLines body).dropLast.map dropReturn ++ (splitLines body).getLast?.toList

/-- The lines above the last one, and the last one; it is empty behind a line feed. -/
theorem splitLines_parts (body : List Char) :
    ∃ lines last, splitLines body = lines ++ [last] ∧ brokenLines body = lines.map dropReturn ++ [last] ∧
      (body.getLast? = some '\n' → last = [] ∧ lines ≠ []) ∧
      (body.getLast? ≠ some '\n' → last = [] → lines = []) := by
  obtain none | ⟨lines, last, split⟩ := List.eq_nil_or_concat (splitLines body)
  · exact absurd none (splitLines_ne_nil body)
  · rw [List.concat_eq_append] at split
    refine ⟨lines, last, split, by simp [brokenLines, split], fun feed => ?_, fun closed empty => ?_⟩
    · obtain ⟨front, rfl⟩ := List.getLast?_eq_some_iff.mp feed
      rw [splitLines_append] at split
      obtain ⟨rfl, ended⟩ := List.append_inj' split rfl
      cases ended
      exact ⟨rfl, splitLines_ne_nil front⟩
    · obtain rfl | ⟨front, c, rfl⟩ := List.eq_nil_or_concat body
      · have split : [] ++ [[]] = lines ++ [last] := split
        exact (List.append_inj' split rfl).1.symm
      · rw [List.concat_eq_append, List.getLast?_concat] at closed
        obtain ⟨others, further, same⟩ := splitLines_concat (fun same => closed (congrArg some same)) front
        rw [List.concat_eq_append, same] at split
        have ended := (List.append_inj' split rfl).2
        simp [empty] at ended

theorem mem_brokenLines_inLine (body : List Char) : ∀ line ∈ brokenLines body, '\n' ∉ line := by
  obtain ⟨lines, last, split, broken, _⟩ := splitLines_parts body
  have inLines := lineFeed_not_mem_splitLines body
  rw [split] at inLines
  rw [broken]
  intro line member feed
  obtain ⟨other, above, rfl⟩ | rfl : (∃ other ∈ lines, dropReturn other = line) ∨ line = last := by
    simpa using member
  · refine inLines other (List.mem_append_left _ above) ?_
    obtain same | ⟨front, rfl, same⟩ := dropReturn_cases other
    · rwa [← same]
    · rw [same] at feed
      exact List.mem_append_left _ feed
  · exact inLines line (List.mem_append_right _ List.mem_cons_self) feed

/-- A body without a carriage return in front of a line feed is broken where it is split. -/
theorem brokenLines_eq_iff : brokenLines body = splitLines body ↔ ¬ ['\r', '\n'] <:+: body := by
  obtain ⟨lines, last, split, broken, _⟩ := splitLines_parts body
  have kept : lines.map dropReturn = lines ↔ ∀ line ∈ lines, dropReturn line = line := by
    rw [← List.map_inj_left, List.map_id']
  rw [broken, split, List.append_left_inj, kept]
  constructor
  · rintro kept ⟨front, back, rfl⟩
    obtain ⟨above, line, returned⟩ := splitLines_concat (show '\r' ≠ '\n' by decide) front
    obtain ⟨below, final, ended, _⟩ := splitLines_parts back
    have whole : front ++ ['\r', '\n'] ++ back = (front ++ ['\r']) ++ '\n' :: back := by simp
    rw [whole, splitLines_append, returned, ended, ← List.append_assoc] at split
    obtain ⟨rfl, _⟩ := List.append_inj' split rfl
    have same := kept (line ++ ['\r']) (by simp)
    simp [dropReturn] at same
  · intro noReturn line member
    obtain same | ⟨front, rfl, _⟩ := dropReturn_cases line
    · exact same
    · obtain ⟨above, below, rfl⟩ := List.append_of_mem member
      obtain ⟨passed, joined⟩ := joinLines_append above (front ++ ['\r']) (below ++ [last])
      obtain ⟨more, further⟩ : ∃ more, joinLines ((front ++ ['\r']) :: (below ++ [last])) =
          front ++ ['\r', '\n'] ++ more := by
        cases below <;> exact ⟨_, by simp [joinLines]; rfl⟩
      refine absurd ⟨passed ++ front, more, ?_⟩ noReturn
      rw [List.append_assoc, List.cons_append] at split
      rw [← joinLines_splitLines body, split, joined, further]
      simp

/-- The white space that each line begins with that is not blank. -/
def margins (lines : List (List Char)) : List (List Char) :=
  (lines.filter fun line => !isWhite line).map (·.takeWhile isWhiteSpace)

/-- The size of the smallest margin; zero where all lines are blank. -/
def leastMargin (size : List Char → Nat) (lines : List (List Char)) : Nat :=
  ((margins lines).map size).min?.getD 0

theorem leastMargin_le (size : List Char → Nat) (member : line ∈ lines)
    (visible : isWhite line = false) :
    leastMargin size lines ≤ size (line.takeWhile isWhiteSpace) := by
  have counted : size (line.takeWhile isWhiteSpace) ∈ (margins lines).map size :=
    List.mem_map_of_mem (List.mem_map_of_mem (List.mem_filter.mpr ⟨member, by simp [visible]⟩))
  unfold leastMargin
  cases smallest : ((margins lines).map size).min? with
  | none => exact Nat.zero_le _
  | some value => exact (List.min?_eq_some_iff.mp smallest).2 _ counted

theorem margins_append (front back : List (List Char)) :
    margins (front ++ back) = margins front ++ margins back := by
  simp [margins]

theorem margins_dropReturn (lines : List (List Char)) :
    margins (lines.map dropReturn) = margins lines := by
  induction lines with
  | nil => rfl
  | cons line lines ih =>
    have first : margins [dropReturn line] = margins [line] := by
      cases visible : isWhite line with
      | true => simp [margins, isWhite_dropReturn, visible]
      | false => simp [margins, isWhite_dropReturn, takeWhile_dropReturn visible, visible]
    rw [List.map_cons, ← List.singleton_append, margins_append, ih, first, ← margins_append]
    rfl

theorem margins_brokenLines (body : List Char) : margins (brokenLines body) = margins (splitLines body) := by
  obtain ⟨lines, last, split, broken, _⟩ := splitLines_parts body
  rw [broken, split, margins_append, margins_append, margins_dropReturn]

theorem bodyLines_concat (split : splitLines body = lines ++ [line]) :
    bodyLines body = lines.map dropReturn ++ if line = [] then [] else [line] := by
  unfold bodyLines
  simp only [split, List.dropLast_concat, List.getLast?_concat]
  split
  · rename_i absurd
    cases absurd
  · rename_i empty
    cases empty
    simp
  · rename_i visible same
    cases same
    rw [if_neg visible]

theorem margins_bodyLines (body : List Char) : margins (bodyLines body) = margins (splitLines body) := by
  obtain ⟨lines, last, split, _⟩ := splitLines_parts body
  rw [bodyLines_concat split, split, margins_append, margins_append, margins_dropReturn]
  split
  · rename_i empty
    rw [empty]
    rfl
  · rfl

/-- How many bytes are taken from each line of a body. -/
def commonBytes (body : List Char) : Nat := leastMargin byteLength (splitLines body)

/-- How many characters of white space the lines of a body have in common in front of them. -/
def commonIndent (body : List Char) : Nat := leastMargin List.length (splitLines body)

theorem dedent_eq (body : List Char) :
    dedent body = joinLines ((bodyLines body).map (outdent (commonBytes body))) := by
  have measured : ((bodyLines body).filter fun line => !isWhite line).map indentation =
      (margins (bodyLines body)).map byteLength := by
    rw [margins, List.map_map]
    rfl
  unfold dedent
  simp only [measured, margins_bodyLines]
  rfl

theorem outdent_suffix (count : Nat) (line : List Char) : outdent count line <:+ line := by
  unfold outdent
  cases dropped : dropBytes? count line with
  | none => exact List.dropWhile_suffix _
  | some rest =>
    obtain ⟨front, rfl, _⟩ := Bytes.dropBytes?_eq_some dropped
    exact List.suffix_append _ _

theorem inLine_outdent {line : List Char} (count : Nat) (inLine : '\n' ∉ line) :
    '\n' ∉ outdent count line := fun feed => inLine ((outdent_suffix count line).subset feed)

/-- The lines of a body that ends in no line feed are its broken lines, each outdented. -/
theorem splitLines_dedent (closed : body.getLast? ≠ some '\n') :
    splitLines (dedent body) = (brokenLines body).map (outdent (commonBytes body)) := by
  obtain ⟨lines, last, split, broken, _, bare⟩ := splitLines_parts body
  rw [dedent_eq, bodyLines_concat split]
  split
  · rename_i empty
    have none : [] = outdent (commonBytes body) [] := (List.suffix_nil.mp (outdent_suffix _ _)).symm
    rw [broken, bare closed empty, empty]
    simp [joinLines, splitLines, ← none]
  · rw [← broken]
    refine splitLines_joinLines (by simp [broken]) fun line member => ?_
    obtain ⟨other, within, rfl⟩ := List.mem_map.mp member
    exact inLine_outdent _ (mem_brokenLines_inLine body other within)

/-- The line behind the line feed that ends a body is lost. -/
theorem length_dedent_of_feed (feed : body.getLast? = some '\n') :
    (splitLines (dedent body)).length + 1 = (brokenLines body).length := by
  obtain ⟨lines, last, split, broken, ends, _⟩ := splitLines_parts body
  obtain ⟨empty, some⟩ := ends feed
  have inLines := mem_brokenLines_inLine body
  rw [broken] at inLines
  rw [dedent_eq, bodyLines_concat split, if_pos empty, List.append_nil, broken,
    splitLines_joinLines (by simpa using some)]
  · simp
  · intro line member
    obtain ⟨other, within, rfl⟩ := List.mem_map.mp member
    exact inLine_outdent _ (inLines other (List.mem_append_left _ within))

/-- The first `count` characters of a line are `bytes` bytes long, or else no front of the
line is, and it begins with no more than `count` characters of white space. -/
def Aligned (count bytes : Nat) (line : List Char) : Prop :=
  byteLength (line.take count) = bytes ∨
    (∀ front, front <+: line → byteLength front ≠ bytes) ∧
      (line.takeWhile isWhiteSpace).length ≤ count

/-- As many characters as these are taken from a line exactly if it is aligned. -/
theorem outdent_eq_drop_iff {count bytes : Nat}
    (visible : isWhite line = false → count ≤ (line.takeWhile isWhiteSpace).length) :
    outdent bytes line = line.drop count ↔ Aligned count bytes line := by
  have cut (front back : List Char) (same : line = front ++ back) :
      dropBytes? (byteLength front) line = some back := by
    rw [same, dropBytes?_append]
  have taken := cut (line.take count) (line.drop count) (List.take_append_drop _ _).symm
  unfold outdent Aligned
  cases dropped : dropBytes? bytes line with
  | some rest =>
    obtain ⟨front, whole, rfl⟩ := Bytes.dropBytes?_eq_some dropped
    have start : rest = line.drop front.length := by rw [whole, List.drop_left]
    constructor
    · intro same
      refine .inl (congrArg byteLength ?_)
      have bounds := List.drop_eq_drop_iff.mp (start.symm.trans same)
      rw [List.take_eq_take_iff.mpr bounds.symm, whole, List.take_left]
    · rintro (same | ⟨none, _⟩)
      · rw [same, dropped] at taken
        exact Option.some.inj taken
      · exact absurd rfl (none front ⟨rest, whole.symm⟩)
  | none =>
    have none (front : List Char) (leads : front <+: line) : byteLength front ≠ bytes := by
      rintro rfl
      obtain ⟨back, whole⟩ := leads
      rw [cut front back whole.symm] at dropped
      cases dropped
    have trimmed : trimStart line = line.drop (line.takeWhile isWhiteSpace).length := by
      have left := @List.drop_left _ (line.takeWhile isWhiteSpace) (line.dropWhile isWhiteSpace)
      rw [List.takeWhile_append_dropWhile] at left
      exact left.symm
    have within := (List.takeWhile_prefix isWhiteSpace : _ <+: line).length_le
    rw [Option.getD_none, trimmed, List.drop_eq_drop_iff]
    constructor
    · intro bounds
      exact .inr ⟨none, by omega⟩
    · rintro (same | ⟨_, narrow⟩)
      · exact absurd same (none _ (List.take_prefix _ _))
      · cases blank : isWhite line with
        | false => rw [Nat.le_antisymm narrow (visible blank)]
        | true =>
          rw [List.takeWhile_eq_self_iff.mpr (List.all_eq_true.mp blank)] at narrow ⊢
          omega

/-- The lines of a squiggly heredoc's body, the carriage returns of their breaks apart, lose
the characters of white space that they have in common, and nothing else, exactly if the body
does not end in a line feed and these characters are as many bytes as are taken from every
line. A body has no such carriage returns unless one stands in front of a line feed. -/
theorem dedent_lines_iff (body : List Char) :
    (splitLines (dedent body) = (brokenLines body).map (List.drop (commonIndent body)) ↔
      body.getLast? ≠ some '\n' ∧
        ∀ line ∈ brokenLines body, Aligned (commonIndent body) (commonBytes body) line) ∧
      (brokenLines body = splitLines body ↔ ¬ ['\r', '\n'] <:+: body) := by
  refine ⟨?_, brokenLines_eq_iff⟩
  by_cases feed : body.getLast? = some '\n'
  · refine iff_of_false (fun same => ?_) fun ⟨closed, _⟩ => closed feed
    have shorter := length_dedent_of_feed feed
    rw [same, List.length_map] at shorter
    omega
  · rw [splitLines_dedent feed, List.map_inj_left, and_iff_right feed]
    refine forall₂_congr fun line member => outdent_eq_drop_iff fun visible => ?_
    have least := leastMargin_le List.length member visible
    rwa [leastMargin, margins_brokenLines] at least

/-- A blank line at the end of a body is lost. -/
theorem not_dedent_lines_of_blank_end :
    splitLines (dedent "a\n".toList) ≠
      (splitLines "a\n".toList).map (List.drop (commonIndent "a\n".toList)) := by
  decide +kernel

end Lexeme

end RubySyntax
