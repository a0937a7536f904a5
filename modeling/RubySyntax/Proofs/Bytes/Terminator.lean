import RubySyntax.Proofs.Bytes.HeredocBody
import RubySyntax.Proofs.Lexeme.Terminator

namespace RubySyntax.Bytes

open Text (AtLineStart Line byteLength byteLength_append eq_nil_of_byteLength joinLines splitLines)
open Lexeme (FirstTerminator Terminates dropBytes? dropBytes?_append firstTerminator_iff heredocBody
  heredocBody_eq_none_iff heredocBody_eq_some_iff isTerminator_iff isTerminator_ne_nil)

variable {source name body : List Char} {first resume : Nat} {indented : Bool}

def StartsLine (source : List Char) (offset : Nat) : Prop :=
  ∃ front back, source = front ++ back ∧ offset = byteLength front ∧ AtLineStart front

/-- The body of a heredoc that is looked for from an offset on, and the offset behind its
terminator: the first line that holds the name is the terminator, and the lines that stand
above it are the body. -/
def BodyAt (source : List Char) (first : Nat) (name : List Char) (indented : Bool)
    (body : List Char) (resume : Nat) : Prop :=
  ∃ line : Line source, FirstTerminator name indented first line ∧
    ∃ above, line.Above first above ∧ body = joinLines above ∧ resume = line.stop

theorem heredocBody_nil : heredocBody name indented [] = none := by
  refine heredocBody_eq_none_iff.mpr (or_iff_not_imp_left.mpr fun named line member ends => ?_)
  exact isTerminator_ne_nil named (isTerminator_iff.mpr ends) (by simpa [splitLines] using member)

section End

variable (past : byteLength source ≤ first)
include past

theorem findBody_end : findBody source first name indented = some none := by
  unfold findBody
  split
  · rfl
  · exact textAbove_end source first past

theorem dropBytes?_end : (dropBytes? first source).getD [] = [] := by
  cases dropped : dropBytes? first source with
  | none => rfl
  | some text =>
    obtain ⟨front, rfl, rfl⟩ := dropBytes?_eq_some dropped
    rw [byteLength_append] at past
    exact eq_nil_of_byteLength (show byteLength text = 0 by omega)

/-- Where the source is over there is an empty line at most. -/
theorem not_terminates_end (named : name ≠ []) (line : Line source) (below : first ≤ line.start) :
    ¬ Terminates name indented line.chars := fun ends => by
  have size := congrArg byteLength line.whole
  unfold Line.start at below
  rw [byteLength_append, byteLength_append] at size
  have empty : line.chars = [] := eq_nil_of_byteLength (by omega)
  exact isTerminator_ne_nil named (isTerminator_iff.mpr ends) empty

end End

/-- The body that is read off the text behind an offset is the one at the offset. -/
theorem bodyAt_iff {front text : List Char} (begins : AtLineStart front) :
    (∃ rest, heredocBody name indented text = some (body, rest) ∧
      resume = byteLength (front ++ text) - byteLength rest) ↔
      name ≠ [] ∧ BodyAt (front ++ text) (byteLength front) name indented body resume := by
  constructor
  · rintro ⟨rest, found, rfl⟩
    obtain ⟨named, above, last, below, split, ends, passes, rfl, rfl⟩ :=
      heredocBody_eq_some_iff.mp found
    obtain ⟨line, rfl, aboveLine⟩ := Line.exists_line begins split
    refine ⟨named, line, (firstTerminator_iff begins aboveLine).mpr ⟨ends, passes⟩, above, aboveLine,
      rfl, ?_⟩
    obtain ⟨below', split', stop⟩ := aboveLine.splitLines_eq
    obtain ⟨_, same⟩ := List.cons.inj (List.append_cancel_left (split.symm.trans split'))
    rw [same, ← stop, Nat.add_sub_cancel]
  · rintro ⟨named, line, found, above, aboveLine, rfl, rfl⟩
    obtain ⟨ends, passes⟩ := (firstTerminator_iff begins aboveLine).mp found
    obtain ⟨below, split, stop⟩ := aboveLine.splitLines_eq
    refine ⟨joinLines below, heredocBody_eq_some_iff.mpr
      ⟨named, above, line.chars, below, split, ends, passes, rfl, rfl⟩, ?_⟩
    rw [← stop, Nat.add_sub_cancel]

/-- From where a line begins, or the source is over, the search is not refused, and it is the
one that the text behind the offset is read by. It finds nothing exactly if there is no name or
no line from there on holds it, and otherwise the body above the first of those lines and the
offset behind that line. -/
theorem findBody_exact (source : List Char) (first : Nat)
    (place : StartsLine source first ∨ byteLength source ≤ first) (name : List Char)
    (indented : Bool) :
    ∃ found, findBody source first name indented = some found ∧
      found = (heredocBody name indented ((dropBytes? first source).getD [])).map (fun body =>
        (body.1, byteLength source - byteLength body.2)) ∧
      (found = none ↔ name = [] ∨
        ∀ line : Line source, first ≤ line.start → ¬ Terminates name indented line.chars) ∧
      ∀ body resume, found = some (body, resume) ↔
        name ≠ [] ∧ BodyAt source first name indented body resume := by
  obtain ⟨front, text, rfl, rfl, begins⟩ | past := place
  · refine ⟨_, findBody_eq front text name indented, ?_, ?_, fun body resume => ?_⟩
    · rw [dropBytes?_append, Option.getD_some]
    · rw [Option.map_eq_none_iff, heredocBody_eq_none_iff, ← Line.forall_from_iff begins]
    · rw [← bodyAt_iff begins, Option.map_eq_some_iff]
      constructor
      · rintro ⟨⟨_, rest⟩, read, same⟩
        obtain ⟨rfl, rfl⟩ := Prod.mk.inj same
        exact ⟨rest, read, rfl⟩
      · rintro ⟨rest, read, rfl⟩
        exact ⟨_, read, rfl⟩
  · refine ⟨none, findBody_end past, ?_, ?_, fun body resume => ?_⟩
    · rw [dropBytes?_end past, heredocBody_nil, Option.map_none]
    · exact iff_of_true rfl (or_iff_not_imp_left.mpr (not_terminates_end past))
    · refine iff_of_false (Option.some_ne_none _).symm ?_
      rintro ⟨named, line, found, _⟩
      exact not_terminates_end past named line found.below found.ends

/-- The last line of a source is a terminator without a line feed behind it. -/
theorem findBody_exact_lastLine :
    StartsLine "x\n  é\n\n EOS".toList 2 ∧
      findBody "x\n  é\n\n EOS".toList 2 "EOS".toList true = some (some ("  é\n".toList, 12)) ∧
      BodyAt "x\n  é\n\n EOS".toList 2 "EOS".toList true "  é\n".toList 12 ∧
      findBody "x\n  é\n\n EOS".toList 2 "EOS".toList false = some none := by
  have here : StartsLine "x\n  é\n\n EOS".toList 2 :=
    ⟨['x', '\n'], "  é\n\n EOS".toList, by decide, by decide, .inr ⟨['x'], rfl⟩⟩
  obtain ⟨found, finds, same, _, exact⟩ := findBody_exact _ _ (.inl here) "EOS".toList true
  obtain ⟨plain, plainFinds, plainSame, _⟩ := findBody_exact _ _ (.inl here) "EOS".toList false
  have result : found = some ("  é\n".toList, 12) := same.trans (by decide)
  have none : plain = none := plainSame.trans (by decide)
  exact ⟨here, finds.trans (congrArg some result), ((exact _ _).mp result).2,
    plainFinds.trans (congrArg some none)⟩

end RubySyntax.Bytes
