import Mathlib.Logic.Relation
import RubySyntax.Lexer.Trivia

/-! The pieces of trivia. What is passed between two tokens is a chain of single
pieces, so what every piece keeps is kept between tokens. -/
namespace RubySyntax.Lexer

open Text (isBlank isLineBreak)

/-- One piece of what belongs to no token, and the lexer behind it. -/
inductive Piece : Lexer → Lexer → Prop where
  | blank (ahead : lexer.scanner.ahead = c :: rest) (blank : isBlank c = true) :
      Piece lexer (lexer.skip 1).noteBlank
  | lineBreak (ahead : lexer.scanner.ahead = '\n' :: rest)
      (joins : lexer.crossLineFeed.separates = false) : Piece lexer lexer.crossLineFeed.noteBreak
  | comment (continued : Bool) (ahead : lexer.scanner.ahead = '#' :: rest) :
      Piece lexer (lexer.skipComment continued)
  | continuation (follows : continuation lexer.scanner.ahead ≠ 0) : Piece lexer lexer.continueLine
  | blockComment (ahead : lexer.scanner.ahead = c :: rest) (start : lexer.atLineStart = true)
      (opens : "=begin".toList.isPrefixOf (c :: rest) = true) :
      Piece lexer (lexer.skipTo (afterBlockComment rest))

/-- All the trivia that is passed between two tokens. -/
abbrev Passes : Lexer → Lexer → Prop := Relation.ReflTransGen Piece

/-- A token begins here, or the input has ended. -/
structure AtToken (lexer : Lexer) : Prop where
  inLine : ∀ rest, lexer.scanner.ahead ≠ '\n' :: rest
  noPiece : ∀ next, ¬ Piece lexer next

/-- A line feed is next that separates statements. -/
structure AtSeparator (lexer : Lexer) : Prop where
  lineFeed : ∃ rest, lexer.scanner.ahead = '\n' :: rest
  separates : lexer.crossLineFeed.separates = true

def newLine (lexer : Lexer) : Token :=
  { kind := .newLine, text := "\n", span := ⟨lexer.scanner.offset, 1⟩ }

/-- Trivia ends at a token or at a line feed that is one itself. -/
theorem skipTrivia_cases (continued : Bool) (lexer : Lexer) :
    ∃ stop, Passes lexer stop ∧
      (AtToken stop ∧ lexer.skipTrivia continued = (none, stop) ∨
        AtSeparator stop ∧ lexer.skipTrivia continued = (some stop.newLine, stop.crossLineFeed)) := by
  fun_induction skipTrivia continued lexer with
  | case1 continued lexer ahead =>
    refine ⟨lexer, .refl, .inl ⟨⟨by simp [ahead], fun next piece => ?_⟩, rfl⟩⟩
    cases piece <;> simp_all [Lexer.continuation]
  | case2 continued lexer c rest ahead blank ih =>
    obtain ⟨stop, passes, stops⟩ := ih
    exact ⟨stop, .head (.blank ahead blank) passes, stops⟩
  | case3 continued lexer c rest ahead _ feed separates =>
    obtain rfl : c = '\n' := by simpa [isLineBreak] using feed
    exact ⟨lexer, .refl, .inr ⟨⟨⟨rest, ahead⟩, separates⟩, rfl⟩⟩
  | case4 continued lexer c rest ahead _ feed joins ih =>
    obtain rfl : c = '\n' := by simpa [isLineBreak] using feed
    obtain ⟨stop, passes, stops⟩ := ih
    exact ⟨stop, .head (.lineBreak ahead (Bool.eq_false_iff.mpr joins)) passes, stops⟩
  | case5 continued lexer rest ahead _ _ ih =>
    obtain ⟨stop, passes, stops⟩ := ih
    exact ⟨stop, .head (.comment continued ahead) passes, stops⟩
  | case6 continued lexer c rest ahead _ _ _ follows ih =>
    obtain ⟨stop, passes, stops⟩ := ih
    exact ⟨stop, .head (.continuation (by rwa [ahead])) passes, stops⟩
  | case7 continued lexer c rest ahead _ _ _ _ block ih =>
    obtain ⟨start, opens⟩ := Bool.and_eq_true_iff.mp block
    obtain ⟨stop, passes, stops⟩ := ih
    exact ⟨stop, .head (.blockComment ahead start opens) passes, stops⟩
  | case8 continued lexer c rest ahead notBlank notFeed notComment notContinued notBlock =>
    refine ⟨lexer, .refl, .inl ⟨⟨?_, fun next piece => ?_⟩, rfl⟩⟩
    · intro other same
      obtain ⟨rfl, _⟩ := List.cons.inj (ahead.symm.trans same)
      exact notFeed rfl
    · cases piece with
      | blank same blank =>
        rw [ahead] at same
        exact notBlank ((List.cons.inj same).1 ▸ blank)
      | lineBreak same _ => exact notFeed ((List.cons.inj (ahead.symm.trans same)).1 ▸ rfl)
      | comment _ same => exact notComment (List.cons.inj (ahead.symm.trans same)).1
      | continuation follows => exact notContinued (ahead ▸ follows)
      | blockComment same start opens =>
        rw [← same, ahead] at opens
        exact notBlock (by rw [start, opens]; rfl)

section Idle

variable {lexer behind : Lexer}

theorem resumeAfter_idle (idle : lexer.pending = none) (lineEnd : Nat) :
    lexer.resumeAfter lineEnd = lexer := by
  unfold resumeAfter
  rw [idle]

theorem crossLineFeed_idle (idle : lexer.pending = none) : lexer.crossLineFeed = lexer.skip 1 :=
  resumeAfter_idle (show (lexer.skip 1).pending = none from idle) _

theorem crossLineFeed_pending (idle : lexer.pending = none) : lexer.crossLineFeed.pending = none := by
  rw [crossLineFeed_idle idle]
  exact idle

theorem Piece.idle (piece : Piece lexer behind) (idle : lexer.pending = none) :
    behind.pending = none := by
  cases piece with
  | blank _ _ => exact idle
  | lineBreak _ _ => exact crossLineFeed_pending idle
  | comment continued _ =>
    unfold skipComment
    split
    · exact crossLineFeed_pending (show lexer.skipLine.pending = none from idle)
    · exact idle
  | continuation _ => exact crossLineFeed_pending (show (lexer.skip _).pending = none from idle)
  | blockComment _ _ _ => exact idle

theorem Passes.idle (passes : Passes lexer behind) (idle : lexer.pending = none) :
    behind.pending = none := by
  induction passes with
  | refl => exact idle
  | tail _ piece ih => exact piece.idle ih

end Idle

end RubySyntax.Lexer
