import RubySyntax.Proofs.Grammar.Respacing
import RubySyntax.Proofs.Lexer.Comment
import RubySyntax.Proofs.Lexer.ReturnedTokens

namespace RubySyntax

open Text (AtLineEnd isSpace)
open Grammar (startsCommandArgument)
open Token (Kind Respaced)
open Lexer

namespace Lexer

variable {lexer behind : Lexer} {token : Token}

/-- Behind the name of a method no line break is passed but in front of a leading dot. -/
theorem not_starts_of_break (read : lexer.next = (some token, behind))
    (afresh : lexer.spacing.breakBefore = false) (name : lexer.last.any Kind.isMethodName = true)
    (broken : token.kind.EndsLine ∨ token.spacing.breakBefore = true) :
    token.kind.EndsLine ∨ ∃ p, token.kind = .punct p ∧ p.isDots = true := by
  have running := running_of_next read
  obtain ⟨stop, _, ⟨_, skipped⟩ | ⟨_, skipped⟩⟩ := skipTrivia_cases false lexer
  · cases (next_of_token running skipped).symm.trans read
    refine broken.imp_right fun broken => ?_
    have broken : stop.readToken.2.spacing.breakBefore = true := broken
    rw [readToken_spacing] at broken
    obtain broken | fresh | ⟨c, rest, ahead, follows, visible⟩ := skipTrivia_break false skipped broken
    · rw [afresh] at broken
      cases broken
    · rw [not_startsAfresh_of_isMethodName name] at fresh
      cases fresh
    · exact readToken_leadingDot ahead follows visible
  · cases (next_of_separator running skipped).symm.trans read
    exact .inl .newLine

/-- Where a line ends the next token is the same behind a comment, though blanks may stand in
front of it. -/
theorem next_beyond {here beyond : Lexer} {front front' back : List Char} (ends : AtLineEnd back)
    (there : here.At front back) (stands : beyond.At front' back) (last : beyond.last = here.last)
    (spacing : beyond.spacing = here.spacing ∨ beyond.spacing = here.noteBlank.spacing)
    (calm : here.pending = none) (idle : beyond.pending = none)
    (read : here.next = (some token, behind)) :
    ∃ (place : token.Place) (behind' : Lexer), beyond.next = (some (token.placed place), behind') ∧
      Abreast behind behind' ∧
      (startsCommandArgument (token.placed place) = startsCommandArgument token ∨
        token.kind.EndsLine ∨ token.spacing.breakBefore = true) := by
  have noBlock : "=begin".toList.isPrefixOf back = false := by
    rcases ends with rfl | ⟨below, rfl⟩
    · rfl
    · rfl
  rw [← List.append_nil front] at there
  rw [← List.append_nil front'] at stands
  rcases spacing with same | noted
  · have abreast : Abreast here beyond :=
      .of_at there stands (fun _ => noBlock) last same calm idle
    obtain ⟨span, behind', read', further⟩ := abreast.next read
    exact ⟨⟨span, token.spacing, fun _ => rfl, fun _ => rfl⟩, behind', read', further, .inl rfl⟩
  · obtain ⟨place, blanked, broken⟩ := next_noteBlank calm (there.ahead.symm ▸ ends) read
    have abreast : Abreast here.noteBlank beyond :=
      .of_at there stands (fun _ => noBlock) last noted calm idle
    obtain ⟨span, behind', read', further⟩ := abreast.next blanked
    exact ⟨⟨span, place.spacing, place.spaced, place.opens⟩, behind', read', further, .inr broken⟩

end Lexer

/-- The tokens of a source are the same with a comment at the end of a line. -/
theorem scan_commented {source : String} {front back comment : List Char}
    (noHeredoc : ∀ taken ∈ takings source, taken.opener? = none) (whole : ¬ ContinuesLine source)
    (split : source.toList = front ++ back) (ends : AtLineEnd back)
    (dispatches : Dispatches source front back) (inLine : '\n' ∉ comment) :
    Respaced (startToken :: (scan source).1)
      (startToken :: (scan (.ofList (front ++ ' ' :: '#' :: (comment ++ back)))).1) := by
  have change : Change front back ('#' :: (comment ++ back)) := .commented ends front
  obtain ⟨start, passed, lexer, continued, here, rfl, parting⟩ :=
    change.parting split dispatches noHeredoc
  obtain ⟨tokens, tokens', run, run', _, same⟩ := parting.runs
  have spaced : back.head?.all isSpace = true := by
    rcases ends with rfl | ⟨below, rfl⟩
    · rfl
    · rfl
  have unbroken (behind : Lexer) (passes : Passes lexer behind) :
      continuation behind.scanner.ahead = 0 := by
    by_contra continues
    exact whole ⟨tokens, lexer, behind, run, passes, continues⟩
  obtain rfl := parting.reaches.continued_eq unbroken rfl
  obtain ⟨beyond, commented⟩ := change.beyond ends inLine parting.reaches unbroken parting.idle rfl
    parting.place parting.there
  have running' : (lexer.withAhead (passed ++ ' ' :: '#' :: (comment ++ back))).halted = false :=
    parting.running
  obtain ⟨token, behind, read⟩ := next_of_running parting.running
  have read_here := (next_of_trivia parting.running (parting.halted rfl)
    parting.reaches.skipTrivia.symm).trans read
  obtain ⟨place, behind', read', abreast, starts⟩ := next_beyond ends parting.there commented.stands
    commented.last commented.spacing (parting.reaches.passes.idle parting.idle) commented.idle read_here
  rw [next_of_trivia running' (parting.halted commented.last) commented.reaches.skipTrivia.symm]
    at read'
  rw [List.append_assoc]
  refine scan_seam place run run' (.inl (same fun _ => spaced)) read read' (fun name => ?_) abreast
  rcases starts with same | broken
  · exact same
  · have kinds := not_starts_of_break read (run.breakBefore rfl) name broken
    have kinds' : (token.placed place).kind.EndsLine ∨
        ∃ p, (token.placed place).kind = .punct p ∧ p.isDots = true := kinds
    rw [Token.not_starts_of_kind kinds, Token.not_starts_of_kind kinds']

/-- A program ends at the end of its source. -/
theorem dispatches_end {source : String} {options : Options} {program : Tree.Program}
    (read : parse source options = .ok program) : Dispatches source source.toList [] := by
  obtain ⟨front, last, tokens, _, ends, _⟩ := scan_of_parse read
  obtain ⟨final, run, _⟩ := run_of_scan tokens
  obtain ⟨middle, before, read⟩ := run.unsnoc
  have running := running_of_next read
  obtain ⟨continued, stop, reaches, ⟨begins, skipped⟩ | ⟨_, skipped⟩⟩ := reaches_stop false middle
  · cases (next_of_token running skipped).symm.trans read
    have ended := ahead_of_endOfFile begins ends
    obtain ⟨passed, left, split, there⟩ :=
      (before.advances.trans reaches.passes.advances) _ _ (ofSource_at source)
    rw [there.ahead] at ended
    rw [ended, List.append_nil] at split
    rw [ended, List.nil_append, ← split] at there
    exact ⟨front, middle, continued, stop, before, running, reaches, there⟩
  · cases (next_of_separator running skipped).symm.trans read
    cases ends

/-- Comments are invisible: a source that has a program has the same one with a comment at
the end of a line, or at its own end. -/
theorem parse_commented {source : String} {options : Options} {program : Tree.Program}
    {front back comment : List Char} (noHeredoc : ∀ taken ∈ takings source, taken.opener? = none)
    (whole : ¬ ContinuesLine source) (split : source.toList = front ++ back)
    (ends : back = [] ∨ (∃ below, back = '\n' :: below) ∧ Dispatches source front back)
    (inLine : '\n' ∉ comment) (read : parse source options = .ok program) :
    parse (.ofList (front ++ ' ' :: '#' :: (comment ++ back))) options = .ok program := by
  rcases ends with rfl | ⟨feed, dispatches⟩
  · have dispatches := dispatches_end read
    rw [split, List.append_nil] at dispatches
    exact parse_of_respaced
      (scan_commented noHeredoc whole split (.inl rfl) dispatches inLine) read
  · exact parse_of_respaced
      (scan_commented noHeredoc whole split (.inr feed) dispatches inLine) read

private theorem dottedLine_match :
    (parse "q\n  .r 'a'" matches .ok [.call (some (.reference "q")) "r" [.string "a"] none]) := by
  decide +kernel

/-- A comment in front of a line that goes on with a call. -/
theorem parse_commented_call :
    parse "q\n  .r 'a'" = .ok [.call (some (.reference "q")) "r" [.string "a"] none] ∧
      parse (.ofList ("q".toList ++ ' ' :: '#' :: ("one".toList ++ "\n  .r 'a'".toList))) =
        .ok [.call (some (.reference "q")) "r" [.string "a"] none] := by
  have read : parse "q\n  .r 'a'" = .ok [.call (some (.reference "q")) "r" [.string "a"] none] := by
    have found := dottedLine_match
    split at found
    · assumption
    · cases found
  have stands : (ofSource "q\n  .r 'a'").nextTaken.2.At "q".toList "\n  .r 'a'".toList := by
    unfold At
    decide +kernel
  have dispatches : Dispatches "q\n  .r 'a'" "q".toList "\n  .r 'a'".toList :=
    ⟨_, _, false, _, .more (next_eq_nextTaken rfl) .done, by decide +kernel, .here, stands⟩
  exact ⟨read, parse_commented (by decide +kernel) (not_continuesLine (by decide)) (by decide)
    (.inr ⟨⟨_, rfl⟩, dispatches⟩) (by decide) read⟩

end RubySyntax
