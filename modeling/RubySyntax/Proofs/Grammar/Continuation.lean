import Mathlib.Data.List.Chain
import RubySyntax.Proofs.Grammar.Respacing
import RubySyntax.Proofs.Lexer.Continued

namespace RubySyntax

open Text (byteLength isBlank)
open Lexeme (operatorSymbols)
open Token (Respaced Settled)
open Lexer

namespace Lexer

variable {source : String} {tokens front : List Token} {lexer : Lexer} {last : Token}

/-- What has been read of a source is what it begins with. -/
theorem Run.scan_prefix (run : Run (.ofSource source) tokens lexer) :
    ∃ others, (scan source).1 = tokens ++ others := by
  obtain ⟨_, rest, _, stands⟩ := run.advances _ _ (ofSource_at source)
  obtain ⟨others, final, more, ended⟩ := run_to_end stands
  exact ⟨others, scan_of_run (run.append more) ended⟩

/-- The last token in front of a place, where no sign that ends there is unsettled. -/
theorem Run.settled {text back : List Char} (run : Run (.ofSource source) (front ++ [last]) lexer)
    (there : lexer.At text back)
    (settled : (startToken :: (scan source).1).IsChain fun previous token =>
      token.span.stop = byteLength text → Settled previous token) :
    Settled (front.getLastD startToken) last := by
  obtain ⟨others, tokens⟩ := run.scan_prefix
  rw [tokens, List.append_assoc, ← List.cons_append, List.isChain_append] at settled
  obtain ⟨_, _, adjacent⟩ := settled
  have previous : front.getLastD startToken ∈ (startToken :: front).getLast? := by
    rw [List.getLast?_cons, List.getLastD_eq_getLast?]
    rfl
  have settled := adjacent _ previous last rfl
  obtain ⟨middle, before, read⟩ := run.unsnoc
  obtain ⟨_, _, _, place⟩ := before.advances _ _ (ofSource_at source)
  have stop {p : Token.Punct} (sign : last.kind = .punct p) : last.span.stop = byteLength text :=
    stop_of_punct read place there sign
  cases kind : last.kind with
  | punct p => exact settled (stop kind)
  | _ =>
    intro _
    rw [kind]
    exact ⟨nofun, fun _ => rfl⟩

end Lexer

/-- Nothing that ends in front of a place of the source looks at what stands directly behind
it: no symbol of an operator, no line feed that a leading dot may follow, and no bracket or
sign that white space behind it would make another one. -/
structure Detached (source : String) (front back : List Char) : Prop where
  symbol : ∀ operator ∈ operatorSymbols, ¬ ':' :: operator <:+ front
  dot : ∀ above blanks, front = above ++ '\n' :: blanks → blanks.all isBlank = true →
    leadingDotFollows back = false
  sign : (startToken :: (scan source).1).IsChain fun previous token =>
    token.span.stop = byteLength front → Settled previous token

/-- The tokens of a source are the same with a blank instead of a continued line. -/
theorem scan_continued {source : String} {front back : List Char}
    (noHeredoc : ∀ taken ∈ takings source, taken.opener? = none)
    (split : source.toList = front ++ '\\' :: '\n' :: back)
    (dispatches : Dispatches source front ('\\' :: '\n' :: back))
    (noComment : (back.dropWhile isBlank).head? ≠ some '#')
    (noBlock : "=begin".toList.isPrefixOf back = false) (detached : Detached source front back) :
    Respaced (startToken :: (scan source).1)
      (startToken :: (scan (.ofList (front ++ ' ' :: back))).1) := by
  have change : Change front ('\\' :: '\n' :: back) back := .continued detached.symbol detached.dot
  obtain ⟨start, passed, lexer, continued, here, rfl, parting⟩ :=
    change.parting split dispatches noHeredoc
  obtain ⟨tokens, tokens', run, run', touched, same⟩ := parting.runs
  have touched : tokens' = tokens ∨ ∃ front last spaceAfter, tokens = front ++ [last] ∧
      tokens' = front ++ [{ last with spacing := { last.spacing with spaceAfter } }] ∧
      Settled (front.getLastD startToken) last := by
    rcases touched with same | ⟨front, last, spaceAfter, rfl, rfl⟩
    · exact .inl same
    · -- with trivia in between the last token does not touch the backslash
      by_cases none : passed = []
      · subst none
        have signs := detached.sign
        rw [List.append_nil] at signs
        exact .inr ⟨front, last, spaceAfter, rfl, rfl, run.settled parting.place signs⟩
      · exact .inl (same fun empty => absurd empty none)
  have reaches : Reaches false (lexer.withAhead (passed ++ ' ' :: back)) continued
      (here.withAhead (' ' :: back)) :=
    change.reaches parting.reaches parting.idle (show start ++ passed = start ++ (passed ++ []) by simp)
      parting.place parting.there fun _ => rfl
  obtain ⟨beyond, beyond', abreast, last, last', skipped, skipped'⟩ := abreast_continued parting.there
    (parting.reaches.passes.idle parting.idle) noBlock noComment continued
  have running' : (lexer.withAhead (passed ++ ' ' :: back)).halted = false := parting.running
  obtain ⟨token, behind, read⟩ := next_of_running parting.running
  have read_beyond := (next_of_trivia parting.running (parting.halted last)
    (parting.reaches.skipTrivia.trans skipped).symm).trans read
  obtain ⟨span, behind', read', further⟩ := abreast.next read_beyond
  rw [next_of_trivia running' (parting.halted last') (reaches.skipTrivia.trans skipped').symm]
    at read'
  rw [List.append_assoc]
  exact scan_seam ⟨span, token.spacing, fun _ => rfl, fun _ => rfl⟩ run run' touched read read'
    (fun _ => rfl) further

/-- A continued line is invisible where nothing in front of it looks at the backslash: a source
has the program that it has with a blank instead, or neither has one. -/
theorem parse_continued {source : String} {options : Options} {program : Tree.Program}
    {front back : List Char} (noHeredoc : ∀ taken ∈ takings source, taken.opener? = none)
    (split : source.toList = front ++ '\\' :: '\n' :: back)
    (dispatches : Dispatches source front ('\\' :: '\n' :: back))
    (noComment : (back.dropWhile isBlank).head? ≠ some '#')
    (noBlock : "=begin".toList.isPrefixOf back = false) (detached : Detached source front back) :
    parse source options = .ok program ↔
      parse (.ofList (front ++ ' ' :: back)) options = .ok program := by
  have respaced := scan_continued noHeredoc split dispatches noComment noBlock detached
  exact ⟨parse_of_respaced respaced, parse_of_respaced respaced.symm⟩

example : (parse "[1,\\\n2]" matches .ok [.array [.integer 1, .integer 2]]) := by decide +kernel

private theorem sum_matches :
    (parse "1 +\\\n2" matches .ok [.call (some (.integer 1)) "+" [.integer 2] none]) := by
  decide +kernel

private theorem difference_matches :
    (parse "foo - 1" matches .ok [.call (some (.reference "foo")) "-" [.integer 1] none]) := by
  decide +kernel

private theorem argument_matches :
    (parse "foo -\\\n1" matches .ok [.call none "foo" [.unary .negative (.integer 1)] none]) := by
  decide +kernel

/-- A sum over two lines. -/
theorem parse_continued_sum :
    parse "1 +\\\n2" = .ok [.call (some (.integer 1)) "+" [.integer 2] none] ∧
      parse (.ofList ("1 +".toList ++ ' ' :: "2".toList)) =
        .ok [.call (some (.integer 1)) "+" [.integer 2] none] := by
  have read : parse "1 +\\\n2" = .ok [.call (some (.integer 1)) "+" [.integer 2] none] := by
    have found := sum_matches
    split at found
    · assumption
    · cases found
  have stands : (ofSource "1 +\\\n2").nextTaken.2.nextTaken.2.At "1 +".toList "\\\n2".toList := by
    unfold At
    decide +kernel
  have dispatches : Dispatches "1 +\\\n2" "1 +".toList "\\\n2".toList :=
    ⟨_, _, false, _, .more (next_eq_nextTaken rfl) (.more (next_eq_nextTaken (by decide +kernel)) .done),
      by decide +kernel, .here, stands⟩
  have oneLine (above blanks : List Char) : "1 +".toList ≠ above ++ '\n' :: blanks := by
    intro split
    exact absurd (split ▸ List.mem_append_right above List.mem_cons_self) (by decide)
  have detached : Detached "1 +\\\n2" "1 +".toList "2".toList :=
    ⟨by decide +kernel, fun above blanks split => absurd split (oneLine above blanks),
      by decide +kernel⟩
  exact ⟨read, (parse_continued (by decide +kernel) (by decide) dispatches (by decide) (by decide)
    detached).mp read⟩

/-- Behind a name a sign in front of the backslash is one of an operand, and in front of a
blank one between operands. -/
theorem not_parse_continued_of_sign :
    let front := "foo -".toList
    let back := "1".toList
    let source := String.ofList (front ++ '\\' :: '\n' :: back)
    let difference := [Tree.Node.call (some (.reference "foo")) "-" [.integer 1] none]
    (∀ taken ∈ takings source, taken.opener? = none) ∧
      Dispatches source front ('\\' :: '\n' :: back) ∧
      (back.dropWhile isBlank).head? ≠ some '#' ∧ "=begin".toList.isPrefixOf back = false ∧
      parse (.ofList (front ++ ' ' :: back)) = .ok difference ∧ parse source ≠ .ok difference := by
  have stands : (ofSource "foo -\\\n1").nextTaken.2.nextTaken.2.At "foo -".toList "\\\n1".toList := by
    unfold At
    decide +kernel
  have dispatches : Dispatches "foo -\\\n1" "foo -".toList "\\\n1".toList :=
    ⟨_, _, false, _, .more (next_eq_nextTaken rfl) (.more (next_eq_nextTaken (by decide +kernel)) .done),
      by decide +kernel, .here, stands⟩
  refine ⟨by decide +kernel, dispatches, by decide, by decide, ?_, fun read => ?_⟩
  · have found := difference_matches
    split at found
    · assumption
    · cases found
  · have found := argument_matches
    rw [show parse "foo -\\\n1" = _ from read] at found
    cases found

end RubySyntax
