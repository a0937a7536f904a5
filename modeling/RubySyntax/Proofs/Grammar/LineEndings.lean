import RubySyntax.Proofs.Grammar.Respacing
import RubySyntax.Proofs.Lexer.ReturnedTokens

namespace RubySyntax

open Text (isSpace withReturns)
open Grammar (startsCommandArgument)
open Token (Kind)

namespace Lexer

variable {lexer other stop behind : Lexer} {token : Token} {front back : List Char}

/-- Both get the same white space around a token, but for blanks in front of a line break. -/
theorem Beside.finish (beside : Beside lexer other) (token : Token) (span : Text.Span)
    (spaced : token.kind ≠ .newLine →
      other.spacing.isSpacedBefore = lexer.spacing.isSpacedBefore) :
    (∃ place : (lexer.finish token).1.Place,
        (other.finish { token with span }).1 = (lexer.finish token).1.placed place) ∧
      Along (lexer.finish token).2 (other.finish { token with span }).2 := by
  let spacing := { other.spacing with spaceAfter := other.scanner.peek.all isSpace }
  have spaced (inLine : ¬ token.kind.EndsLine) :=
    spaced fun feed => inLine (feed ▸ .newLine)
  refine ⟨⟨⟨span, spacing, spaced, fun bracket => ?_⟩, rfl⟩, ?_⟩
  · exact Token.Spacing.isPrefixPosition_congr (spaced (Kind.inLine_of_punct bracket))
      beside.place.space
  exact ⟨⟨beside.place.congr rfl rfl, beside.plain, rfl, beside.idle, beside.idle', rfl, rfl, id⟩, rfl⟩

/-- Behind the name of a method both find the same white space in front of a token that
may begin an argument of a command. -/
theorem Along.starts (along : Along stop other) (skipped : lexer.skipTrivia false = (none, stop))
    (afresh : lexer.spacing.breakBefore = false) (name : lexer.last.any Kind.isMethodName = true)
    (kind : other.readToken.1.kind = stop.readToken.1.kind)
    (behind : Along stop.readToken.2 other.readToken.2) :
    startsCommandArgument (other.readToken.2.finish other.readToken.1).1 =
      startsCommandArgument (stop.readToken.2.finish stop.readToken.1).1 := by
  cases broken : stop.spacing.breakBefore with
  | false =>
    have same : other.readToken.2.spacing = stop.readToken.2.spacing := by
      rw [readToken_spacing, readToken_spacing]
      exact along.spacing_eq broken
    unfold startsCommandArgument finish
    rw [kind, same, behind.place.space]
  | true =>
    obtain broken | fresh | ⟨c, rest, ahead, follows, visible⟩ :=
      skipTrivia_break false skipped broken
    · rw [afresh] at broken
      cases broken
    · rw [not_startsAfresh_of_isMethodName name] at fresh
      cases fresh
    · obtain ⟨p, dot, dots⟩ := readToken_leadingDot ahead follows visible
      have here : startsCommandArgument (stop.readToken.2.finish stop.readToken.1).1 = false :=
        Token.not_starts_of_kind (.inr ⟨p, dot, dots⟩)
      rw [here]
      exact Token.not_starts_of_kind (.inr ⟨p, kind.trans dot, dots⟩)

/-- Both hand out the same token, with other white space only in front of a line break. -/
theorem Along.next (along : Along lexer other) (afresh : lexer.spacing.breakBefore = false)
    (place : lexer.At front back) (read : lexer.next = (some token, behind))
    (known : token.kind ≠ .unknown) (plain : lexer.nextTaken.1.opener? = none)
    (single : lexer.nextTaken.1.InLine (front ++ back)) :
    ∃ (place : token.Place) (behind' : Lexer),
      other.next = (some (token.placed place), behind') ∧ Along behind behind' ∧
        (lexer.last.any Kind.isMethodName = true →
          startsCommandArgument (token.placed place) = startsCommandArgument token) := by
  have running := running_of_next read
  have running' : other.halted = false := by
    rw [halted, along.last]
    exact running
  have both := along.skipTrivia false
  generalize skipped' : other.skipTrivia false = passed at both
  obtain ⟨stop, passes, ⟨begins, skipped⟩ | ⟨separator, skipped⟩⟩ := skipTrivia_cases false lexer
  · rw [skipped] at both
    cases both with
    | @trivia _ stop' along =>
      cases (next_of_token running skipped).symm.trans read
      obtain ⟨passed, rest, rfl, stopped⟩ := passes.advances _ _ place
      have taken := nextTaken_of_token skipped
      rw [taken] at plain single
      rw [← List.append_assoc] at single
      have ends (terminal : stop.readToken.1.isTerminal = true) : rest = [] := by
        rw [← stopped.ahead]
        refine ahead_of_endOfFile begins ?_
        exact ((isTerminal_iff _).mp terminal).resolve_right known
      obtain ⟨⟨span, same⟩, behind⟩ := along.readToken begins stopped known
        (opener?_of_taking stopped.ahead ends plain) single
      have starts (name : lexer.last.any Kind.isMethodName = true) :=
        along.starts skipped afresh name (by rw [same]) behind
      obtain ⟨⟨place, placed⟩, after⟩ :=
        behind.toBeside.finish stop.readToken.1 span fun _ => behind.spaced
      rw [← same] at placed after
      refine ⟨place, _, ?_, after, fun name => placed ▸ starts name⟩
      rw [next_of_token running' skipped', placed]
  · rw [skipped] at both
    cases both with
    | lineBreak newLine span feed beside =>
      cases (next_of_separator running skipped).symm.trans read
      obtain ⟨⟨place, same⟩, behind⟩ := beside.finish stop.newLine span fun other => absurd rfl other
      refine ⟨place, _, ?_, behind, fun _ => ?_⟩
      · rw [next_of_separator running' skipped', same]
      · rw [Token.not_starts_of_kind (.inl .newLine), Token.not_starts_of_kind (.inl .newLine)]

/-- No token follows, and no name of a method comes before that. -/
theorem not_isMethodName_of_halted (halted : lexer.halted = true) :
    ¬ lexer.last.any Kind.isMethodName = true := by
  unfold Lexer.halted at halted
  intro name
  cases same : lexer.last with
  | none =>
    rw [same] at name
    cases name
  | some kind =>
    rw [same] at name halted
    cases kind with
    | endOfFile => cases name
    | unknown => cases name
    | _ => cases halted

/-- Behind a token both hand out the same ones, with other white space only in front of
line breaks. -/
theorem Run.along {tokens : List Token} {final : Lexer} (run : Run lexer tokens final)
    (ended : final.halted = true) (along : Along lexer other)
    (afresh : lexer.spacing.breakBefore = false) (here : lexer.At front back)
    (enough : tokens.length ≤ count) (known : ∀ token ∈ tokens, token.kind ≠ .unknown)
    (plain : ∀ taken ∈ Lexer.takings count lexer, taken.opener? = none)
    (single : ∀ taken ∈ Lexer.takings count lexer, taken.InLine (front ++ back))
    {previous : Token} (place : previous.Place)
    (last : previous.kind.isMethodName = true → lexer.last.any Kind.isMethodName = true) :
    ∃ tokens' final', Run other tokens' final' ∧ final'.halted = true ∧
      Token.Respaced (previous :: tokens) (previous.placed place :: tokens') := by
  induction run generalizing other front back count previous with
  | done =>
    refine ⟨[], other, .done, ?_, .last place fun name => ?_⟩
    · rw [Lexer.halted, along.last]
      exact ended
    · exact absurd (last name) (not_isMethodName_of_halted ended)
  | @more token behind tokens final lexer read rest ih =>
    obtain ⟨first, others⟩ := List.forall_mem_cons.mp known
    obtain ⟨count, rfl⟩ : ∃ left, count = left + 1 := ⟨count - 1, by
      rw [List.length_cons] at enough
      omega⟩
    rw [takings_of_next read, List.forall_mem_cons] at plain single
    obtain ⟨at_, behind', read', along', starts⟩ :=
      along.next afresh here read first plain.1 single.1
    obtain ⟨passed, left, rfl, after⟩ := (next_step read).advances _ _ here
    rw [← List.append_assoc] at single
    obtain ⟨tokens', final', run', ended', respaced⟩ := ih ended along' (next_spacing read) after
      (Nat.le_of_succ_le_succ enough) others plain.2 single.2 at_
      (fun name => by rw [(next_step read).last]; exact name)
    exact ⟨_, final', .more read' run', ended', .cons place (fun name => starts (last name)) respaced⟩

end Lexer

/-- The tokens of a source that has a program are the same where carriage returns end its
lines, with other white space only in front of line breaks. -/
theorem scan_withReturns {source : String} (plain : '\r' ∉ source.toList)
    (noHeredoc : ∀ taken ∈ takings source, taken.opener? = none)
    (single : ∀ taken ∈ takings source, taken.InLine source.toList)
    (known : ∀ token ∈ (scan source).1, token.kind ≠ .unknown) :
    Token.Respaced (startToken :: (scan source).1)
      (startToken :: (scan (String.ofList (withReturns source.toList))).1) := by
  obtain ⟨final, run, ended⟩ := Lexer.run_of_scan (Eq.refl (scan source).1)
  have here := Lexer.ofSource_at source
  have there := Lexer.ofSource_at (String.ofList (withReturns source.toList))
  rw [String.toList_ofList] at there
  have along : Lexer.Along (.ofSource source) (.ofSource (.ofList (withReturns source.toList))) := by
    refine ⟨⟨.inLine here there, ?_, rfl, rfl, rfl, rfl, rfl, id⟩, rfl⟩
    rw [here.ahead]
    exact plain
  have enough : (scan source).1.length ≤ source.toList.length + 1 := by
    obtain ⟨front, last, final, same, ended⟩ := Lexer.toEnd_ended source
    have bound : front.length ≤ source.toList.length := ended.bound
    rw [scan, same]
    simpa using bound
  obtain ⟨tokens', final', run', ended', respaced⟩ :=
    run.along ended along rfl here enough known noHeredoc single startToken.here
      (absurd · Bool.false_ne_true)
  rw [Lexer.scan_of_run run' ended']
  exact respaced

/-- A source has the same program where carriage returns and line feeds end its lines. -/
theorem parse_withReturns {source : String} {options : Options} {program : Tree.Program}
    (plain : '\r' ∉ source.toList) (noHeredoc : ∀ taken ∈ takings source, taken.opener? = none)
    (single : ∀ taken ∈ takings source, taken.InLine source.toList)
    (read : parse source options = .ok program) :
    parse (String.ofList (withReturns source.toList)) options = .ok program := by
  obtain ⟨first, rest, tokens, known, _⟩ := scan_cons_of_parse read
  exact parse_of_respaced (scan_withReturns plain noHeredoc single (tokens ▸ known)) read

private theorem newLines_match :
    (parse "p [1, # one\n  2]\nq\n  .r 'a'\n" matches
      .ok [.call none "p" [.array [.integer 1, .integer 2]] none,
        .call (some (.reference "q")) "r" [.string "a"] none]) := by
  decide +kernel

/-- An array over two lines, and a call whose dot leads a line. -/
theorem parse_withReturns_calls :
    '\r' ∉ "p [1, # one\n  2]\nq\n  .r 'a'\n".toList ∧
      parse "p [1, # one\n  2]\nq\n  .r 'a'\n" =
        .ok [.call none "p" [.array [.integer 1, .integer 2]] none,
          .call (some (.reference "q")) "r" [.string "a"] none] ∧
      parse (String.ofList (withReturns "p [1, # one\n  2]\nq\n  .r 'a'\n".toList)) =
        .ok [.call none "p" [.array [.integer 1, .integer 2]] none,
          .call (some (.reference "q")) "r" [.string "a"] none] := by
  have plain : '\r' ∉ "p [1, # one\n  2]\nq\n  .r 'a'\n".toList := by decide
  have read : parse "p [1, # one\n  2]\nq\n  .r 'a'\n" =
      .ok [.call none "p" [.array [.integer 1, .integer 2]] none,
        .call (some (.reference "q")) "r" [.string "a"] none] := by
    have found := newLines_match
    split at found
    · assumption
    · cases found
  exact ⟨plain, read, parse_withReturns plain (by decide +kernel) (by decide +kernel) read⟩

end RubySyntax
