import RubySyntax.Proofs.Lexer.Joined
import RubySyntax.Proofs.Lexer.Turn

/-! Lines that end with carriage returns. A carriage return in front of a line feed is
white space like any other: the same tokens are read, with the same white space around
them but for blanks in front of line breaks. -/
namespace RubySyntax

open Text (byteLength isBlank isLineBreak isSpace)

namespace Text

/-- The text with a carriage return in front of every line feed. -/
def withReturns : List Char → List Char
  | [] => []
  | c :: rest => if c = '\n' then '\r' :: '\n' :: withReturns rest else c :: withReturns rest

/-- The same, but for the carriage return of a line feed that comes first. -/
def beyondReturn : List Char → List Char
  | [] => []
  | c :: rest => c :: withReturns rest

@[simp] theorem withReturns_lineFeed (rest : List Char) :
    withReturns ('\n' :: rest) = '\r' :: '\n' :: withReturns rest := rfl

theorem withReturns_cons (inLine : c ≠ '\n') (rest : List Char) :
    withReturns (c :: rest) = c :: withReturns rest := if_neg inLine

theorem withReturns_append (front back : List Char) :
    withReturns (front ++ back) = withReturns front ++ withReturns back := by
  induction front with
  | nil => rfl
  | cons c rest ih =>
    rw [List.cons_append, withReturns, withReturns, ih]
    split
    · rfl
    · rfl

/-- Within a line nothing changes. -/
theorem withReturns_line {line : List Char} (inLine : '\n' ∉ line) : withReturns line = line := by
  induction line with
  | nil => rfl
  | cons c rest ih =>
    rw [List.mem_cons, not_or] at inLine
    rw [withReturns_cons (Ne.symm inLine.1), ih inLine.2]

theorem head?_withReturns_all {p : Char → Bool} (same : p '\r' = p '\n') (cs : List Char) :
    (withReturns cs).head?.all p = cs.head?.all p := by
  cases cs with
  | nil => rfl
  | cons c rest =>
    by_cases feed : c = '\n'
    · subst feed
      exact same
    · rw [withReturns_cons feed]
      rfl

/-- A run that goes over carriage returns but not over line feeds. -/
theorem dropWhile_withReturns {p : Char → Bool} (passes : p '\r' = true) (stops : p '\n' = false)
    (cs : List Char) : (withReturns cs).dropWhile p = beyondReturn (cs.dropWhile p) := by
  induction cs with
  | nil => rfl
  | cons c rest ih =>
    by_cases feed : c = '\n'
    · subst feed
      simp [passes, stops, beyondReturn]
    · rw [withReturns_cons feed]
      cases holds : p c with
      | true => simpa [holds] using ih
      | false => simp [holds, beyondReturn]

theorem isPrefixOf_withReturns {pattern : List Char} (inLine : '\n' ∉ pattern)
    (plain : '\r' ∉ pattern) (cs : List Char) :
    pattern.isPrefixOf (withReturns cs) = pattern.isPrefixOf cs := by
  induction pattern generalizing cs with
  | nil => rw [List.isPrefixOf_nil_left, List.isPrefixOf_nil_left]
  | cons d pattern ih =>
    rw [List.mem_cons, not_or] at inLine plain
    cases cs with
    | nil => rfl
    | cons c rest =>
      by_cases feed : c = '\n'
      · subst feed
        have feed : (d == '\n') = false := beq_false_of_ne (Ne.symm inLine.1)
        have other : (d == '\r') = false := beq_false_of_ne (Ne.symm plain.1)
        simp [List.isPrefixOf, feed, other]
      · rw [withReturns_cons feed]
        simp [List.isPrefixOf, ih inLine.2 plain.2]

/-- The last character of a line feed is no carriage return. -/
theorem getLast?_withReturns (cs : List Char) : (withReturns cs).getLast? = cs.getLast? := by
  rcases List.eq_nil_or_concat cs with rfl | ⟨front, c, rfl⟩
  · rfl
  · rw [List.concat_eq_append, withReturns_append, List.getLast?_concat]
    by_cases feed : c = '\n'
    · subst feed
      simp [withReturns]
    · simp [withReturns, feed]

end Text

namespace Lexer

open Text

theorem fromLineEnd_withReturns (cs : List Char) :
    fromLineEnd (withReturns cs) = beyondReturn (fromLineEnd cs) :=
  dropWhile_withReturns (by decide) (by decide) cs

theorem afterBlockComment_withReturns (cs : List Char) :
    afterBlockComment (withReturns cs) = beyondReturn (afterBlockComment cs) := by
  induction cs with
  | nil => rfl
  | cons c rest ih =>
    by_cases feed : c = '\n'
    · subst feed
      have closes : "=end".toList.isPrefixOf (withReturns rest) = "=end".toList.isPrefixOf rest :=
        isPrefixOf_withReturns (by decide) (by decide) rest
      have other : isLineBreak '\r' = false := by decide
      rw [withReturns_lineFeed, afterBlockComment, other, Bool.false_and, if_neg Bool.false_ne_true,
        afterBlockComment, afterBlockComment, closes, ih, fromLineEnd_withReturns]
      split
      · rfl
      · rfl
    · have visible : isLineBreak c = false := beq_false_of_ne feed
      rw [withReturns_cons feed, afterBlockComment, afterBlockComment, visible, ih]
      simp

theorem leadingDotFollows_withReturns (cs : List Char) :
    leadingDotFollows (withReturns cs) = leadingDotFollows cs := by
  unfold leadingDotFollows
  rw [dropWhile_withReturns (p := isBlank) (by decide) (by decide)]
  cases cs.dropWhile isBlank with
  | nil => rfl
  | cons c rest =>
    cases rest with
    | nil => rfl
    | cons d rest =>
      by_cases feed : d = '\n'
      · subst feed
        by_cases dot : c = '.'
        · subst dot
          rfl
        · simp [beyondReturn, dot]
      · rw [beyondReturn, withReturns_cons feed]
        by_cases dot : c = '.'
        · subst dot
          rfl
        · grind

/-- Either no line is continued, or one is over a line feed with its carriage return. -/
theorem continuation_withReturns {cs : List Char} (plain : '\r' ∉ cs) :
    continuation cs = 0 ∧ continuation (withReturns cs) = 0 ∨
      ∃ rest, cs = '\\' :: '\n' :: rest := by
  have none (c : Char) (rest : List Char) (other : c ≠ '\\') : continuation (c :: rest) = 0 := by
    simp [continuation, List.isPrefixOf, Ne.symm other]
  have apart (d : Char) (rest : List Char) (feed : d ≠ '\n') (other : d ≠ '\r') :
      continuation ('\\' :: d :: rest) = 0 := by
    simp [continuation, List.isPrefixOf, Ne.symm feed, Ne.symm other]
  cases cs with
  | nil => exact .inl ⟨rfl, rfl⟩
  | cons c rest =>
    by_cases slash : c = '\\'
    · subst slash
      cases rest with
      | nil => exact .inl ⟨rfl, rfl⟩
      | cons d rest =>
        by_cases feed : d = '\n'
        · subst feed
          exact .inr ⟨rest, rfl⟩
        · have other : d ≠ '\r' := by
            rintro rfl
            simp at plain
          rw [withReturns_cons (by decide), withReturns_cons feed]
          exact .inl ⟨apart d rest feed other, apart d _ feed other⟩
    · by_cases feed : c = '\n'
      · subst feed
        exact .inl ⟨rfl, rfl⟩
      · rw [withReturns_cons feed]
        exact .inl ⟨none c rest slash, none c _ slash⟩

/-- The other lexer stands at the same place of the text with carriage returns, in front
of the same character or, where that is a line feed, behind its carriage return. -/
inductive SamePlace (lexer other : Lexer) : Prop
  | inLine (here : lexer.At front back) (there : other.At (withReturns front) (withReturns back))
  | behindReturn (here : lexer.At front ('\n' :: rest))
      (there : other.At (withReturns front ++ ['\r']) ('\n' :: withReturns rest))

/-- Both lexers know the same, but for blanks that only the other one has passed. -/
structure Beside (lexer other : Lexer) : Prop where
  place : SamePlace lexer other
  plain : '\r' ∉ lexer.scanner.ahead
  last : other.last = lexer.last
  idle : lexer.pending = none
  idle' : other.pending = none
  breaks : other.spacing.breakBefore = lexer.spacing.breakBefore
  after : other.spacing.spaceAfter = lexer.spacing.spaceAfter
  blanks : lexer.spacing.blankBefore = true → other.spacing.blankBefore = true

/-- Where only the other lexer has passed blanks, both have passed a line break. -/
structure Along (lexer other : Lexer) : Prop extends Beside lexer other where
  spaced : other.spacing.isSpacedBefore = lexer.spacing.isSpacedBefore

/-- Both lexers have passed trivia up to a token, or to a line feed that is one itself. -/
inductive BothPass : Option Token × Lexer → Option Token × Lexer → Prop
  | trivia (along : Along stop stop') : BothPass (none, stop) (none, stop')
  | lineBreak (newLine : Token) (span : Text.Span) (feed : newLine.kind = .newLine)
      (beside : Beside stop stop') :
      BothPass (some newLine, stop) (some { newLine with span }, stop')

variable {lexer other : Lexer} {front back passed rest : List Char}

namespace SamePlace

theorem congr (place : SamePlace lexer other) (same : here.scanner = lexer.scanner)
    (same' : there.scanner = other.scanner) : SamePlace here there := by
  cases place with
  | inLine here there => exact .inLine (same.trans here) (same'.trans there)
  | behindReturn here there => exact .behindReturn (same.trans here) (same'.trans there)

theorem ahead_cons (place : SamePlace lexer other) (ahead : lexer.scanner.ahead = c :: rest)
    (inLine : c ≠ '\n') : ∃ front, lexer.At front (c :: rest) ∧
      other.At (withReturns front) (c :: withReturns rest) := by
  cases place with
  | @inLine front back here there =>
    rw [here.ahead] at ahead
    subst ahead
    exact ⟨front, here, withReturns_cons inLine rest ▸ there⟩
  | behindReturn here _ =>
    rw [here.ahead] at ahead
    exact absurd (List.cons.inj ahead).1 (Ne.symm inLine)

theorem skip (here : lexer.At front (passed ++ rest))
    (there : other.At (withReturns front) (withReturns (passed ++ rest))) :
    SamePlace (lexer.skip passed.length) (other.skip (withReturns passed).length) := by
  rw [withReturns_append] at there
  refine .inLine here.skip_append ?_
  rw [withReturns_append]
  exact there.skip_append

theorem skipTo (here : lexer.At front (passed ++ rest))
    (there : other.At (withReturns front) (withReturns (passed ++ rest))) :
    SamePlace (lexer.skipTo rest) (other.skipTo (beyondReturn rest)) ∧
      (other.skipTo (beyondReturn rest)).scanner.ahead = beyondReturn rest := by
  have here := here.skipTo
  rw [withReturns_append] at there
  by_cases feed : rest.head? = some '\n'
  · obtain ⟨below, rfl⟩ := List.head?_eq_some_iff.mp feed
    rw [withReturns_lineFeed, List.append_cons] at there
    have there := there.skipTo
    rw [← List.append_assoc, ← withReturns_append] at there
    exact ⟨.behindReturn here there, there.ahead⟩
  · have same : beyondReturn rest = withReturns rest := by
      cases rest with
      | nil => rfl
      | cons c rest => exact (withReturns_cons (fun same => feed (congrArg some same)) rest).symm
    have there := there.skipTo
    rw [← withReturns_append] at there
    rw [same]
    exact ⟨.inLine here there, there.ahead⟩

end SamePlace

namespace Beside

theorem moved (beside : Beside lexer other) {count count' : Nat}
    (place : SamePlace (lexer.skip count) (other.skip count')) :
    Beside (lexer.skip count) (other.skip count') where
  place := place
  plain member := beside.plain (List.mem_of_mem_drop member)
  last := beside.last
  idle := beside.idle
  idle' := beside.idle'
  breaks := beside.breaks
  after := beside.after
  blanks := beside.blanks

theorem noteBlank (beside : Beside lexer other) : Along lexer.noteBlank other.noteBlank where
  place := beside.place.congr rfl rfl
  plain := beside.plain
  last := beside.last
  idle := beside.idle
  idle' := beside.idle'
  breaks := beside.breaks
  after := beside.after
  blanks _ := rfl
  spaced := rfl

theorem noteBreak (beside : Beside lexer other) : Along lexer.noteBreak other.noteBreak where
  place := beside.place.congr rfl rfl
  plain := beside.plain
  last := beside.last
  idle := beside.idle
  idle' := beside.idle'
  breaks := rfl
  after := beside.after
  blanks := beside.blanks
  spaced := by simp [Lexer.noteBreak, Token.Spacing.isSpacedBefore]

/-- The carriage return of a line feed is passed as a blank. -/
theorem lineFeed (beside : Beside lexer other) (ahead : lexer.scanner.ahead = '\n' :: rest)
    (continued : Bool) : ∃ before, other.skipTrivia continued = before.skipTrivia continued ∧
      Beside lexer before ∧ before.scanner.ahead = '\n' :: withReturns rest := by
  rcases beside.place with @⟨front, back, here, there⟩ | @⟨front, below, here, there⟩
  · obtain rfl : back = '\n' :: rest := here.ahead.symm.trans ahead
    have ahead' : other.scanner.ahead = '\r' :: '\n' :: withReturns rest := there.ahead
    have blank : isBlank '\r' = true := by decide
    have behind : (other.skip 1).At (withReturns front ++ ['\r']) ('\n' :: withReturns rest) :=
      there.skip 1
    refine ⟨(other.skip 1).noteBlank, ?_, ?_, behind.ahead⟩
    · rw [skipTrivia_cons ahead', if_pos blank]
    · exact ⟨.behindReturn here behind, beside.plain, beside.last, beside.idle, beside.idle',
        beside.breaks, beside.after, fun _ => rfl⟩
  · obtain ⟨_, rfl⟩ := List.cons.inj (here.ahead.symm.trans ahead)
    exact ⟨other, rfl, beside, there.ahead⟩

/-- Behind the line feed both stand at the beginning of the same line. -/
theorem cross (beside : Beside lexer other) (ahead : lexer.scanner.ahead = '\n' :: rest)
    (ahead' : other.scanner.ahead = '\n' :: withReturns rest) :
    Beside lexer.crossLineFeed other.crossLineFeed ∧
      other.crossLineFeed.separates = lexer.crossLineFeed.separates := by
  rw [crossLineFeed_idle beside.idle, crossLineFeed_idle beside.idle']
  rcases beside.place with @⟨front, back, here, there⟩ | @⟨front, below, here, there⟩
  · obtain rfl : back = '\n' :: rest := here.ahead.symm.trans ahead
    rw [there.ahead] at ahead'
    cases ahead'
  · obtain ⟨_, rfl⟩ := List.cons.inj (here.ahead.symm.trans ahead)
    have here' : (lexer.skip 1).At (front ++ ['\n']) below := here.skip 1
    have there' : (other.skip 1).At (withReturns (front ++ ['\n'])) (withReturns below) := by
      have there' : (other.skip 1).At (withReturns front ++ ['\r'] ++ ['\n']) _ := there.skip 1
      rw [withReturns_append]
      rwa [List.append_assoc] at there'
    refine ⟨beside.moved (.inLine here' there'), ?_⟩
    have last : (other.skip 1).last = (lexer.skip 1).last := beside.last
    rw [separates, separates, here'.ahead, there'.ahead, leadingDotFollows_withReturns, last]

end Beside


namespace Along

theorem moved (along : Along lexer other) {count count' : Nat}
    (place : SamePlace (lexer.skip count) (other.skip count')) :
    Along (lexer.skip count) (other.skip count') :=
  ⟨along.toBeside.moved place, along.spaced⟩

theorem skipTo (along : Along lexer other) (here : lexer.At front (passed ++ rest))
    (there : other.At (withReturns front) (withReturns (passed ++ rest))) :
    Along (lexer.skipTo rest) (other.skipTo (beyondReturn rest)) :=
  along.moved (SamePlace.skipTo here there).1

/-- Behind a comment the carriage return of its line is passed with it. -/
theorem skipLine (along : Along lexer other) (ahead : lexer.scanner.ahead = c :: rest)
    (inLine : c ≠ '\n') : Along lexer.skipLine other.skipLine ∧
      other.skipLine.scanner.ahead = beyondReturn lexer.skipLine.scanner.ahead := by
  obtain ⟨front, here, there⟩ := along.place.ahead_cons ahead inLine
  obtain ⟨passed, split⟩ : fromLineEnd (c :: rest) <:+ c :: rest := List.dropWhile_suffix _
  have line' : other.skipLine = other.skipTo (beyondReturn (fromLineEnd (c :: rest))) := by
    rw [skipLine_eq, there.ahead, ← withReturns_cons inLine, fromLineEnd_withReturns]
  rw [← withReturns_cons inLine, ← split] at there
  rw [← split] at here
  rw [skipLine_eq lexer, ahead, line', here.skipTo.ahead]
  exact ⟨along.skipTo here there, (SamePlace.skipTo here there).2⟩

theorem cross (along : Along lexer other)
    (ahead' : other.scanner.ahead = beyondReturn lexer.scanner.ahead)
    (ends : lexer.scanner.ahead = [] ∨ ∃ rest, lexer.scanner.ahead = '\n' :: rest) :
    Along lexer.crossLineFeed other.crossLineFeed := by
  have spaced : other.crossLineFeed.spacing.isSpacedBefore =
      lexer.crossLineFeed.spacing.isSpacedBefore := by
    rw [crossLineFeed_idle along.idle, crossLineFeed_idle along.idle']
    exact along.spaced
  obtain ended | ⟨below, feed⟩ := ends
  · rw [crossLineFeed_idle along.idle, crossLineFeed_idle along.idle']
    rcases along.place with @⟨front, back, here, there⟩ | @⟨front, below, here, there⟩
    · obtain rfl : back = [] := here.ahead.symm.trans ended
      have here : (lexer.skip 1).At (front ++ []) [] := here.skip 1
      have there : (other.skip 1).At (withReturns front ++ []) [] := there.skip 1
      rw [List.append_nil] at here there
      exact along.moved (.inLine here there)
    · cases here.ahead.symm.trans ended
  · rw [feed] at ahead'
    exact ⟨(along.toBeside.cross feed ahead').1, spaced⟩

theorem skipComment (along : Along lexer other) (ahead : lexer.scanner.ahead = '#' :: rest)
    (continued : Bool) : Along (lexer.skipComment continued) (other.skipComment continued) := by
  obtain ⟨line, ahead'⟩ := along.skipLine ahead (by decide)
  unfold Lexer.skipComment
  split
  · refine line.cross ahead' ?_
    obtain ⟨front, here, _⟩ := along.place.ahead_cons ahead (by decide)
    obtain ⟨passed, split⟩ : fromLineEnd ('#' :: rest) <:+ '#' :: rest := List.dropWhile_suffix _
    rw [← split] at here
    rw [skipLine_eq, ahead, here.skipTo.ahead]
    exact fromLineEnd_cases _
  · exact line

theorem continueLine (along : Along lexer other) (ahead : lexer.scanner.ahead = '\\' :: '\n' :: rest) :
    Along lexer.continueLine other.continueLine := by
  obtain ⟨front, here, there⟩ := along.place.ahead_cons ahead (by decide)
  have marks : lexer.continueLine = (lexer.skip 1).crossLineFeed.noteBlank := by
    rw [Lexer.continueLine, ahead]
    rfl
  have marks' : other.continueLine = (other.skip 2).crossLineFeed.noteBlank := by
    rw [Lexer.continueLine, there.ahead]
    rfl
  have here : (lexer.skip 1).At (front ++ ['\\']) ('\n' :: rest) := here.skip 1
  have there : (other.skip 2).At (withReturns (front ++ ['\\']) ++ ['\r'])
      ('\n' :: withReturns rest) := by
    have there : (other.skip 2).At (withReturns front ++ ['\\', '\r']) _ := there.skip 2
    rw [withReturns_append, List.append_assoc]
    exact there
  rw [marks, marks']
  have feed := along.toBeside.moved (.behindReturn here there)
  exact (feed.cross here.ahead there.ahead).1.noteBlank

theorem atLineStart (along : Along lexer other) (ahead : lexer.scanner.ahead = c :: rest)
    (inLine : c ≠ '\n') : other.atLineStart = lexer.atLineStart := by
  obtain ⟨front, here, there⟩ := along.place.ahead_cons ahead inLine
  rw [At] at here there
  rw [Lexer.atLineStart, Lexer.atLineStart, here, there]
  simp [Scanner.between, getLast?_withReturns]

theorem blockComment (along : Along lexer other) (ahead : lexer.scanner.ahead = c :: rest)
    (inLine : c ≠ '\n') :
    Along (lexer.skipTo (afterBlockComment rest))
      (other.skipTo (afterBlockComment (withReturns rest))) := by
  obtain ⟨front, here, there⟩ := along.place.ahead_cons ahead inLine
  obtain ⟨passed, split⟩ := (afterBlockComment_suffix rest).trans (List.suffix_cons c rest)
  rw [← withReturns_cons inLine, ← split] at there
  rw [← split] at here
  rw [afterBlockComment_withReturns]
  exact along.skipTo here there

/-- Where neither a continued line nor a block comment begins, none begins for the other
lexer. -/
theorem continuation_cons (plain : '\r' ∉ lexer.scanner.ahead)
    (ahead : lexer.scanner.ahead = c :: rest) (inLine : c ≠ '\n')
    (whole : ¬ continuation (c :: rest) ≠ 0) :
    ¬ continuation (c :: withReturns rest) ≠ 0 ∧
      "=begin".toList.isPrefixOf (c :: withReturns rest) = "=begin".toList.isPrefixOf (c :: rest) := by
  rw [← withReturns_cons inLine]
  refine ⟨?_, isPrefixOf_withReturns (by decide) (by decide) _⟩
  obtain ⟨_, none⟩ | ⟨_, split⟩ := continuation_withReturns (ahead ▸ plain)
  · exact not_not.mpr none
  · exact absurd (split ▸ whole) (by simp [continuation, List.isPrefixOf])

theorem skipTrivia (along : Along lexer other) (continued : Bool) :
    BothPass (lexer.skipTrivia continued) (other.skipTrivia continued) := by
  fun_induction Lexer.skipTrivia continued lexer generalizing other with
  | case1 continued lexer ahead =>
    have ended : other.scanner.ahead = [] := by
      rcases along.place with @⟨front, back, here, there⟩ | @⟨front, below, here, there⟩
      · rw [there.ahead, here.ahead.symm.trans ahead]
        rfl
      · cases here.ahead.symm.trans ahead
    rw [skipTrivia_nil ended]
    exact .trivia along
  | case2 continued lexer c rest ahead blank ih =>
    have inLine : c ≠ '\n' := by
      rintro rfl
      cases blank
    obtain ⟨front, here, there⟩ := along.place.ahead_cons ahead inLine
    rw [skipTrivia_cons there.ahead, if_pos blank]
    refine ih (along.toBeside.moved ?_).noteBlank
    rw [← withReturns_cons inLine] at there
    have place : SamePlace (lexer.skip [c].length) (other.skip (withReturns [c]).length) :=
      .skip here there
    rwa [withReturns_line (by simpa using Ne.symm inLine)] at place
  | case3 continued lexer c rest ahead visible feed separates =>
    obtain rfl : c = '\n' := by simpa [isLineBreak] using feed
    obtain ⟨before, same, beside, ahead'⟩ := along.toBeside.lineFeed ahead continued
    obtain ⟨behind, alike⟩ := beside.cross ahead ahead'
    rw [same, skipTrivia_lineFeed ahead', alike, if_pos separates]
    exact .lineBreak _ _ rfl behind
  | case4 continued lexer c rest ahead visible feed joins ih =>
    obtain rfl : c = '\n' := by simpa [isLineBreak] using feed
    obtain ⟨before, same, beside, ahead'⟩ := along.toBeside.lineFeed ahead continued
    obtain ⟨behind, alike⟩ := beside.cross ahead ahead'
    rw [same, skipTrivia_lineFeed ahead', alike, if_neg joins]
    exact ih behind.noteBreak
  | case5 continued lexer rest ahead visible inLine ih =>
    obtain ⟨front, here, there⟩ := along.place.ahead_cons ahead (by decide)
    rw [skipTrivia_cons there.ahead, if_neg visible, if_neg inLine, if_pos rfl]
    exact ih (along.skipComment ahead continued)
  | case6 continued lexer c rest ahead visible inLine noComment follows ih =>
    have feed : c ≠ '\n' := fun same => inLine (by rw [same]; rfl)
    obtain ⟨front, here, there⟩ := along.place.ahead_cons ahead feed
    obtain ⟨none, _⟩ | ⟨below, split⟩ := continuation_withReturns (ahead ▸ along.plain)
    · exact absurd none follows
    · obtain ⟨rfl, rfl⟩ := List.cons.inj split
      have follows' : continuation ('\\' :: withReturns ('\n' :: below)) ≠ 0 := by
        simp [continuation, List.isPrefixOf]
      rw [skipTrivia_cons there.ahead, if_neg visible, if_neg inLine, if_neg noComment,
        if_pos follows']
      exact ih (along.continueLine ahead)
  | case7 continued lexer c rest ahead visible inLine noComment whole block ih =>
    have feed : c ≠ '\n' := fun same => inLine (by rw [same]; rfl)
    obtain ⟨front, here, there⟩ := along.place.ahead_cons ahead feed
    obtain ⟨whole', begins⟩ := continuation_cons along.plain ahead feed whole
    rw [skipTrivia_cons there.ahead, if_neg visible, if_neg inLine, if_neg noComment, if_neg whole',
      along.atLineStart ahead feed, begins, if_pos block]
    exact ih (along.blockComment ahead feed)
  | case8 continued lexer c rest ahead visible inLine noComment whole noBlock =>
    have feed : c ≠ '\n' := fun same => inLine (by rw [same]; rfl)
    obtain ⟨front, here, there⟩ := along.place.ahead_cons ahead feed
    obtain ⟨whole', begins⟩ := continuation_cons along.plain ahead feed whole
    rw [skipTrivia_cons there.ahead, if_neg visible, if_neg inLine, if_neg noComment, if_neg whole',
      along.atLineStart ahead feed, begins, if_neg noBlock]
    exact .trivia along

end Along

end Lexer

end RubySyntax
