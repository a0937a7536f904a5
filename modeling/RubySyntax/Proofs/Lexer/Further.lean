import RubySyntax.Proofs.Lexeme.Heredoc
import RubySyntax.Proofs.Lexer.Run

namespace RubySyntax

open Text (byteLength isBlank isLineBreak isSpace)

/-- The same bytes of a source with so many more in front. -/
def Text.Span.moved (bytes : Nat) (span : Span) : Span := ⟨bytes + span.start, span.length⟩

def Token.moved (bytes : Nat) (token : Token) : Token := { token with span := token.span.moved bytes }

def Lexeme.Pending.moved (bytes : Nat) (pending : Pending) : Pending :=
  { pending with lineEnd := bytes + pending.lineEnd, resume := bytes + pending.resume }

namespace Lexeme

/-- A heredoc whose body is looked for from `start` on. -/
def heredocFrom (opener : HeredocOpener) (start : Pending) : Except Fault (Lexeme × Pending) :=
  match heredocBody opener.name opener.indented start.rest with
  | none =>
    .error { body := opener.chars, message := .unterminatedHeredoc
             args := [String.ofList opener.name] }
  | some (body, rest) =>
    .ok ({ kind := .literal opener.kind, body := opener.chars, text := opener.textOf body },
      { start with resume := start.resume + (byteLength start.rest - byteLength rest), rest })

theorem heredoc_eq (offset : Nat) (pending : Option Pending) (input : List Char) :
    heredoc offset pending input =
      (heredocOpener input).bind (heredocFrom · (pending.getD (.below offset input))) := rfl

theorem heredocFrom_moved (bytes : Nat) (opener : HeredocOpener) (start : Pending) :
    heredocFrom opener (start.moved bytes) =
      (heredocFrom opener start).map fun read => (read.1, read.2.moved bytes) := by
  unfold heredocFrom Pending.moved
  dsimp only
  cases heredocBody opener.name opener.indented start.rest with
  | none => rfl
  | some found => simp only [Nat.add_assoc, Except.map]

/-- The body of a heredoc does not depend on the place of its opener. -/
theorem heredoc_moved (bytes offset : Nat) (pending : Option Pending) (input : List Char) :
    heredoc (bytes + offset) (pending.map (Pending.moved bytes)) input =
      (heredoc offset pending input).map fun read => (read.1, read.2.moved bytes) := by
  have below : Pending.below (bytes + offset) input = (Pending.below offset input).moved bytes := by
    simp [Pending.below, Pending.moved, Nat.add_assoc]
  have start : (pending.map (Pending.moved bytes)).getD (.below (bytes + offset) input) =
      (pending.getD (.below offset input)).moved bytes := by
    rw [below]
    cases pending <;> rfl
  rw [heredoc_eq, heredoc_eq, start]
  cases heredocOpener input with
  | error fault => rfl
  | ok opener => exact heredocFrom_moved bytes opener _

theorem read_moved (context : Context) (bytes offset : Nat) (pending : Option Pending)
    (input : List Char) :
    read context (bytes + offset) (pending.map (Pending.moved bytes)) input =
      (read context offset pending input).map fun read =>
        (read.1, read.2.map (Pending.moved bytes)) := by
  unfold read
  split
  · rw [heredoc_moved]
    cases heredoc offset pending input <;> rfl
  · split
    · rfl
    · rename_i c rest _
      cases readFrom context c (c :: rest) <;> rfl

end Lexeme

namespace Lexer

/-- The other lexer stands at the same text behind more of it. That ends at the end of a
line, unless some text already is behind the lexer or none that may open a block comment
is ahead. -/
structure Further (more : List Char) (lexer other : Lexer) : Prop where
  place : ∃ front back, (front = [] → more.getLast?.all isLineBreak = true ∨
      "=begin".toList.isPrefixOf back = false) ∧
    lexer.At front back ∧ other.At (more ++ front) back
  last : other.last = lexer.last
  spacing : other.spacing = lexer.spacing
  pending : other.pending = lexer.pending.map (Lexeme.Pending.moved (byteLength more))

variable {more : List Char} {lexer other : Lexer}

namespace Further

theorem ahead (further : Further more lexer other) :
    other.scanner.ahead = lexer.scanner.ahead := by
  obtain ⟨front, back, _, here, there⟩ := further.place
  rw [here.ahead, there.ahead]

theorem offset (further : Further more lexer other) :
    other.scanner.offset = byteLength more + lexer.scanner.offset := by
  obtain ⟨front, back, _, here, there⟩ := further.place
  rw [here.offset, there.offset, Text.byteLength_append]

/-- A block comment begins for both or for neither. -/
theorem block (further : Further more lexer other) (ahead : lexer.scanner.ahead = c :: rest) :
    (other.atLineStart && "=begin".toList.isPrefixOf (c :: rest)) =
      (lexer.atLineStart && "=begin".toList.isPrefixOf (c :: rest)) := by
  obtain ⟨front, back, starts, here, there⟩ := further.place
  obtain rfl := here.ahead.symm.trans ahead
  rw [At] at here there
  rcases List.eq_nil_or_concat front with rfl | ⟨front, d, rfl⟩
  · obtain atStart | noBlock := starts rfl
    · have same : other.atLineStart = lexer.atLineStart := by
        simpa [Lexer.atLineStart, here, there, Scanner.between] using atStart
      rw [same]
    · rw [noBlock, Bool.and_false, Bool.and_false]
  · simp [Lexer.atLineStart, here, there, Scanner.between]

theorem skip (further : Further more lexer other) (count : Nat) :
    Further more (lexer.skip count) (other.skip count) := by
  obtain ⟨⟨front, back, starts, here, there⟩, last, spacing, pending⟩ := further
  refine ⟨⟨_, _, fun none => ?_, here.skip count, ?_⟩, last, spacing, pending⟩
  · obtain ⟨start, stays⟩ := List.append_eq_nil_iff.mp none
    have same := List.take_append_drop count back
    rw [stays, List.nil_append] at same
    rw [same]
    exact starts start
  · rw [← List.append_assoc]
    exact there.skip count

theorem resumeAfter (further : Further more lexer other) (lineEnd : Nat) :
    Further more (lexer.resumeAfter lineEnd) (other.resumeAfter (byteLength more + lineEnd)) := by
  unfold Lexer.resumeAfter
  rw [further.pending]
  cases waits : lexer.pending with
  | none => exact further
  | some pending =>
    simp only [Option.map_some, Lexeme.Pending.moved, Nat.add_left_cancel_iff, further.ahead]
    split
    · obtain ⟨place, last, spacing, _⟩ :=
        further.skip (lexer.scanner.ahead.length - pending.rest.length)
      exact ⟨place, last, spacing, rfl⟩
    · exact further

theorem crossLineFeed (further : Further more lexer other) :
    Further more lexer.crossLineFeed other.crossLineFeed := by
  unfold Lexer.crossLineFeed
  rw [further.offset]
  exact (further.skip 1).resumeAfter _

theorem noteBlank (further : Further more lexer other) :
    Further more lexer.noteBlank other.noteBlank := by
  obtain ⟨place, last, spacing, pending⟩ := further
  exact ⟨place, last, congrArg (fun spacing => { spacing with blankBefore := true }) spacing, pending⟩

theorem noteBreak (further : Further more lexer other) :
    Further more lexer.noteBreak other.noteBreak := by
  obtain ⟨place, last, spacing, pending⟩ := further
  exact ⟨place, last, congrArg (fun spacing => { spacing with breakBefore := true }) spacing, pending⟩

theorem skipComment (further : Further more lexer other) (continued : Bool) :
    Further more (lexer.skipComment continued) (other.skipComment continued) := by
  have line : Further more lexer.skipLine other.skipLine := by
    unfold skipLine
    rw [further.ahead]
    exact further.skip _
  unfold Lexer.skipComment
  split
  · exact line.crossLineFeed
  · exact line

theorem continueLine (further : Further more lexer other) :
    Further more lexer.continueLine other.continueLine := by
  unfold Lexer.continueLine
  rw [further.ahead]
  exact (further.skip _).crossLineFeed.noteBlank

theorem skipTo (further : Further more lexer other) (rest : List Char) :
    Further more (lexer.skipTo rest) (other.skipTo rest) := by
  unfold Lexer.skipTo
  rw [further.ahead]
  exact further.skip _

theorem separates (further : Further more lexer other) : other.separates = lexer.separates := by
  unfold Lexer.separates
  rw [further.ahead, further.last]

end Further

theorem skipTrivia_nil (ended : lexer.scanner.ahead = []) (continued : Bool) :
    lexer.skipTrivia continued = (none, lexer) := by
  rw [skipTrivia]
  split
  · rfl
  · rename_i same
    rw [ended] at same
    cases same

/-- What is passed over at the next character. -/
theorem skipTrivia_cons (ahead : lexer.scanner.ahead = c :: rest) (continued : Bool) :
    lexer.skipTrivia continued =
      if isBlank c then (lexer.skip 1).noteBlank.skipTrivia continued
      else if isLineBreak c then
        if lexer.crossLineFeed.separates then (some lexer.newLine, lexer.crossLineFeed)
        else lexer.crossLineFeed.noteBreak.skipTrivia false
      else if c = '#' then (lexer.skipComment continued).skipTrivia continued
      else if continuation (c :: rest) ≠ 0 then lexer.continueLine.skipTrivia true
      else if lexer.atLineStart && "=begin".toList.isPrefixOf (c :: rest) then
        (lexer.skipTo (afterBlockComment rest)).skipTrivia false
      else (none, lexer) := by
  rw [skipTrivia]
  split
  · rename_i same
    rw [ahead] at same
    cases same
  · rename_i same
    obtain ⟨rfl, rfl⟩ := List.cons.inj (ahead.symm.trans same)
    rfl

/-- Both read a token or nothing, and stand as far apart behind it. -/
structure BothRead (more : List Char) (read other : Option Token × Lexer) : Prop where
  token : other.1 = read.1.map (Token.moved (byteLength more))
  behind : Further more read.2 other.2

namespace Further

theorem newLine (further : Further more lexer other) :
    other.newLine = lexer.newLine.moved (byteLength more) := by
  unfold Lexer.newLine
  rw [further.offset]
  rfl

theorem skipTrivia (further : Further more lexer other) (continued : Bool) :
    BothRead more (lexer.skipTrivia continued) (other.skipTrivia continued) := by
  fun_induction Lexer.skipTrivia continued lexer generalizing other with
  | case1 continued lexer ahead =>
    rw [skipTrivia_nil (further.ahead.trans ahead)]
    exact ⟨rfl, further⟩
  | case2 continued lexer c rest ahead blank ih =>
    rw [skipTrivia_cons (further.ahead.trans ahead), if_pos blank]
    exact ih (further.skip 1).noteBlank
  | case3 continued lexer c rest ahead visible feed separates =>
    rw [skipTrivia_cons (further.ahead.trans ahead), if_neg visible, if_pos feed,
      further.crossLineFeed.separates, if_pos separates]
    exact ⟨congrArg some further.newLine, further.crossLineFeed⟩
  | case4 continued lexer c rest ahead visible feed joins ih =>
    rw [skipTrivia_cons (further.ahead.trans ahead), if_neg visible, if_pos feed,
      further.crossLineFeed.separates, if_neg joins]
    exact ih further.crossLineFeed.noteBreak
  | case5 continued lexer rest ahead visible inLine ih =>
    rw [skipTrivia_cons (further.ahead.trans ahead), if_neg visible, if_neg inLine, if_pos rfl]
    exact ih (further.skipComment continued)
  | case6 continued lexer c rest ahead visible inLine noComment follows ih =>
    rw [skipTrivia_cons (further.ahead.trans ahead), if_neg visible, if_neg inLine, if_neg noComment,
      if_pos follows]
    exact ih further.continueLine
  | case7 continued lexer c rest ahead visible inLine noComment whole block ih =>
    rw [skipTrivia_cons (further.ahead.trans ahead), if_neg visible, if_neg inLine, if_neg noComment,
      if_neg whole, further.block ahead, if_pos block]
    exact ih (further.skipTo _)
  | case8 continued lexer c rest ahead visible inLine noComment whole noBlock =>
    rw [skipTrivia_cons (further.ahead.trans ahead), if_neg visible, if_neg inLine, if_neg noComment,
      if_neg whole, further.block ahead, if_neg noBlock]
    exact ⟨rfl, further⟩

theorem cut (further : Further more lexer other) (lexeme : Lexeme) :
    (other.cut lexeme).1 = (lexer.cut lexeme).1.moved (byteLength more) ∧
      Further more (lexer.cut lexeme).2 (other.cut lexeme).2 := by
  refine ⟨?_, ?_⟩
  · obtain ⟨front, back, _, here, there⟩ := (further.skip lexeme.opening.length).place
    have span (opened : Lexer) (start : List Char) (place : opened.At start back) :
        (opened.scanner.skip lexeme.body.length).pendingSpan =
          ⟨byteLength start, byteLength (back.take lexeme.body.length)⟩ := by
      rw [At] at place
      rw [place, Scanner.pendingSpan_skip_between]
    simp only [Lexer.cut, Scanner.emitText, Token.moved, Text.Span.moved, span _ _ here,
      span _ _ there, Text.byteLength_append]
  · rw [cut_eq_skip, cut_eq_skip]
    exact ((further.skip _).skip _).skip _

theorem fail (further : Further more lexer other) (fault : Lexeme.Fault) :
    (other.fail fault).1 = (lexer.fail fault).1.moved (byteLength more) ∧
      Further more (lexer.fail fault).2 (other.fail fault).2 := by
  have opened := further.skip fault.opening.length
  have passed := opened.skip fault.body.length
  refine ⟨?_, passed.place, passed.last, passed.spacing, passed.pending⟩
  obtain ⟨front, back, _, here, there⟩ := opened.place
  rw [At] at here there
  simp only [Lexer.fail, Scanner.emit, Scanner.emitText, Token.moved, Text.Span.moved, here,
    there, Scanner.pendingSpan_skip_between, Scanner.pending_skip_between, Text.byteLength_append]

theorem context (further : Further more lexer other) : other.context = lexer.context := by
  rw [Lexer.context, Lexer.context, further.last, further.spacing]

theorem readToken (further : Further more lexer other) :
    other.readToken.1 = lexer.readToken.1.moved (byteLength more) ∧
      Further more lexer.readToken.2 other.readToken.2 := by
  unfold Lexer.readToken
  rw [further.context, further.offset, further.pending, further.ahead, Lexeme.read_moved]
  cases Lexeme.read lexer.context lexer.scanner.offset lexer.pending lexer.scanner.ahead with
  | error fault => exact further.fail fault
  | ok read =>
    obtain ⟨place, last, spacing, _⟩ := further
    have waiting : Further more { lexer with pending := read.2 }
        { other with pending := read.2.map (Lexeme.Pending.moved (byteLength more)) } :=
      ⟨place, last, spacing, rfl⟩
    exact waiting.cut read.1

theorem finish (further : Further more lexer other) (token : Token) :
    (other.finish (token.moved (byteLength more))).1 =
        (lexer.finish token).1.moved (byteLength more) ∧
      Further more (lexer.finish token).2 (other.finish (token.moved (byteLength more))).2 := by
  refine ⟨?_, further.place, rfl, rfl, further.pending⟩
  simp only [Lexer.finish, Scanner.peek, further.ahead, further.spacing, Token.moved]

theorem next (further : Further more lexer other) : BothRead more lexer.next other.next := by
  have halted : other.halted = lexer.halted := by rw [Lexer.halted, Lexer.halted, further.last]
  obtain ⟨token, behind⟩ := further.skipTrivia false
  unfold Lexer.next
  rw [halted]
  split
  · exact ⟨rfl, further⟩
  · generalize lexer.skipTrivia false = here, other.skipTrivia false = there at token behind
    obtain ⟨found, lexer⟩ := here
    obtain ⟨found', other⟩ := there
    cases token
    cases found with
    | some newLine =>
      obtain ⟨token, behind⟩ := behind.finish newLine
      exact ⟨congrArg some token, behind⟩
    | none =>
      obtain ⟨read, behind⟩ := behind.readToken
      obtain ⟨token, behind⟩ := behind.finish lexer.readToken.1
      rw [← read] at token behind
      exact ⟨congrArg some token, behind⟩

end Further

theorem Run.further (run : Run lexer tokens final) (further : Further more lexer other) :
    ∃ final', Run other (tokens.map (Token.moved (byteLength more))) final' ∧
      Further more final final' := by
  induction run generalizing other with
  | done => exact ⟨other, .done, further⟩
  | more read _ ih =>
    obtain ⟨token, behind⟩ := further.next
    rw [read] at token behind
    obtain ⟨final', run, further⟩ := ih behind
    exact ⟨final', .more (Prod.ext token rfl) run, further⟩

/-- Where the lexers of two sources stand apart, the tokens from there on are the same, further
on. -/
theorem scan_of_further {source source' : String} {tokens tokens' : List Token}
    (run : Run (ofSource source) tokens lexer) (run' : Run (ofSource source') tokens' other)
    (further : Further more lexer other) :
    ∃ rest, (scan source).1 = tokens ++ rest ∧
      (scan source').1 = tokens' ++ rest.map (Token.moved (byteLength more)) ∧
      (rest = [] → lexer.halted = true) := by
  obtain ⟨front, back, _, place, _⟩ := further.place
  obtain ⟨rest, final, left, ended⟩ := run_to_end place
  obtain ⟨final', left', apart⟩ := left.further further
  have ended' : final'.halted = true := by
    rw [halted, apart.last]
    exact ended
  refine ⟨rest, scan_of_run (run.append left) ended, scan_of_run (run'.append left') ended', ?_⟩
  rintro rfl
  cases left
  exact ended

end Lexer

end RubySyntax
