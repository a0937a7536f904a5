import RubySyntax.Proofs.Lexeme.Space
import RubySyntax.Proofs.Lexer.Block
import RubySyntax.Proofs.Lexer.Further

namespace RubySyntax

open Text (isBlank isLineBreak isSpace)

/-- The same place, with a line feed and more text behind the text ahead. -/
def Scanner.followedBy (more : List Char) (s : Scanner) : Scanner :=
  { s with ahead := s.ahead ++ '\n' :: more }

/-- What a text begins with within one line its first line begins with. -/
theorem Text.splitLines_prefix {pattern : List Char} (inLine : '\n' ∉ pattern)
    (begins : pattern <+: text) :
    ∃ line lines, splitLines text = line :: lines ∧ pattern <+: line := by
  induction pattern generalizing text with
  | nil =>
    obtain ⟨line, lines, split⟩ := List.exists_cons_of_ne_nil (splitLines_ne_nil text)
    exact ⟨line, lines, split, List.nil_prefix⟩
  | cons c pattern ih =>
    rw [List.mem_cons, not_or] at inLine
    obtain ⟨rest, rfl⟩ := begins
    obtain ⟨line, lines, split, front⟩ := ih inLine.2 (List.prefix_append pattern rest)
    refine ⟨c :: line, lines, ?_, List.cons_prefix_cons.mpr ⟨rfl, front⟩⟩
    rw [List.cons_append, splitLines, if_neg (Ne.symm inLine.1), split]

theorem Scanner.skip_followedBy {s : Scanner} (within : count ≤ s.ahead.length) (more : List Char) :
    (s.followedBy more).skip count = (s.skip count).followedBy more := by
  simp only [Scanner.skip, Scanner.followedBy, List.take_append_of_le_length within,
    List.drop_append_of_le_length within]

/-- A token that is read is no heredoc if it has no opener. -/
theorem Lexeme.heredocFollows_of_opener? (read : Lexeme.read context offset pending input = .ok parts)
    (plain : opener? context input = none) :
    (!context.namesMethod && heredocFollows context input) = false := by
  obtain ⟨_, follows, found, _⟩ | ⟨absent, _⟩ := read_cases read
  · obtain ⟨opener, _, _, opened, _⟩ := heredoc_eq_ok found
    rw [opener?, if_pos follows, opened] at plain
    cases plain
  · exact absent

namespace Lexer

def followedBy (more : List Char) (lexer : Lexer) : Lexer :=
  { lexer with scanner := lexer.scanner.followedBy more }

/-- From here on no trivia goes on over the end of the last line, and no bodies wait. -/
structure Closed (lexer : Lexer) : Prop where
  pending : lexer.pending = none
  continuation : ∀ here, Passes lexer here → continuation here.scanner.ahead = 0
  block : ∀ here, Passes lexer here → here.atLineStart = true →
    "=begin".toList.isPrefixOf here.scanner.ahead = false

variable {lexer behind : Lexer} {more : List Char}

theorem Closed.piece (closed : lexer.Closed) (piece : Piece lexer behind) : behind.Closed :=
  ⟨piece.idle closed.pending, fun here passes => closed.continuation here (.head piece passes),
    fun here passes => closed.block here (.head piece passes)⟩

theorem ahead_followedBy (ahead : lexer.scanner.ahead = c :: rest) :
    (lexer.followedBy more).scanner.ahead = c :: (rest ++ '\n' :: more) :=
  congrArg (· ++ '\n' :: more) ahead

theorem skip_followedBy (within : count ≤ lexer.scanner.ahead.length) (more : List Char) :
    (lexer.followedBy more).skip count = (lexer.skip count).followedBy more := by
  show { lexer with scanner := ((lexer.scanner.followedBy more).skip count).ignore } = _
  rw [Scanner.skip_followedBy within]
  rfl

theorem crossLineFeed_followedBy (idle : lexer.pending = none) (ahead : lexer.scanner.ahead = c :: rest)
    (more : List Char) : (lexer.followedBy more).crossLineFeed = lexer.crossLineFeed.followedBy more := by
  have within : 1 ≤ lexer.scanner.ahead.length := by
    rw [ahead]
    exact Nat.succ_pos _
  rw [crossLineFeed_idle idle, crossLineFeed_idle (show (lexer.followedBy more).pending = none from idle),
    skip_followedBy within]

/-- No dot leads a line of which something visible comes before what follows. -/
theorem leadingDotFollows_append {rest more : List Char} (other : more.head? ≠ some '.')
    (blanks : rest.all isBlank = true → leadingDotFollows more = false) :
    leadingDotFollows (rest ++ more) = leadingDotFollows rest := by
  induction rest with
  | nil => exact blanks rfl
  | cons c rest ih =>
    cases blank : isBlank c with
    | true =>
      unfold leadingDotFollows at ih ⊢
      rw [List.cons_append, List.dropWhile_cons_of_pos blank, List.dropWhile_cons_of_pos blank]
      exact ih fun all => blanks (by rw [List.all_cons, blank, all]; rfl)
    | false =>
      have visible : ¬ isBlank c = true := Bool.eq_false_iff.mp blank
      unfold leadingDotFollows
      rw [List.cons_append, List.dropWhile_cons_of_neg visible, List.dropWhile_cons_of_neg visible]
      cases rest with
      | cons d rest => grind
      | nil =>
        cases more with
        | nil => rfl
        | cons d more =>
          have dot : d ≠ '.' := fun same => other (congrArg some same)
          grind

theorem leadingDotFollows_lineFeed (input more : List Char) :
    leadingDotFollows (input ++ '\n' :: more) = leadingDotFollows input :=
  leadingDotFollows_append (by simp) fun _ => rfl

theorem separates_followedBy (lexer : Lexer) (more : List Char) :
    (lexer.followedBy more).separates = lexer.separates := by
  show (lexer.last.any _ && !leadingDotFollows (lexer.scanner.ahead ++ '\n' :: more)) = _
  rw [leadingDotFollows_lineFeed]
  rfl

theorem skipLine_followedBy (lexer : Lexer) (more : List Char) :
    (lexer.followedBy more).skipLine = lexer.skipLine.followedBy more := by
  have line := Text.takeWhile_stop (p := fun c => !isLineBreak c) (e := '\n') (by decide)
    lexer.scanner.ahead more
  show (lexer.followedBy more).skip
    ((lexer.scanner.ahead ++ '\n' :: more).takeWhile fun c => !isLineBreak c).length = _
  rw [line, skip_followedBy (List.takeWhile_prefix _).length_le]
  rfl

/-- Trivia is passed as before. Where it leads to a token, or to the end of the source,
it goes on from there. -/
theorem skipTrivia_followedBy (closed : lexer.Closed) (more : List Char)
    (passed : lexer.skipTrivia false = (found, behind)) :
    (lexer.followedBy more).skipTrivia false =
      if found.isSome then (found, behind.followedBy more)
      else (behind.followedBy more).skipTrivia false := by
  generalize same : false = continued at passed
  fun_induction Lexer.skipTrivia continued lexer with
  | case1 continued lexer ahead =>
    cases passed
    rfl
  | case2 continued lexer c rest ahead blank ih =>
    have within : 1 ≤ lexer.scanner.ahead.length := by simp [ahead]
    rw [skipTrivia_cons (ahead_followedBy ahead), if_pos blank, skip_followedBy within]
    exact ih (closed.piece (.blank ahead blank)) same passed
  | case3 continued lexer c rest ahead visible feed separates =>
    cases passed
    rw [skipTrivia_cons (ahead_followedBy ahead), if_neg visible, if_pos feed,
      crossLineFeed_followedBy closed.pending ahead, separates_followedBy, if_pos separates]
    rfl
  | case4 continued lexer c rest ahead visible feed joins ih =>
    obtain rfl : c = '\n' := by simpa [isLineBreak] using feed
    subst same
    rw [skipTrivia_cons (ahead_followedBy ahead), if_neg visible, if_pos feed,
      crossLineFeed_followedBy closed.pending ahead, separates_followedBy, if_neg joins]
    exact ih (closed.piece (.lineBreak ahead (Bool.eq_false_iff.mpr joins))) rfl passed
  | case5 continued lexer rest ahead visible inLine ih =>
    subst same
    rw [skipTrivia_cons (ahead_followedBy ahead), if_neg visible, if_neg inLine, if_pos rfl]
    show ((lexer.followedBy more).skipLine).skipTrivia false = _
    rw [skipLine_followedBy]
    exact ih (closed.piece (.comment false ahead)) rfl passed
  | case6 continued lexer c rest ahead visible inLine noComment follows ih =>
    rw [← ahead] at follows
    exact absurd (closed.continuation lexer .refl) follows
  | case7 continued lexer c rest ahead visible inLine noComment whole block ih =>
    obtain ⟨starts, opens⟩ := Bool.and_eq_true_iff.mp block
    rw [← ahead, closed.block lexer .refl starts] at opens
    cases opens
  | case8 continued lexer c rest ahead visible inLine noComment whole noBlock =>
    cases passed
    rfl

/-- A token that follows the trivia is reached behind the same trivia. -/
theorem skipTrivia_stays (place : AtToken lexer) (closed : lexer.Closed)
    (ahead : lexer.scanner.ahead = c :: rest) (visible : c ≠ '\\') (more : List Char) :
    (lexer.followedBy more).skipTrivia false = (none, lexer.followedBy more) := by
  have notBlank : ¬ isBlank c = true := fun blank => place.noPiece _ (.blank ahead blank)
  have inLine : ¬ isLineBreak c = true := by
    intro feed
    obtain rfl : c = '\n' := by simpa [isLineBreak] using feed
    exact place.inLine rest ahead
  have noComment : ¬ c = '#' := by
    rintro rfl
    exact place.noPiece _ (.comment false ahead)
  have whole : ¬ continuation (c :: (rest ++ '\n' :: more)) ≠ 0 := by
    simp [continuation, List.isPrefixOf, Ne.symm visible]
  have noBlock : ¬ ((lexer.followedBy more).atLineStart &&
      "=begin".toList.isPrefixOf (c :: (rest ++ '\n' :: more))) = true := by
    intro block
    obtain ⟨starts, opens⟩ := Bool.and_eq_true_iff.mp block
    rw [← List.cons_append, Lexeme.isPrefixOf_append_cons (by decide), ← ahead,
      closed.block lexer .refl starts] at opens
    cases opens
  rw [skipTrivia_cons (ahead_followedBy ahead), if_neg notBlank, if_neg inLine, if_neg noComment,
    if_neg whole, if_neg noBlock]

theorem cut_followedBy {lexeme : Lexeme} (front : lexeme.chars <+: lexer.scanner.ahead)
    (more : List Char) :
    (lexer.followedBy more).cut lexeme =
      ((lexer.cut lexeme).1, (lexer.cut lexeme).2.followedBy more) := by
  have chars := front.length_le
  simp only [Lexeme.chars, List.length_append] at chars
  have opening : lexeme.opening.length ≤ lexer.scanner.ahead.length := by omega
  have body : lexeme.body.length ≤ (lexer.skip lexeme.opening.length).scanner.ahead.length := by
    rw [length_skip]
    omega
  have closing : (lexeme.closing ++ lexeme.options).length ≤
      ((lexer.skip lexeme.opening.length).skip lexeme.body.length).scanner.ahead.length := by
    rw [length_skip, length_skip, List.length_append]
    omega
  refine Prod.ext ?_ ?_
  · have passed : ((lexer.skip lexeme.opening.length).followedBy more).scanner.skip
          lexeme.body.length =
        ((lexer.skip lexeme.opening.length).scanner.skip lexeme.body.length).followedBy more :=
      Scanner.skip_followedBy body more
    simp only [Lexer.cut, skip_followedBy opening, passed]
    rfl
  · rw [cut_eq_skip, skip_followedBy opening, skip_followedBy body, skip_followedBy closing]
    rfl

theorem finish_followedBy (lexer : Lexer) (token : Token) (more : List Char) :
    (lexer.followedBy more).finish token =
      ((lexer.finish token).1, (lexer.finish token).2.followedBy more) := by
  have space : (lexer.followedBy more).scanner.peek.all isSpace = lexer.scanner.peek.all isSpace :=
    Text.head?_all_stop (by decide) lexer.scanner.ahead more
  unfold Lexer.finish
  rw [space]
  rfl

theorem Passes.closed (passes : Passes lexer behind) (closed : lexer.Closed) : behind.Closed := by
  induction passes with
  | refl => exact closed
  | tail _ piece ih => exact ih.piece piece

theorem readToken_of_read {lexeme : Lexeme} (idle : lexer.pending = none)
    (read : Lexeme.read lexer.context lexer.scanner.offset none lexer.scanner.ahead =
      .ok (lexeme, none)) : lexer.readToken = lexer.cut lexeme := by
  obtain ⟨scanner, last, pending, spacing, report⟩ := lexer
  cases idle
  unfold readToken
  rw [read]

/-- Where no heredoc opens and the input has not ended, a token that is known is what is read
at the front of the input. -/
theorem lexeme_of_readToken (place : AtToken lexer) (idle : lexer.pending = none)
    (ahead : lexer.scanner.ahead = c :: rest) (known : lexer.readToken.1.kind ≠ .unknown)
    (plain : Lexeme.opener? lexer.context (c :: rest) = none) :
    ∃ lexeme, Lexeme.read lexer.context lexer.scanner.offset none (c :: rest) = .ok (lexeme, none) ∧
      lexeme.Sound (c :: rest) ∧ lexer.readToken = lexer.cut lexeme ∧ c ≠ '\n' ∧ c ≠ '\\' := by
  have inLine : c ≠ '\n' := by
    rintro rfl
    exact place.inLine rest ahead
  have sound := Lexeme.read_sound lexer.context lexer.scanner.offset none inLine rest
  cases read : Lexeme.read lexer.context lexer.scanner.offset none (c :: rest) with
  | error fault =>
    unfold readToken at known
    rw [ahead, idle, read] at known
    exact absurd rfl known
  | ok parts =>
    obtain ⟨lexeme, bodies⟩ := parts
    rw [read] at sound
    obtain rfl : bodies = none := Lexeme.pending_of_plain read plain
    have visible : c ≠ '\\' := by
      rintro rfl
      obtain ⟨fault, failed⟩ := Lexeme.read_backslash lexer.context lexer.scanner.offset none rest
      rw [failed] at read
      cases read
    exact ⟨lexeme, rfl, sound, readToken_of_read idle (ahead ▸ read), inLine, visible⟩

/-- A token that others follow is read as before. -/
theorem readToken_followedBy (closed : lexer.Closed) (place : AtToken lexer)
    (follows : lexer.readToken.1.isTerminal = false)
    (plain : Lexeme.opener? lexer.context lexer.scanner.ahead = none) (more : List Char) :
    (lexer.followedBy more).skipTrivia false = (none, lexer.followedBy more) ∧
      (lexer.followedBy more).readToken =
        (lexer.readToken.1, lexer.readToken.2.followedBy more) ∧
      lexer.readToken.2.pending = none := by
  have idle := closed.pending
  cases ahead : lexer.scanner.ahead with
  | nil =>
    unfold readToken at follows
    rw [ahead, Lexeme.read_nil] at follows
    cases follows
  | cons c rest =>
    rw [ahead] at plain
    obtain ⟨lexeme, read, sound, cut, _, visible⟩ :=
      lexeme_of_readToken place idle ahead (known_of_running follows) plain
    have feed : isSpace '\n' = true := by decide
    have read' := (Lexeme.read_space feed lexer.context lexer.scanner.offset none c rest more
      (Lexeme.heredocFollows_of_opener? read plain) sound.extent.front.length_le).mp read
    have front : lexeme.chars <+: lexer.scanner.ahead := ahead ▸ sound.extent.front
    have cut' : (lexer.followedBy more).readToken = (lexer.followedBy more).cut lexeme :=
      readToken_of_read (show (lexer.followedBy more).pending = none from idle)
        (ahead_followedBy ahead ▸ read')
    refine ⟨skipTrivia_stays place closed ahead visible more, ?_, ?_⟩
    · rw [cut', cut]
      exact cut_followedBy front more
    · rw [cut]
      exact idle

theorem next_of_separator (running : lexer.halted = false)
    (skipped : lexer.skipTrivia false = (some found, behind)) :
    lexer.next = (some (behind.finish found).1, (behind.finish found).2) := by
  simp [next, running, skipped]

theorem next_of_trivia {other : Lexer} (running : lexer.halted = false)
    (running' : other.halted = false) (same : other.skipTrivia false = lexer.skipTrivia false) :
    other.next = lexer.next := by
  unfold next
  rw [running, running', same]
  rfl

theorem next_of_token {stop : Lexer} (running : lexer.halted = false)
    (skipped : lexer.skipTrivia false = (none, stop)) :
    lexer.next = (some (stop.readToken.2.finish stop.readToken.1).1,
      (stop.readToken.2.finish stop.readToken.1).2) := by
  simp [next, running, skipped]

/-- A token that others follow is the next one as before. -/
theorem next_followedBy (closed : lexer.Closed) (read : lexer.next = (some token, behind))
    (follows : token.isTerminal = false) (plain : lexer.nextTaken.1.opener? = none)
    (more : List Char) :
    (lexer.followedBy more).next = (some token, behind.followedBy more) ∧ behind.pending = none := by
  have running := running_of_next read
  have running' : (lexer.followedBy more).halted = false := running
  obtain ⟨stop, passes, ⟨place, skipped⟩ | ⟨place, skipped⟩⟩ := skipTrivia_cases false lexer
  · have closed' := passes.closed closed
    cases (next_of_token running skipped).symm.trans read
    have taken := nextTaken_of_token skipped
    have follows : stop.readToken.1.isTerminal = false := follows
    rw [taken, taking, if_neg (by rw [follows]; exact Bool.false_ne_true)] at plain
    obtain ⟨stays, token, idle⟩ := readToken_followedBy closed' place follows plain more
    refine ⟨?_, idle⟩
    have skipped' := skipTrivia_followedBy closed more skipped
    rw [Option.isSome_none, if_neg Bool.false_ne_true, stays] at skipped'
    simp [Lexer.next, running', skipped', token, finish_followedBy]
  · have closed' := passes.closed closed
    cases (next_of_separator running skipped).symm.trans read
    refine ⟨?_, crossLineFeed_pending closed'.pending⟩
    have skipped' := skipTrivia_followedBy closed more skipped
    rw [Option.isSome_some, if_pos rfl] at skipped'
    simp [Lexer.next, running', skipped', finish_followedBy]

end Lexer

/-- A backslash continues a line between two tokens of the source. -/
def ContinuesLine (source : String) : Prop :=
  ∃ tokens lexer here, Lexer.Run (.ofSource source) tokens lexer ∧ Lexer.Passes lexer here ∧
    Lexer.continuation here.scanner.ahead ≠ 0

/-- Only where there is a backslash a line is continued. -/
theorem not_continuesLine {source : String} (without : '\\' ∉ source.toList) :
    ¬ ContinuesLine source := by
  rintro ⟨tokens, lexer, here, run, passes, continues⟩
  obtain ⟨passed, rest, split, place⟩ :=
    (run.advances.trans passes.advances) _ _ (Lexer.ofSource_at source)
  rw [place.ahead] at continues
  refine continues ?_
  have other : ∀ more, ¬ ('\\' :: more).isPrefixOf rest = true := by
    intro more front
    obtain ⟨_, rfl⟩ := List.isPrefixOf_iff_prefix.mp front
    exact without (split ▸ List.mem_append_right passed List.mem_cons_self)
  rw [Lexer.continuation, if_neg (other _), if_neg (other _)]

/-- What stands on the lines of a source does not go on behind them: no heredoc is opened
on one, no backslash continues one, and none opens a block comment. -/
structure ClosesLines (source : String) : Prop where
  heredoc : ∀ taken ∈ takings source, taken.opener? = none
  continuation : ¬ ContinuesLine source
  block : ∀ line ∈ Text.splitLines source.toList, "=begin".toList.isPrefixOf line = false

namespace Lexer

variable {source : String} {lexer behind final : Lexer} {before tokens : List Token}
  {token last : Token}

theorem Run.snoc (run : Run lexer tokens behind) (read : behind.next = (some token, final)) :
    Run lexer (tokens ++ [token]) final := by
  induction run with
  | done => exact .more read .done
  | more first _ ih => exact .more first (ih read)

theorem closed_of_run (closes : ClosesLines source) (run : Run (.ofSource source) before lexer)
    (idle : lexer.pending = none) : lexer.Closed where
  pending := idle
  continuation here passes := by
    by_contra continues
    exact closes.continuation ⟨before, lexer, here, run, passes, continues⟩
  block here passes starts := by
    obtain ⟨front, back, split, place⟩ :=
      (run.advances.trans passes.advances) _ _ (ofSource_at source)
    rw [place.ahead]
    refine Bool.eq_false_iff.mpr fun opens => ?_
    obtain ⟨line, lines, first, begins⟩ := Text.splitLines_prefix (by decide)
      (List.isPrefixOf_iff_prefix.mp opens)
    have member : line ∈ Text.splitLines source.toList := by
      rw [split]
      rcases List.eq_nil_or_concat front with rfl | ⟨front, c, rfl⟩
      · simp [first]
      · have feed : c = '\n' := by
          rw [At] at place
          simpa [atLineStart, place, Scanner.between, isLineBreak] using starts
        subst feed
        rw [List.concat_eq_append, List.append_assoc, List.singleton_append, Text.splitLines_append,
          first]
        simp
    have none := closes.block line member
    rw [List.isPrefixOf_iff_prefix.mpr begins] at none
    cases none

/-- The tokens of a source that others follow are read as before. -/
theorem Run.followedBy (closes : ClosesLines source) (run : Run lexer tokens final)
    (start : Run (.ofSource source) before lexer) (idle : lexer.pending = none)
    (plain : ∀ taken ∈ Lexer.takings count lexer, taken.opener? = none)
    (enough : tokens.length ≤ count) (running : ∀ token ∈ tokens, token.isTerminal = false)
    (more : List Char) :
    Run (lexer.followedBy more) tokens (final.followedBy more) ∧ final.Closed := by
  induction run generalizing before count with
  | done => exact ⟨.done, closed_of_run closes start idle⟩
  | @more token behind tokens final lexer read rest ih =>
    obtain ⟨follows, others⟩ := List.forall_mem_cons.mp running
    obtain ⟨count, rfl⟩ : ∃ left, count = left + 1 := ⟨count - 1, by
      rw [List.length_cons] at enough
      omega⟩
    rw [takings_of_next read, List.forall_mem_cons] at plain
    obtain ⟨plain, later⟩ := plain
    obtain ⟨read', idle⟩ := next_followedBy (closed_of_run closes start idle) read follows plain more
    obtain ⟨rest', closed⟩ := ih (start.snoc read) idle later (Nat.le_of_succ_le_succ enough) others
    exact ⟨.more read' rest', closed⟩

/-- Only where the input has ended its end is read. -/
theorem ahead_of_endOfFile (place : AtToken lexer) (ends : lexer.readToken.1.kind = .endOfFile) :
    lexer.scanner.ahead = [] := by
  have emits := readToken_emits place
  generalize lexer.readToken = result at ends emits
  obtain ⟨token, behind⟩ := result
  cases emits with
  | separator _ => cases ends
  | endOfInput ended => exact ended
  | @lexeme lexeme bodies _ _ sound =>
    have kind : lexeme.kind = .endOfFile := ends
    exact absurd (by simp [kind]) sound.kind
  | fault _ _ _ => cases ends

theorem skipTrivia_lineFeed (ahead : lexer.scanner.ahead = '\n' :: rest) (continued : Bool) :
    lexer.skipTrivia continued =
      if lexer.crossLineFeed.separates then (some lexer.newLine, lexer.crossLineFeed)
      else lexer.crossLineFeed.noteBreak.skipTrivia false := by
  have visible : ¬ isBlank '\n' = true := by decide
  have feed : isLineBreak '\n' = true := by decide
  rw [skipTrivia_cons ahead, if_neg visible, if_pos feed]

theorem At.followedBy (place : lexer.At front back) (more : List Char) :
    (lexer.followedBy more).At front (back ++ '\n' :: more) := by
  show lexer.scanner.followedBy more = _
  rw [place]
  rfl

/-- Where the source has ended the line feed behind it is crossed. -/
theorem At.crossLineFeed_followedBy (place : lexer.At front []) (idle : lexer.pending = none)
    (more : List Char) :
    (lexer.followedBy more).crossLineFeed.At (front ++ ['\n']) more ∧
      (lexer.followedBy more).crossLineFeed.pending = none ∧
      (lexer.followedBy more).crossLineFeed.last = lexer.last := by
  have idle : (lexer.followedBy more).pending = none := idle
  rw [crossLineFeed_idle idle]
  exact ⟨(place.followedBy more).skip 1, idle, rfl⟩

/-- What comes behind the last token: the line feed separates statements, or the text
behind it goes on where the source has ended. -/
theorem next_ended (closed : lexer.Closed) (place : lexer.At front back)
    (read : lexer.next = (some last, final)) (ends : last.kind = .endOfFile) (more : List Char) :
    ∃ below : Lexer, below.At (front ++ back ++ ['\n']) more ∧ below.pending = none ∧
      below.last = lexer.last ∧
      if lexer.last.any (fun kind => !kind.isSeparator) && !leadingDotFollows more then
        ∃ token, token.kind = .newLine ∧ (lexer.followedBy more).next =
          (some token, { below with last := some .newLine, spacing := .unspaced })
      else (lexer.followedBy more).next = below.noteBreak.next := by
  have running := running_of_next read
  have running' : (lexer.followedBy more).halted = false := running
  obtain ⟨stop, passes, ⟨token, skipped⟩ | ⟨separator, skipped⟩⟩ := skipTrivia_cases false lexer
  · cases (next_of_token running skipped).symm.trans read
    obtain ⟨passed, rest, rfl, stopped⟩ := passes.advances _ _ place
    obtain rfl : rest = [] := stopped.ahead.symm.trans (ahead_of_endOfFile token ends)
    obtain ⟨below, idle, last⟩ :=
      stopped.crossLineFeed_followedBy (passes.closed closed).pending more
    have last := last.trans passes.keeps.1
    have separates : (stop.followedBy more).crossLineFeed.separates =
        (lexer.last.any (fun kind => !kind.isSeparator) && !leadingDotFollows more) := by
      rw [separates, last, below.ahead]
    have skipped' := skipTrivia_followedBy closed more skipped
    rw [Option.isSome_none, if_neg Bool.false_ne_true,
      skipTrivia_lineFeed (stopped.followedBy more).ahead, separates] at skipped'
    refine ⟨_, by simpa using below, idle, last, ?_⟩
    split
    · rename_i separates
      rw [if_pos separates] at skipped'
      exact ⟨_, rfl, next_of_separator running' skipped'⟩
    · rename_i joins
      rw [if_neg joins] at skipped'
      have going : (stop.followedBy more).crossLineFeed.noteBreak.halted = false := by
        show (stop.followedBy more).crossLineFeed.last.any _ = false
        rw [last]
        exact running
      exact next_of_trivia going running' skipped'
  · cases (next_of_separator running skipped).symm.trans read
    cases ends

end Lexer

end RubySyntax
