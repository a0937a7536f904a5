import RubySyntax.Proofs.Lexer.Block

namespace RubySyntax

open Text (byteLength byteLength_append byteLength_cons isLineBreak)

namespace Lexer

/-- A continued line goes on behind its line feed. -/
theorem continuation_split (follows : continuation input ≠ 0) :
    ∃ marks rest, input = marks ++ '\n' :: rest ∧ '\n' ∉ marks ∧
      continuation input - 1 = marks.length ∧ (marks = ['\\'] ∨ marks = ['\\', '\r']) := by
  unfold continuation at follows ⊢
  split at follows
  · rename_i short
    obtain ⟨rest, rfl⟩ := List.isPrefixOf_iff_prefix.mp short
    exact ⟨['\\'], rest, rfl, by decide, rfl, .inl rfl⟩
  · split at follows
    · rename_i long
      obtain ⟨rest, rfl⟩ := List.isPrefixOf_iff_prefix.mp long
      exact ⟨['\\', '\r'], rest, rfl, by decide, rfl, .inr rfl⟩
    · exact absurd rfl follows

/-- The lexer is on a line that opens a heredoc: `tail` is left of the line, and
the bodies read ahead stand below it. -/
structure OnLine (lexer : Lexer) (pending : Lexeme.Pending) (front tail bodies : List Char) :
    Prop where
  place : lexer.At front (tail ++ '\n' :: (bodies ++ pending.rest))
  waits : lexer.pending = some pending
  inLine : '\n' ∉ tail
  begun : front.getLast?.all isLineBreak = false
  filled : bodies ≠ []
  lineEnd : pending.lineEnd = byteLength (front ++ tail)
  resume : pending.resume = byteLength (front ++ tail ++ '\n' :: bodies)

/-- What the lexer knows of the last heredoc that was opened: its line has been
passed, or its bodies are those read ahead. -/
inductive Ready (source : List Char) (lexer : Lexer) : Option Block → Prop
  | idle (place : lexer.At front back) (whole : front ++ back = source)
      (empty : lexer.pending = none)
      (passed : ∀ block, previous = some block → block.line + 1 < byteLength front) :
      Ready source lexer previous
  | onLine {pending : Lexeme.Pending} (line : OnLine lexer pending front tail bodies)
      (whole : front ++ (tail ++ '\n' :: (bodies ++ pending.rest)) = source)
      (lineEnd : block.line = pending.lineEnd) (stop : block.stop = pending.resume) :
      Ready source lexer (some block)

/-- A byte that no token takes from here on: it lies behind the cursor, or in the
bodies that are read ahead. -/
def Barred (lexer : Lexer) (offset : Nat) : Prop :=
  offset < lexer.scanner.offset ∨
    ∃ pending, lexer.pending = some pending ∧ pending.lineEnd < offset ∧ offset < pending.resume

variable {lexer behind : Lexer} {pending : Lexeme.Pending} {front tail bodies : List Char}

/-- Behind characters of a line the cursor is not at the beginning of one. -/
theorem begun_append (front : List Char) (advances : passed ≠ []) (inLine : '\n' ∉ passed) :
    (front ++ passed).getLast?.all isLineBreak = false := by
  have visible : passed.getLast advances ≠ '\n' := fun same =>
    inLine (same ▸ List.getLast_mem advances)
  rw [List.getLast?_append, List.getLast?_eq_some_getLast advances]
  simp [isLineBreak, visible]

theorem OnLine.stay (line : OnLine lexer pending front (passed ++ tail) bodies)
    (place : behind.At (front ++ passed) (tail ++ '\n' :: (bodies ++ pending.rest)))
    (waits : behind.pending = some pending) : OnLine behind pending (front ++ passed) tail bodies where
  place := place
  waits := waits
  inLine := fun member => line.inLine (List.mem_append_right _ member)
  begun := by
    by_cases advances : passed = []
    · simpa [advances] using line.begun
    · exact begun_append front advances fun member =>
        line.inLine (List.mem_append_left _ member)
  filled := line.filled
  lineEnd := by rw [line.lineEnd, List.append_assoc]
  resume := by simp only [line.resume, List.append_assoc]

/-- Behind an opener the body that was read ahead stands below those before it. -/
theorem onLine_of_opener {base later : Lexeme.Pending} (inLine : '\n' ∉ passed ++ tail)
    (lineEnd : base.lineEnd = byteLength (front ++ (passed ++ tail)))
    (resume : base.resume = byteLength (front ++ (passed ++ tail) ++ '\n' :: bodies))
    (place : behind.At (front ++ passed) (tail ++ '\n' :: (bodies ++ base.rest)))
    (waits : behind.pending = some later) (advances : passed ≠ [])
    (below : base.rest = region ++ later.rest) (filled : region ≠ [])
    (lineSame : later.lineEnd = base.lineEnd)
    (further : later.resume = base.resume + byteLength region) :
    OnLine behind later (front ++ passed) tail (bodies ++ region) where
  place := by simpa [below] using place
  waits := waits
  inLine := fun member => inLine (List.mem_append_right _ member)
  begun := begun_append front advances fun member => inLine (List.mem_append_left _ member)
  filled := by simp [filled]
  lineEnd := by rw [lineSame, lineEnd, List.append_assoc]
  resume := by
    simp only [further, resume, byteLength_append, byteLength_cons]
    omega

theorem OnLine.atLineStart (line : OnLine lexer pending front tail bodies) :
    lexer.atLineStart = false := by
  have place : lexer.scanner = _ := line.place
  rw [Lexer.atLineStart, place]
  simpa [Scanner.between] using line.begun

/-- Passing all of the line but its line feed. -/
theorem OnLine.skipLine (line : OnLine lexer pending front tail bodies) :
    OnLine lexer.skipLine pending (front ++ tail) [] bodies := by
  have passed : lexer.skipLine = lexer.skip tail.length := by
    rw [Lexer.skipLine, line.place.ahead]
    exact congrArg lexer.skip (congrArg List.length (Text.takeWhile_line line.inLine _))
  rw [passed]
  exact OnLine.stay (by rwa [List.append_nil]) line.place.skip_append line.waits

/-- The line feed that ends the line leads over the bodies below it. -/
theorem OnLine.cross (line : OnLine lexer pending front [] bodies) :
    lexer.crossLineFeed.At (front ++ '\n' :: bodies) pending.rest ∧
      lexer.crossLineFeed.pending = none := by
  have feed : (lexer.skip 1).At (front ++ ['\n']) (bodies ++ pending.rest) := line.place.skip 1
  have ends : pending.lineEnd = lexer.scanner.offset := by
    rw [line.lineEnd, line.place.offset, List.append_nil]
  have waits : (lexer.skip 1).pending = some pending := line.waits
  have crossed : lexer.crossLineFeed =
      { (lexer.skip 1).skip bodies.length with pending := none } := by
    rw [crossLineFeed, resumeAfter]
    simp only [waits, ends, if_true, feed.ahead]
    simp
  rw [crossed]
  refine ⟨?_, rfl⟩
  have place := feed.skip_append
  rwa [List.append_assoc] at place

/-- Trivia stays on the line or leads over the bodies below it. -/
theorem Piece.onLine (piece : Piece lexer behind) (line : OnLine lexer pending front tail bodies) :
    (∃ passed left, tail = passed ++ left ∧ OnLine behind pending (front ++ passed) left bodies) ∨
      (behind.At (front ++ tail ++ '\n' :: bodies) pending.rest ∧ behind.pending = none) := by
  have ahead := line.place.ahead
  cases piece with
  | @blank _ c rest same blank =>
    rw [ahead] at same
    cases tail with
    | nil =>
      obtain ⟨rfl, _⟩ := List.cons.inj same
      cases blank
    | cons first left =>
      exact .inl ⟨[first], left, rfl, line.stay (line.place.skip 1) line.waits⟩
  | lineBreak same _ =>
    obtain rfl : tail = [] := by
      rw [ahead] at same
      exact Text.line_unique line.inLine List.not_mem_nil same
    rw [List.append_nil]
    exact .inr line.cross
  | comment continued _ =>
    have ended := line.skipLine
    unfold skipComment
    split
    · exact .inr ended.cross
    · exact .inl ⟨tail, [], (List.append_nil tail).symm, ended⟩
  | continuation follows =>
    obtain ⟨marks, rest, same, inLine, count, _⟩ := continuation_split follows
    obtain rfl : tail = marks := by
      rw [ahead] at same
      exact Text.line_unique line.inLine inLine same
    have ended : OnLine (lexer.skip tail.length) pending (front ++ tail) [] bodies :=
      OnLine.stay (by rwa [List.append_nil]) line.place.skip_append line.waits
    refine .inr ?_
    rw [← count] at ended
    exact ended.cross
  | blockComment _ start _ =>
    rw [line.atLineStart] at start
    cases start

theorem byteLength_pos (some : cs ≠ []) : 0 < byteLength cs :=
  Nat.lt_of_lt_of_le (List.length_pos_iff.mpr some) (length_le_byteLength cs)

theorem OnLine.lineEnd_succ_lt (line : OnLine lexer pending front tail bodies) :
    pending.lineEnd + 1 < pending.resume := by
  have below := byteLength_pos line.filled
  rw [line.lineEnd, line.resume]
  simp only [byteLength_append, byteLength_cons]
  have feed : '\n'.utf8Size = 1 := rfl
  omega

/-- Behind the bodies of a line the lexer is ready for the next one. -/
theorem OnLine.passed (line : OnLine lexer pending front tail bodies)
    (place : behind.At (front ++ tail ++ '\n' :: bodies) pending.rest)
    (idle : behind.pending = none) (whole : front ++ (tail ++ '\n' :: (bodies ++ pending.rest)) = source)
    (lineEnd : block.line = pending.lineEnd) :
    Ready source behind (some block) ∧ ∀ offset, lexer.Barred offset → behind.Barred offset := by
  have below := line.lineEnd_succ_lt
  constructor
  · refine .idle place (by simpa using whole) idle ?_
    rintro _ ⟨⟩
    rw [lineEnd, ← line.resume]
    exact below
  · rintro offset (before | ⟨_, waits, _, inside⟩)
    · refine .inl (Nat.lt_of_lt_of_le before ?_)
      rw [place.offset, line.place.offset]
      simp
    · obtain rfl := Option.some.inj (line.waits.symm.trans waits)
      refine .inl ?_
      rwa [place.offset, ← line.resume]

/-- Away from a line that opens a heredoc every step over the text keeps the lexer ready. -/
theorem Advances.ready (advances : Advances lexer behind) (place : lexer.At front back)
    (whole : front ++ back = source) (empty : lexer.pending = none) (idle : behind.pending = none)
    (passed : ∀ block, previous = some block → block.line + 1 < byteLength front) :
    Ready source behind previous ∧ ∀ offset, lexer.Barred offset → behind.Barred offset := by
  obtain ⟨beyond, rest, rfl, reached⟩ := advances _ _ place
  refine ⟨.idle reached (by simpa using whole) idle fun block same => ?_, ?_⟩
  · have before := passed block same
    rw [byteLength_append]
    omega
  · rintro offset (before | ⟨_, waits, _⟩)
    · refine .inl (Nat.lt_of_lt_of_le before ?_)
      rw [reached.offset, place.offset]
      simp
    · rw [empty] at waits
      cases waits

theorem OnLine.barred (line : OnLine lexer pending front (beyond ++ tail) bodies)
    (stays : OnLine behind pending (front ++ beyond) tail bodies) (barred : lexer.Barred offset) :
    behind.Barred offset := by
  obtain before | ⟨waiting, waits, inside⟩ := barred
  · refine .inl (Nat.lt_of_lt_of_le before ?_)
    rw [stays.place.offset, line.place.offset]
    simp
  · rw [line.waits] at waits
    obtain rfl := Option.some.inj waits
    exact .inr ⟨pending, stays.waits, inside⟩

/-- Trivia loses nothing of what the lexer knows. -/
theorem Piece.ready (piece : Piece lexer behind) (ready : Ready source lexer previous) :
    Ready source behind previous ∧ ∀ offset, lexer.Barred offset → behind.Barred offset := by
  cases ready with
  | idle place whole empty passed =>
    exact piece.advances.ready place whole empty (piece.idle empty) passed
  | onLine line whole lineEnd stop =>
    obtain ⟨beyond, left, rfl, stays⟩ | ⟨place, idle⟩ := piece.onLine line
    · exact ⟨.onLine stays (by simpa using whole) lineEnd stop, fun _ => line.barred stays⟩
    · exact line.passed place idle whole lineEnd

/-- A line feed that is a token of its own loses nothing either. -/
theorem crossLineFeed_ready (feed : lexer.scanner.ahead = '\n' :: rest)
    (ready : Ready source lexer previous) :
    Ready source lexer.crossLineFeed previous ∧
      ∀ offset, lexer.Barred offset → lexer.crossLineFeed.Barred offset := by
  cases ready with
  | idle place whole empty passed =>
    exact (crossLineFeed_advances lexer).ready place whole empty (crossLineFeed_pending empty) passed
  | @onLine front tail _ _ _ line whole lineEnd stop =>
    obtain rfl : tail = [] := by
      rw [line.place.ahead] at feed
      exact Text.line_unique line.inLine List.not_mem_nil feed
    refine line.passed ?_ line.cross.2 whole lineEnd
    rw [List.append_nil]
    exact line.cross.1

theorem Passes.ready (passes : Passes lexer here) (ready : Ready source lexer previous) :
    Ready source here previous ∧ ∀ offset, lexer.Barred offset → here.Barred offset := by
  induction passes with
  | refl => exact ⟨ready, fun _ => id⟩
  | tail _ piece ih =>
    obtain ⟨after, kept⟩ := piece.ready ih.1
    exact ⟨after, fun offset barred => kept offset (ih.2 offset barred)⟩

theorem Ready.offset_le (ready : Ready source lexer previous) (waits : lexer.pending = some pending) :
    lexer.scanner.offset ≤ pending.lineEnd := by
  cases ready with
  | idle _ _ empty _ =>
    rw [empty] at waits
    cases waits
  | onLine line _ _ _ =>
    rw [line.waits] at waits
    obtain rfl := Option.some.inj waits
    rw [line.place.offset, line.lineEnd, byteLength_append]
    exact Nat.le_add_right _ _

theorem Ready.congr (ready : Ready source lexer previous) (scanner : behind.scanner = lexer.scanner)
    (waits : behind.pending = lexer.pending) : Ready source behind previous := by
  cases ready with
  | idle place whole empty passed =>
    exact .idle (scanner.trans place) whole (waits.trans empty) passed
  | onLine line whole lineEnd stop =>
    exact .onLine ⟨scanner.trans line.place, waits.trans line.waits, line.inLine, line.begun,
      line.filled, line.lineEnd, line.resume⟩ whole lineEnd stop

theorem Barred.congr (barred : lexer.Barred offset) (scanner : behind.scanner = lexer.scanner)
    (waits : behind.pending = lexer.pending) : behind.Barred offset := by
  rwa [Barred, scanner, waits]

end Lexer

end RubySyntax
