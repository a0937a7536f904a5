import RubySyntax.Proofs.Lexeme.Heredoc
import RubySyntax.Proofs.Lexer.Run

/-! Which bytes of the source go to which token. A token takes more than its span
where it has delimiters. -/
namespace RubySyntax

open Text (byteLength Span)
open Lexeme (HeredocOpener)

/-- A token with the bytes of the source that it takes, its delimiters included,
and the opener of the heredoc that it stands for, if it stands for one. -/
structure Taken where
  token : Token
  first : Nat
  stop : Nat
  opener? : Option HeredocOpener

def Taken.takes (taken : Taken) (offset : Nat) : Prop := taken.first ≤ offset ∧ offset < taken.stop

/-- The span of a token lies within what the token takes. -/
structure Taken.Bounds (taken : Taken) : Prop where
  lower : taken.first ≤ taken.token.span.start
  upper : taken.token.span.stop ≤ taken.stop

namespace Lexer

/-- What is taken from the cursor on, where `token` is emitted and leads to `behind`. -/
def taking (lexer : Lexer) (token : Token) (behind : Lexer) : Taken where
  token := (behind.finish token).1
  first := lexer.scanner.offset
  stop := behind.scanner.offset
  opener? :=
    if token.isTerminal then none else Lexeme.opener? lexer.context lexer.scanner.ahead

/-- The next token of a lexer that has not halted, with the bytes that it takes. -/
def nextTaken (lexer : Lexer) : Taken × Lexer :=
  match lexer.skipTrivia false with
  | (some newLine, behind) =>
    let (token, final) := behind.finish newLine
    ({ token, first := newLine.span.start, stop := newLine.span.stop, opener? := none }, final)
  | (none, here) =>
    let (token, behind) := here.readToken
    (here.taking token behind, (behind.finish token).2)

def takings : Nat → Lexer → List Taken
  | 0, _ => []
  | count + 1, lexer =>
    if lexer.halted then [] else lexer.nextTaken.1 :: takings count lexer.nextTaken.2

variable {lexer : Lexer}

theorem next_eq_nextTaken (running : lexer.halted = false) :
    lexer.next = (some lexer.nextTaken.1.token, lexer.nextTaken.2) := by
  obtain ⟨stop, _, ⟨_, skipped⟩ | ⟨_, skipped⟩⟩ := skipTrivia_cases false lexer
  · simp [next, nextTaken, taking, running, skipped]
  · simp [next, nextTaken, running, skipped]

theorem nextTaken_of_token {stop : Lexer} (skipped : lexer.skipTrivia false = (none, stop)) :
    lexer.nextTaken = (stop.taking stop.readToken.1 stop.readToken.2,
      (stop.readToken.2.finish stop.readToken.1).2) := by
  simp [nextTaken, skipped]

theorem takings_of_next (read : lexer.next = (some token, behind)) (count : Nat) :
    takings (count + 1) lexer = lexer.nextTaken.1 :: takings count behind := by
  have going := running_of_next read
  obtain ⟨_, rfl⟩ := Prod.mk.inj ((next_eq_nextTaken going).symm.trans read)
  rw [takings, going, if_neg Bool.false_ne_true]

theorem takings_tokens (count : Nat) (lexer : Lexer) :
    (takings count lexer).map Taken.token = (take count lexer).1 := by
  induction count generalizing lexer with
  | zero => rfl
  | succ count ih =>
    cases halted : lexer.halted with
    | true => simp [takings, take, next, halted]
    | false => simp [takings, take, next_eq_nextTaken halted, halted, ih]

theorem At.skip_append (place : lexer.At front (chars ++ back)) :
    (lexer.skip chars.length).At (front ++ chars) back := by
  simpa using place.skip chars.length

theorem At.cut {lexeme : Lexeme} (place : lexer.At front (lexeme.chars ++ back)) :
    (lexer.cut lexeme).2.At (front ++ lexeme.chars) back := by
  simp only [Lexeme.chars, List.append_assoc] at place ⊢
  have opened := place.skip_append
  have passed := opened.skip_append
  rw [← List.append_assoc lexeme.closing] at passed
  simpa [cut_eq_skip] using passed.skip_append

theorem At.cut_span {lexeme : Lexeme} (place : lexer.At front (lexeme.chars ++ back)) :
    (lexer.cut lexeme).1.span =
      .ofBounds (byteLength (front ++ lexeme.opening))
        (byteLength (front ++ lexeme.opening ++ lexeme.body)) := by
  simp only [Lexeme.chars, List.append_assoc] at place
  have opened := place.skip_append
  show ((lexer.skip lexeme.opening.length).scanner.skip lexeme.body.length).pendingSpan = _
  rw [opened]
  simp [Scanner.between, Scanner.skip, Scanner.pendingSpan, Nat.add_assoc]

theorem At.fail {fault : Lexeme.Fault} (place : lexer.At front (fault.chars ++ back)) :
    (lexer.fail fault).2.At (front ++ fault.chars) back := by
  simp only [Lexeme.Fault.chars, List.append_assoc] at place ⊢
  have passed := place.skip_append.skip_append
  rwa [List.append_assoc] at passed

theorem At.fail_span {fault : Lexeme.Fault} (place : lexer.At front (fault.chars ++ back)) :
    (lexer.fail fault).1.span =
      .ofBounds (byteLength (front ++ fault.opening)) (byteLength (front ++ fault.chars)) := by
  simp only [Lexeme.Fault.chars, List.append_assoc] at place
  have opened := place.skip_append
  show ((lexer.skip fault.opening.length).scanner.skip fault.body.length).pendingSpan = _
  rw [opened]
  simp [Scanner.between, Scanner.skip, Scanner.pendingSpan, Lexeme.Fault.chars, Nat.add_assoc]

/-- What a lexer between `front` and `back` takes for its next token, where no
trivia is next. -/
inductive Takes (lexer : Lexer) (taken : Taken) (behind : Lexer) (front back : List Char) : Prop
  /-- A line feed that separates statements. -/
  | separator (rest : List Char) (feed : back = '\n' :: rest) (kind : taken.token.kind = .newLine)
      (stop : taken.stop = taken.first + 1) (plain : taken.opener? = none)
      (scanner : behind.scanner = lexer.crossLineFeed.scanner)
      (pending : behind.pending = lexer.crossLineFeed.pending)
  /-- Characters that end in a line feed only if they are all that is left. -/
  | token (chars rest : List Char) (split : back = chars ++ rest)
      (closed : chars.getLast? ≠ some '\n' ∨ rest = []) (kind : taken.token.kind ≠ .newLine)
      (stop : taken.stop = byteLength (front ++ chars)) (plain : taken.opener? = none)
      (place : behind.At (front ++ chars) rest) (pending : behind.pending = lexer.pending)
  /-- The opener of a heredoc, the body of which is read ahead. -/
  | heredoc (opener : HeredocOpener) (rest lines : List Char) (bodies : Lexeme.Pending)
      (split : back = opener.chars ++ rest) (advances : opener.chars ≠ [])
      (clean : '\n' ∉ opener.chars)
      (kind : taken.token.kind ≠ .newLine) (stop : taken.stop = byteLength (front ++ opener.chars))
      (opens : taken.opener? = some opener) (place : behind.At (front ++ opener.chars) rest)
      (pending : behind.pending = some bodies)
      (text : taken.token.text = String.ofList (opener.textOf lines))
      (start : taken.token.span.start = taken.first)
      (found : Lexeme.heredocBody opener.name opener.indented
        (lexer.pending.getD (.below (byteLength front) back)).rest = some (lines, bodies.rest))
      (lineEnd : bodies.lineEnd = (lexer.pending.getD (.below (byteLength front) back)).lineEnd)
      (resume : bodies.resume = (lexer.pending.getD (.below (byteLength front) back)).resume +
        (byteLength (lexer.pending.getD (.below (byteLength front) back)).rest -
          byteLength bodies.rest))

theorem At.bounds {token : Token} (place : lexer.At front back)
    (after : behind.At (front ++ opening ++ body ++ closing) rest)
    (span : token.span = .ofBounds (byteLength (front ++ opening))
      (byteLength (front ++ opening ++ body))) : (lexer.taking token behind).Bounds := by
  constructor
  · show lexer.scanner.offset ≤ token.span.start
    rw [span, place.offset]
    simp [Span.ofBounds]
  · show token.span.stop ≤ behind.scanner.offset
    rw [span, Span.stop_ofBounds (by simp), after.offset]
    simp

theorem At.taking_opener? {lexeme : Lexeme} (place : lexer.At front back) (sound : lexeme.Sound back)
    (kind : token.kind = lexeme.kind) (behind : Lexer) :
    (lexer.taking token behind).opener? = Lexeme.opener? lexer.context back := by
  have follows : token.isTerminal = false := by
    refine Bool.eq_false_iff.mpr fun terminal => sound.kind ?_
    rw [isTerminal_iff, kind] at terminal
    simp only [List.mem_cons, List.not_mem_nil, or_false]
    exact terminal.elim (.inr ∘ .inl) .inl
  simp [taking, follows, place.ahead]

theorem cut_takes {lexeme : Lexeme} {bodies : Option Lexeme.Pending} (place : lexer.At front back)
    (read : Lexeme.read lexer.context (byteLength front) lexer.pending back = .ok (lexeme, bodies))
    (sound : lexeme.Sound back) (emitted : { lexer with pending := bodies }.cut lexeme = (token, after)) :
    Takes lexer (lexer.taking token after) (after.finish token).2 front back ∧
      (lexer.taking token after).Bounds := by
  obtain ⟨rest, rfl⟩ := sound.extent.front
  have start : { lexer with pending := bodies }.At front (lexeme.chars ++ rest) := place
  have cut := start.cut
  have span := start.cut_span
  have kind : token.kind = lexeme.kind := (congrArg (·.1.kind) emitted).symm
  have pending : after.pending = bodies := (congrArg (·.2.pending) emitted).symm
  have text : token.text = String.ofList lexeme.text := (congrArg (·.1.text) emitted).symm
  rw [emitted] at cut span
  dsimp only at cut span
  have bounds : (lexer.taking token after).Bounds := by
    simp only [Lexeme.chars, ← List.append_assoc] at cut
    rw [List.append_assoc _ lexeme.closing] at cut
    exact place.bounds cut span
  have opens : (lexer.taking token after).opener? =
      Lexeme.opener? lexer.context (lexeme.chars ++ rest) := place.taking_opener? sound kind after
  have visible : token.kind ≠ .newLine := by
    rw [kind]
    rintro same
    exact sound.kind (by simp [same])
  refine ⟨?_, bounds⟩
  obtain ⟨plain, rfl⟩ | ⟨opener, later, found, rfl, marks, opened, read⟩ := Lexeme.read_eq_ok read
  · exact .token lexeme.chars rest rfl (.inl sound.extent.closed) visible cut.offset
      (opens.trans plain) cut pending
  · obtain ⟨same, lines, below, openedSame, body, rfl, lineEnd, resume, rfl⟩ :=
      Lexeme.heredoc_eq_ok read
    obtain rfl : opener = same := Except.ok.inj (opened.symm.trans openedSame)
    have chars : (Lexeme.mk (.literal opener.kind) [] opener.chars [] [] (opener.textOf lines)).chars =
        opener.chars := by simp [Lexeme.chars]
    rw [chars] at cut body lineEnd resume opens ⊢
    refine .heredoc opener rest lines later rfl marks.advances marks.clean visible cut.offset
      (opens.trans ?_) cut pending text ?_ body lineEnd resume
    · rwa [chars] at found
    · show token.span.start = lexer.scanner.offset
      rw [span, place.offset]
      simp [Span.ofBounds]

theorem Emits.takes (emits : Emits lexer token after) (place : lexer.At front back)
    (here : AtToken lexer) :
    Takes lexer (lexer.taking token after) (after.finish token).2 front back ∧
      (lexer.taking token after).Bounds := by
  cases emits with
  | separator separator =>
    obtain ⟨rest, ahead⟩ := separator.lineFeed
    exact absurd ahead (here.inLine rest)
  | endOfInput ended =>
    rw [place.ahead] at ended
    subst ended
    have cut : (lexer.cut { kind := .endOfFile, body := [] }).2.At (front ++ []) [] := place.cut
    refine ⟨.token [] [] rfl (.inr rfl) nofun cut.offset rfl cut rfl, ?_⟩
    have after : (lexer.cut { kind := .endOfFile, body := [] }).2.At (front ++ [] ++ [] ++ []) [] := by
      simpa using cut
    exact place.bounds after place.cut_span
  | lexeme _ read sound =>
    rw [place.ahead] at read sound
    rw [place.offset] at read
    exact cut_takes place read sound rfl
  | @fault fault _ read sound =>
    rw [place.ahead] at sound
    obtain ⟨rest, rfl⟩ := sound.front
    refine ⟨.token _ rest rfl ?_ nofun place.fail.offset rfl place.fail rfl, ?_⟩
    · exact sound.closed.imp id fun all => by simpa using all
    · have after : (lexer.fail fault).2.At (front ++ fault.opening ++ fault.body ++ []) rest := by
        simpa [Lexeme.Fault.chars] using place.fail
      exact place.bounds after (by simpa [Lexeme.Fault.chars] using place.fail_span)

/-- Trivia is passed, and behind it the next token is taken. -/
theorem nextTaken_takes (place : lexer.At front back) :
    ∃ here passed rest, Passes lexer here ∧ back = passed ++ rest ∧ here.At (front ++ passed) rest ∧
      lexer.nextTaken.1.first = byteLength (front ++ passed) ∧ lexer.nextTaken.1.Bounds ∧
      Takes here lexer.nextTaken.1 lexer.nextTaken.2 (front ++ passed) rest := by
  obtain ⟨here, passes, ⟨token, skipped⟩ | ⟨separator, skipped⟩⟩ := skipTrivia_cases false lexer
  · obtain ⟨passed, rest, rfl, reached⟩ := passes.advances front back place
    have same := nextTaken_of_token skipped
    obtain ⟨takes, bounds⟩ := (readToken_emits token).takes reached token
    rw [same]
    exact ⟨here, passed, rest, passes, rfl, reached, reached.offset, bounds, takes⟩
  · obtain ⟨passed, rest, rfl, reached⟩ := passes.advances front back place
    obtain ⟨below, ahead⟩ := separator.lineFeed
    rw [reached.ahead] at ahead
    simp only [nextTaken, skipped]
    exact ⟨here, passed, rest, passes, rfl, reached, reached.offset,
      ⟨Nat.le_refl _, Nat.le_refl _⟩, .separator below ahead rfl rfl rfl rfl rfl⟩

theorem Takes.place (takes : Takes lexer taken behind front back) (place : lexer.At front back) :
    ∃ front back, behind.At front back := by
  cases takes with
  | separator _ _ _ _ _ scanner _ =>
    obtain ⟨passed, rest, _, crossed⟩ := crossLineFeed_advances lexer front back place
    exact ⟨_, _, scanner.trans crossed⟩
  | token _ _ _ _ _ _ _ after _ => exact ⟨_, _, after⟩
  | heredoc _ _ _ _ _ _ _ _ _ _ after _ _ _ _ _ _ => exact ⟨_, _, after⟩

theorem takings_bounds (count : Nat) (place : lexer.At front back) :
    ∀ taken ∈ takings count lexer, taken.Bounds := by
  induction count generalizing lexer front back with
  | zero => exact fun _ member => absurd member List.not_mem_nil
  | succ count ih =>
    rw [takings]
    split
    · exact fun _ member => absurd member List.not_mem_nil
    · obtain ⟨here, passed, rest, _, _, reached, _, bounds, takes⟩ := nextTaken_takes place
      obtain ⟨_, _, after⟩ := takes.place reached
      intro taken member
      obtain rfl | member := List.mem_cons.mp member
      · exact bounds
      · exact ih after taken member

end Lexer

end RubySyntax
