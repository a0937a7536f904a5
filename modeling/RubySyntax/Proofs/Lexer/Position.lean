import RubySyntax.Proofs.Lexeme.Read
import RubySyntax.Proofs.Lexer.Trivia
import RubySyntax.Lexer.Next

/-! Where the lexer stands in its source. Between two tokens the mark is at the
cursor, and every step only moves the cursor on over the text ahead. -/
namespace RubySyntax

open Text (byteLength)

/-- A cursor between two texts with its mark beside it and nothing to undo. -/
def Scanner.between (front back : List Char) : Scanner :=
  ⟨front.reverse, back, byteLength front, byteLength front, false⟩

theorem Scanner.skip_ignore_between (front back : List Char) (count : Nat) :
    ((Scanner.between front back).skip count).ignore =
      .between (front ++ back.take count) (back.drop count) := by
  simp [Scanner.between, Scanner.skip, Scanner.ignore]

/-- The bytes in front of the cursor are those of the characters read last. -/
theorem Scanner.lastBytes_append (cs behind taken : List Char) :
    lastBytes (byteLength cs) (cs ++ behind) taken = cs.reverse ++ taken := by
  induction cs generalizing taken with
  | nil => cases behind <;> rfl
  | cons c cs ih =>
    have wide := c.utf8Size_pos
    obtain ⟨count, same⟩ : ∃ count, byteLength (c :: cs) = count + 1 :=
      ⟨c.utf8Size + byteLength cs - 1, by rw [Text.byteLength_cons]; omega⟩
    have left : count + 1 - c.utf8Size = byteLength cs := by
      rw [← same, Text.byteLength_cons]
      omega
    rw [same, List.cons_append, lastBytes, left, ih]
    simp

theorem Scanner.pending_skip_between (front back : List Char) (count : Nat) :
    ((Scanner.between front back).skip count).pending = back.take count := by
  have same := lastBytes_append (back.take count).reverse front.reverse []
  simpa [Scanner.between, Scanner.skip, Scanner.pending] using same

theorem Scanner.pendingSpan_skip_between (front back : List Char) (count : Nat) :
    ((Scanner.between front back).skip count).pendingSpan =
      ⟨byteLength front, byteLength (back.take count)⟩ := by
  simp [Scanner.between, Scanner.skip, Scanner.pendingSpan, Text.Span.ofBounds]

namespace Lexer

/-- The lexer stands between two parts of its source. -/
def At (lexer : Lexer) (front back : List Char) : Prop := lexer.scanner = .between front back

theorem ofSource_at (source : String) : (ofSource source).At [] source.toList := rfl

theorem At.ahead (place : At lexer front back) : lexer.scanner.ahead = back := by
  rw [At] at place
  rw [place]
  rfl

theorem At.offset (place : At lexer front back) : lexer.scanner.offset = byteLength front := by
  rw [At] at place
  rw [place]
  rfl

theorem At.skip (place : At lexer front back) (count : Nat) :
    (lexer.skip count).At (front ++ back.take count) (back.drop count) := by
  show ((lexer.scanner.skip count).ignore) = _
  rw [place, Scanner.skip_ignore_between]

theorem At.unique {lexer : Lexer} (first : lexer.At front back) (second : lexer.At start rest) :
    front = start ∧ back = rest := by
  have same : Scanner.between front back = .between start rest := first.symm.trans second
  simp only [Scanner.between, Scanner.mk.injEq] at same
  exact ⟨List.reverse_inj.mp same.1, same.2.1⟩

/-- A step that goes on over some of the text ahead. -/
def Advances (lexer behind : Lexer) : Prop :=
  ∀ front back, lexer.At front back →
    ∃ passed rest, back = passed ++ rest ∧ behind.At (front ++ passed) rest

theorem Advances.of_scanner_eq (same : behind.scanner = lexer.scanner) : Advances lexer behind :=
  fun front back place => ⟨[], back, rfl, by rw [List.append_nil, At, same, place]⟩

theorem At.advances {lexer behind : Lexer} (place : lexer.At front (passed ++ rest))
    (after : behind.At (front ++ passed) rest) : Advances lexer behind := by
  intro start back other
  obtain ⟨rfl, rfl⟩ := place.unique other
  exact ⟨passed, rest, rfl, after⟩

theorem Advances.refl (lexer : Lexer) : Advances lexer lexer := .of_scanner_eq rfl

theorem Advances.trans (first : Advances lexer middle) (second : Advances middle final) :
    Advances lexer final := by
  intro front back start
  obtain ⟨passed, rest, rfl, place⟩ := first front back start
  obtain ⟨more, rest, rfl, place⟩ := second _ _ place
  exact ⟨passed ++ more, rest, (List.append_assoc _ _ _).symm, by rwa [← List.append_assoc]⟩

theorem skip_advances (lexer : Lexer) (count : Nat) : Advances lexer (lexer.skip count) :=
  fun _ back place => ⟨back.take count, back.drop count, (List.take_append_drop _ _).symm,
    place.skip count⟩

theorem resumeAfter_advances (lexer : Lexer) (lineEnd : Nat) :
    Advances lexer (lexer.resumeAfter lineEnd) := by
  unfold resumeAfter
  split
  · exact .refl lexer
  · split
    · exact (skip_advances lexer _).trans (.of_scanner_eq rfl)
    · exact .refl lexer

theorem crossLineFeed_advances (lexer : Lexer) : Advances lexer lexer.crossLineFeed :=
  (skip_advances lexer 1).trans (resumeAfter_advances _ _)

theorem Piece.advances (piece : Piece lexer behind) : Advances lexer behind := by
  cases piece with
  | blank _ _ => exact (skip_advances lexer 1).trans (.of_scanner_eq rfl)
  | lineBreak _ _ => exact (crossLineFeed_advances lexer).trans (.of_scanner_eq rfl)
  | comment continued _ =>
    unfold skipComment
    split
    · exact (skip_advances lexer _).trans (crossLineFeed_advances _)
    · exact skip_advances lexer _
  | continuation _ =>
    exact ((skip_advances lexer _).trans (crossLineFeed_advances _)).trans (.of_scanner_eq rfl)
  | blockComment _ _ _ => exact skip_advances lexer _

theorem Passes.advances (passes : Passes lexer stop) : Advances lexer stop := by
  induction passes with
  | refl => exact .refl lexer
  | tail _ piece ih => exact ih.trans piece.advances

@[simp] theorem resumeAfter_last (lexer : Lexer) (lineEnd : Nat) :
    (lexer.resumeAfter lineEnd).last = lexer.last := by
  unfold resumeAfter
  split
  · rfl
  · split <;> rfl

@[simp] theorem resumeAfter_report (lexer : Lexer) (lineEnd : Nat) :
    (lexer.resumeAfter lineEnd).report = lexer.report := by
  unfold resumeAfter
  split
  · rfl
  · split <;> rfl

@[simp] theorem crossLineFeed_last (lexer : Lexer) : lexer.crossLineFeed.last = lexer.last :=
  resumeAfter_last _ _

@[simp] theorem crossLineFeed_report (lexer : Lexer) :
    lexer.crossLineFeed.report = lexer.report := resumeAfter_report _ _

/-- Trivia is no token and no fault. -/
theorem Piece.keeps (piece : Piece lexer behind) :
    behind.last = lexer.last ∧ behind.report = lexer.report := by
  cases piece with
  | blank _ _ => exact ⟨rfl, rfl⟩
  | lineBreak _ _ => exact ⟨crossLineFeed_last lexer, crossLineFeed_report lexer⟩
  | comment continued _ =>
    unfold skipComment
    split
    · exact ⟨crossLineFeed_last _, crossLineFeed_report _⟩
    · exact ⟨rfl, rfl⟩
  | continuation _ => exact ⟨crossLineFeed_last _, crossLineFeed_report _⟩
  | blockComment _ _ _ => exact ⟨rfl, rfl⟩

theorem Passes.keeps (passes : Passes lexer stop) :
    stop.last = lexer.last ∧ stop.report = lexer.report := by
  induction passes with
  | refl => exact ⟨rfl, rfl⟩
  | tail _ piece ih => exact ⟨piece.keeps.1.trans ih.1, piece.keeps.2.trans ih.2⟩

/-- What the lexer emits where it stands, before the white space around the
token is noted, and the lexer behind it. -/
inductive Emits (lexer : Lexer) : Token → Lexer → Prop where
  | separator (place : AtSeparator lexer) : Emits lexer lexer.newLine lexer.crossLineFeed
  | endOfInput (ended : lexer.scanner.ahead = []) :
      Emits lexer (lexer.cut { kind := .endOfFile, body := [] }).1
        (lexer.cut { kind := .endOfFile, body := [] }).2
  | lexeme {bodies : Option Lexeme.Pending} (place : AtToken lexer)
      (read : Lexeme.read lexer.context lexer.scanner.offset lexer.pending lexer.scanner.ahead =
        .ok (lexeme, bodies))
      (sound : lexeme.Sound lexer.scanner.ahead) :
      Emits lexer ({ lexer with pending := bodies }.cut lexeme).1
        ({ lexer with pending := bodies }.cut lexeme).2
  | fault (place : AtToken lexer)
      (read : Lexeme.read lexer.context lexer.scanner.offset lexer.pending lexer.scanner.ahead =
        .error fault)
      (sound : fault.Sound lexer.scanner.ahead) : Emits lexer (lexer.fail fault).1 (lexer.fail fault).2

theorem readToken_emits (place : AtToken lexer) :
    Emits lexer lexer.readToken.1 lexer.readToken.2 := by
  unfold readToken
  cases ahead : lexer.scanner.ahead with
  | nil =>
    rw [Lexeme.read_nil]
    exact .endOfInput ahead
  | cons c rest =>
    have inLine : c ≠ '\n' := by
      rintro rfl
      exact place.inLine rest ahead
    have sound := Lexeme.read_sound lexer.context lexer.scanner.offset lexer.pending inLine rest
    rw [← ahead] at sound ⊢
    cases read : Lexeme.read lexer.context lexer.scanner.offset lexer.pending lexer.scanner.ahead with
    | ok result =>
      rw [read] at sound
      exact .lexeme place read sound
    | error fault =>
      rw [read] at sound
      exact .fault place read sound

/-- The next token: trivia is passed, and what is emitted behind it gets its spacing. -/
theorem next_emits (running : lexer.halted = false) :
    ∃ stop token behind, Passes lexer stop ∧ Emits stop token behind ∧
      lexer.next = (some (behind.finish token).1, (behind.finish token).2) := by
  obtain ⟨stop, passes, ⟨place, skipped⟩ | ⟨place, skipped⟩⟩ := skipTrivia_cases false lexer
  · refine ⟨stop, stop.readToken.1, stop.readToken.2, passes, readToken_emits place, ?_⟩
    simp [next, running, skipped]
  · refine ⟨stop, stop.newLine, stop.crossLineFeed, passes, .separator place, ?_⟩
    simp [next, running, skipped]

theorem cut_eq_skip (lexer : Lexer) (lexeme : Lexeme) :
    (lexer.cut lexeme).2 = ((lexer.skip lexeme.opening.length).skip lexeme.body.length).skip
      (lexeme.closing ++ lexeme.options).length := rfl

theorem cut_advances (lexer : Lexer) (lexeme : Lexeme) : Advances lexer (lexer.cut lexeme).2 :=
  ((skip_advances lexer _).trans (skip_advances _ _)).trans (skip_advances _ _)

theorem fail_advances (lexer : Lexer) (fault : Lexeme.Fault) :
    Advances lexer (lexer.fail fault).2 :=
  ((skip_advances lexer fault.opening.length).trans (skip_advances _ fault.body.length)).trans
    (.of_scanner_eq rfl)

theorem Emits.advances (emits : Emits lexer token behind) : Advances lexer behind := by
  cases emits with
  | separator _ => exact crossLineFeed_advances lexer
  | endOfInput _ => exact cut_advances lexer _
  | lexeme _ _ _ => exact (Advances.of_scanner_eq rfl).trans (cut_advances _ _)
  | fault _ _ _ => exact fail_advances lexer _

end Lexer

end RubySyntax
