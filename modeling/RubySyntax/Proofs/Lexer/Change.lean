import Mathlib.Data.List.Forall2
import RubySyntax.Proofs.Grammar.Congruence
import RubySyntax.Proofs.Lexer.Turn

/-! Two sources that begin alike. In front of the place where they part the lexer does
the same in both, as long as nothing that ends there looks beyond it. -/
namespace RubySyntax

open Text (isBlank isLineBreak isSpace)

namespace Lexer

/-- The same place of another text. -/
def withAhead (ahead : List Char) (lexer : Lexer) : Lexer :=
  { lexer with scanner := { lexer.scanner with ahead } }

variable {lexer behind stop : Lexer} {front passed back other rest : List Char}
  {continued continued' : Bool}

theorem At.withAhead (place : lexer.At front back) (other : List Char) :
    (lexer.withAhead other).At front other := by
  show { lexer.scanner with ahead := other } = _
  rw [show lexer.scanner = .between front back from place]
  rfl

theorem At.of_ahead (place : lexer.At front back) (ahead : lexer.scanner.ahead = other) :
    lexer.At front other := place.ahead.symm.trans ahead ▸ place

/-- A step from a known place leads where it has been seen to lead. -/
theorem At.passed_eq {chars more : List Char} (place : behind.At (front ++ passed) back)
    (moved : behind.At (front ++ chars) more) : passed = chars ∧ back = more := by
  obtain ⟨same, rest⟩ := place.unique moved
  exact ⟨List.append_cancel_left same, rest⟩

theorem skip_withAhead (place : lexer.At front (passed ++ back)) (other : List Char) :
    (lexer.withAhead (passed ++ other)).skip passed.length =
      (lexer.skip passed.length).withAhead other := by
  simp [Lexer.skip, withAhead, Scanner.skip, Scanner.ignore, place.ahead]

theorem skipTo_withAhead (place : lexer.At front (passed ++ back)) (other : List Char) :
    (lexer.withAhead (passed ++ other)).skipTo other = (lexer.skipTo back).withAhead other := by
  have here : lexer.scanner.ahead.length - back.length = passed.length := by simp [place.ahead]
  have there : (passed ++ other).length - other.length = passed.length := by simp
  rw [skipTo, skipTo, here, ← skip_withAhead place]
  exact congrArg (fun count => (lexer.withAhead (passed ++ other)).skip count) there

theorem crossLineFeed_withAhead (idle : lexer.pending = none) (place : lexer.At front ('\n' :: back))
    (other : List Char) : (lexer.withAhead ('\n' :: other)).crossLineFeed =
      lexer.crossLineFeed.withAhead other := by
  have idle' : (lexer.withAhead ('\n' :: other)).pending = none := idle
  rw [crossLineFeed_idle idle, crossLineFeed_idle idle']
  exact @skip_withAhead lexer front ['\n'] back place other

theorem At.crossLineFeed (idle : lexer.pending = none) (place : lexer.At front ('\n' :: back)) :
    lexer.crossLineFeed.At (front ++ ['\n']) back := by
  rw [crossLineFeed_idle idle]
  exact place.skip 1

/-- A line that ends in front of a place ends there whatever comes on the next one. -/
theorem fromLineEnd_other (same : fromLineEnd (passed ++ '\n' :: rest) = '\n' :: rest)
    (other : List Char) : fromLineEnd (passed ++ '\n' :: other) = '\n' :: other := by
  have stops : (!isLineBreak '\n') = false := by decide
  unfold fromLineEnd at same ⊢
  rw [Text.dropWhile_stop stops] at same ⊢
  rw [List.append_left_eq_self.mp same, List.nil_append]

theorem skipLine_withAhead (place : lexer.At front (passed ++ '\n' :: back))
    (line : fromLineEnd (passed ++ '\n' :: back) = '\n' :: back) (other : List Char) :
    (lexer.withAhead (passed ++ '\n' :: other)).skipLine =
      lexer.skipLine.withAhead ('\n' :: other) := by
  have line' : fromLineEnd (lexer.withAhead (passed ++ '\n' :: other)).scanner.ahead =
      '\n' :: other := fromLineEnd_other line other
  rw [skipLine_eq, skipLine_eq, line', place.ahead, line]
  exact skipTo_withAhead place ('\n' :: other)

theorem At.skipLine (place : lexer.At front (passed ++ back))
    (line : fromLineEnd (passed ++ back) = back) : lexer.skipLine.At (front ++ passed) back := by
  rw [skipLine_eq, place.ahead, line]
  exact place.skipTo

/-- A comment runs to the end of its line. -/
theorem At.comment (place : lexer.At front back) (ahead : lexer.scanner.ahead = '#' :: tail) :
    ∃ line, fromLineEnd ('#' :: line ++ fromLineEnd tail) = fromLineEnd tail ∧
      lexer.At front ('#' :: line ++ fromLineEnd tail) := by
  obtain ⟨line, parts⟩ : fromLineEnd tail <:+ tail := List.dropWhile_suffix _
  have same : fromLineEnd ('#' :: tail) = fromLineEnd tail := rfl
  refine ⟨line, ?_, place.of_ahead ?_⟩
  · rw [List.cons_append, parts, same]
  · rw [ahead, List.cons_append, parts]

/-- A block comment runs to the end of the line that closes it. -/
theorem At.blockComment (place : lexer.At front back) (ahead : lexer.scanner.ahead = c :: tail) :
    ∃ inside, inside ++ afterBlockComment tail = tail ∧
      lexer.At front (c :: inside ++ afterBlockComment tail) := by
  obtain ⟨inside, parts⟩ := afterBlockComment_suffix tail
  refine ⟨inside, parts, place.of_ahead ?_⟩
  rw [ahead, List.cons_append, parts]

theorem skipComment_advances (continued : Bool) (lexer : Lexer) :
    Advances lexer.skipLine (lexer.skipComment continued) := by
  cases continued with
  | false => exact .refl _
  | true => exact crossLineFeed_advances _

/-- So does a block comment. -/
theorem afterBlockComment_other (same : afterBlockComment (passed ++ '\n' :: rest) = '\n' :: rest)
    (other : List Char) : afterBlockComment (passed ++ '\n' :: other) = '\n' :: other := by
  induction passed with
  | nil =>
    have shorter : (afterBlockComment ('\n' :: rest)).length ≤ rest.length := by
      rw [afterBlockComment]
      split
      · exact length_fromLineEnd rest
      · exact length_afterBlockComment rest
    rw [List.nil_append] at same
    rw [same, List.length_cons] at shorter
    omega
  | cons c passed ih =>
    have absent : '\n' ∉ "=end".toList := by decide
    rw [List.cons_append, afterBlockComment, Lexeme.isPrefixOf_append_cons absent] at same ⊢
    split at same
    · rename_i closes
      rw [if_pos closes]
      exact fromLineEnd_other same other
    · rename_i goesOn
      rw [if_neg goesOn]
      exact ih same

theorem afterBlockComment_cases (cs : List Char) :
    afterBlockComment cs = [] ∨ ∃ below, afterBlockComment cs = '\n' :: below := by
  induction cs with
  | nil => exact .inl rfl
  | cons c rest ih =>
    rw [afterBlockComment]
    split
    · exact fromLineEnd_cases rest
    · exact ih

/-- What continues a line continues it whatever comes on the next one. -/
theorem continuation_marks {input : List Char} (follows : continuation input ≠ 0) :
    ∃ c marks below, input = c :: marks ++ '\n' :: below ∧
      ∀ other, continuation (c :: marks ++ '\n' :: other) - 1 = (c :: marks).length ∧
        continuation (c :: marks ++ '\n' :: other) ≠ 0 := by
  unfold continuation at follows
  split at follows
  · rename_i short
    obtain ⟨below, rfl⟩ := List.isPrefixOf_iff_prefix.mp short
    exact ⟨'\\', [], below, rfl, fun other => by simp [continuation, List.isPrefixOf]⟩
  · split at follows
    · rename_i long
      obtain ⟨below, rfl⟩ := List.isPrefixOf_iff_prefix.mp long
      exact ⟨'\\', ['\r'], below, rfl, fun other => by simp [continuation, List.isPrefixOf]⟩
    · exact absurd rfl follows

/-- A lexeme is cut whatever comes behind it. -/
theorem cut_withAhead {lexeme : Lexeme} (place : lexer.At front (lexeme.chars ++ back))
    (other : List Char) : (lexer.withAhead (lexeme.chars ++ other)).cut lexeme =
      ((lexer.cut lexeme).1, (lexer.cut lexeme).2.withAhead other) := by
  have token (opened : Lexer) : (opened.cut lexeme).1 =
      { kind := lexeme.kind, text := .ofList lexeme.text, span := (opened.cut lexeme).1.span,
        suffix := .ofList lexeme.options } := rfl
  refine Prod.ext ?_ ?_
  · rw [token lexer, token, place.cut_span, (place.withAhead (lexeme.chars ++ other)).cut_span]
  · simp only [Lexeme.chars, List.append_assoc] at place ⊢
    have opened := place.skip_append
    have passed := opened.skip_append
    rw [← List.append_assoc lexeme.closing] at passed
    rw [cut_eq_skip, cut_eq_skip, skip_withAhead place, skip_withAhead opened,
      ← List.append_assoc lexeme.closing, skip_withAhead passed]

/-- White space is found behind a place of the other text where it was, unless nothing is
left up to where the texts part. -/
theorem finish_withAhead {old : List Char} (here : lexer.At front (rest ++ old))
    (more : List Char) (token : Token) :
    ∃ spaceAfter, (lexer.withAhead (rest ++ ' ' :: more)).finish token =
        ({ (lexer.finish token).1 with spacing := { (lexer.finish token).1.spacing with spaceAfter } },
          (lexer.finish token).2.withAhead (rest ++ ' ' :: more)) ∧
      ((rest = [] → old.head?.all isSpace = true) →
        spaceAfter = (lexer.finish token).1.spacing.spaceAfter) := by
  refine ⟨(rest ++ ' ' :: more).head?.all isSpace, rfl, ?_⟩
  intro ends
  show _ = lexer.scanner.ahead.head?.all isSpace
  rw [here.ahead]
  cases rest with
  | nil => exact (ends rfl).symm
  | cons c rest => rfl

/-- A token that follows the trivia is reached behind the same trivia. -/
theorem skipTrivia_withAhead (begins : AtToken lexer) (ahead : lexer.scanner.ahead = c :: back)
    (visible : c ≠ '\\') (alike : ∀ pattern : List Char, ' ' ∉ pattern →
      pattern.isPrefixOf (c :: other) = true → pattern.isPrefixOf (c :: back) = true) :
    (lexer.withAhead (c :: other)).skipTrivia continued = (none, lexer.withAhead (c :: other)) := by
  have notBlank : ¬ isBlank c = true := fun blank => begins.noPiece _ (.blank ahead blank)
  have inLine : ¬ isLineBreak c = true := by
    intro feed
    obtain rfl : c = '\n' := by simpa [isLineBreak] using feed
    exact begins.inLine back ahead
  have noComment : ¬ c = '#' := by
    rintro rfl
    exact begins.noPiece _ (.comment false ahead)
  have whole : ¬ continuation (c :: other) ≠ 0 := fun follows => visible (continuation_backslash follows)
  have noBlock : ¬ ((lexer.withAhead (c :: other)).atLineStart &&
      "=begin".toList.isPrefixOf (c :: other)) = true := by
    intro block
    obtain ⟨starts, opens⟩ := Bool.and_eq_true_iff.mp block
    exact begins.noPiece _ (.blockComment ahead starts (alike _ (by decide) opens))
  rw [skipTrivia_cons rfl, if_neg notBlank, if_neg inLine, if_neg noComment, if_neg whole,
    if_neg noBlock]

/-- Where nothing of `rest` is left the text goes on within a line. -/
def WithinLine (rest old : List Char) : Prop :=
  rest = [] → old.head?.any (fun c => !isLineBreak c) = true

theorem WithinLine.ne_nil {old : List Char} (within : WithinLine rest old) : rest ++ old ≠ [] := by
  intro ended
  obtain ⟨rfl, rfl⟩ := List.append_eq_nil_iff.mp ended
  cases within rfl

theorem WithinLine.lineFeed {old below : List Char} (within : WithinLine rest old)
    (same : rest ++ old = '\n' :: below) : ∃ left, rest = '\n' :: left := by
  cases rest with
  | nil =>
    have inLine := within rfl
    rw [show old = '\n' :: below from same] at inLine
    cases inLine
  | cons c left => exact ⟨left, by rw [(List.cons.inj same).1]⟩

section Turns

variable {old tail : List Char} (new : List Char)
  (here : lexer.At front (passed ++ (rest ++ old)))

include here

theorem turn_blank (ahead : lexer.scanner.ahead = c :: tail) (blank : isBlank c = true)
    (there : (lexer.skip 1).noteBlank.At (front ++ passed) (rest ++ old)) :
    Turn continued (lexer.withAhead (passed ++ (rest ++ new))) continued
      ((lexer.skip 1).noteBlank.withAhead (rest ++ new)) := by
  have placed : lexer.At front ([c] ++ tail) := here.of_ahead ahead
  obtain ⟨rfl, rfl⟩ := there.passed_eq placed.skip_append
  have turn : Turn continued (lexer.withAhead ([c] ++ (rest ++ new))) continued
      ((lexer.withAhead ([c] ++ (rest ++ new))).skip [c].length).noteBlank := .blank rfl blank
  rw [skip_withAhead here] at turn
  exact turn

theorem turn_comment (idle : lexer.pending = none) (ahead : lexer.scanner.ahead = '#' :: tail)
    (there : (lexer.skipComment continued).At (front ++ passed) (rest ++ old))
    (within : WithinLine rest old) :
    Turn continued (lexer.withAhead (passed ++ (rest ++ new))) continued
      ((lexer.skipComment continued).withAhead (rest ++ new)) := by
  obtain ⟨line, stays, placed⟩ := here.comment ahead
  have ends := placed.skipLine stays
  have idle' : lexer.skipLine.pending = none := idle
  obtain ended | ⟨below, feed⟩ := fromLineEnd_cases tail
  · rw [ended] at ends
    obtain ⟨_, _, nothing, after⟩ := skipComment_advances continued lexer _ _ ends
    have same := (there.unique after).2
    exact absurd (same.trans (List.append_eq_nil_iff.mp nothing.symm).2) within.ne_nil
  rw [feed] at placed stays ends
  cases continued with
  | false =>
    obtain ⟨rfl, same⟩ := there.passed_eq ends
    obtain ⟨left, rfl⟩ := within.lineFeed same
    have turn : Turn false (lexer.withAhead ('#' :: line ++ '\n' :: (left ++ new))) false
        (lexer.withAhead ('#' :: line ++ '\n' :: (left ++ new))).skipLine := .comment rfl
    rw [skipLine_withAhead placed stays] at turn
    exact turn
  | true =>
    have after : (lexer.skipComment true).At (front ++ ('#' :: line ++ ['\n'])) below := by
      rw [← List.append_assoc]
      exact At.crossLineFeed idle' ends
    obtain ⟨rfl, rfl⟩ := there.passed_eq after
    have turn : Turn true (lexer.withAhead ('#' :: line ++ '\n' :: (rest ++ new))) true
        (lexer.withAhead ('#' :: line ++ '\n' :: (rest ++ new))).skipLine.crossLineFeed :=
      .comment rfl
    rw [skipLine_withAhead placed stays, crossLineFeed_withAhead idle' ends] at turn
    rw [List.append_assoc]
    exact turn

theorem turn_continuation (idle : lexer.pending = none) (ahead : lexer.scanner.ahead = tail)
    (follows : continuation tail ≠ 0)
    (there : lexer.continueLine.At (front ++ passed) (rest ++ old)) :
    Turn continued (lexer.withAhead (passed ++ (rest ++ new))) true
      (lexer.continueLine.withAhead (rest ++ new)) := by
  obtain ⟨c, marks, below, split, continues⟩ := continuation_marks follows
  have placed : lexer.At front (c :: marks ++ '\n' :: below) := here.of_ahead (ahead.trans split)
  have feed := placed.skip_append
  have idle' : (lexer.skip (c :: marks).length).pending = none := idle
  have marked : lexer.continueLine = (lexer.skip (c :: marks).length).crossLineFeed.noteBlank := by
    rw [continueLine, ahead, split, (continues below).1]
  have after : lexer.continueLine.At (front ++ (c :: marks ++ ['\n'])) below := by
    rw [marked, ← List.append_assoc]
    exact At.crossLineFeed idle' feed
  obtain ⟨rfl, rfl⟩ := there.passed_eq after
  have marked' : (lexer.withAhead (c :: marks ++ '\n' :: (rest ++ new))).continueLine =
      lexer.continueLine.withAhead (rest ++ new) := by
    show ((lexer.withAhead (c :: marks ++ '\n' :: (rest ++ new))).skip
      (continuation (c :: marks ++ '\n' :: (rest ++ new)) - 1)).crossLineFeed.noteBlank = _
    rw [(continues _).1, skip_withAhead placed, crossLineFeed_withAhead idle' feed, marked]
    rfl
  have turn : Turn continued (lexer.withAhead (c :: marks ++ '\n' :: (rest ++ new))) true
      (lexer.withAhead (c :: marks ++ '\n' :: (rest ++ new))).continueLine :=
    .continuation rfl (continues _).2
  rw [marked'] at turn
  rw [List.append_assoc]
  exact turn

theorem turn_blockComment (ahead : lexer.scanner.ahead = c :: tail)
    (start : lexer.atLineStart = true) (opens : "=begin".toList.isPrefixOf (c :: tail) = true)
    (there : (lexer.skipTo (afterBlockComment tail)).At (front ++ passed) (rest ++ old))
    (within : WithinLine rest old) :
    Turn continued (lexer.withAhead (passed ++ (rest ++ new))) false
      ((lexer.skipTo (afterBlockComment tail)).withAhead (rest ++ new)) := by
  obtain ⟨inside, parts, placed⟩ := here.blockComment ahead
  obtain ⟨rfl, same⟩ := there.passed_eq placed.skipTo
  obtain ended | ⟨below, feed⟩ := afterBlockComment_cases tail
  · exact absurd (same.trans ended) within.ne_nil
  obtain ⟨left, rfl⟩ := within.lineFeed (same.trans feed)
  rw [feed] at parts placed ⊢
  have absent : '\n' ∉ "=begin".toList := by decide
  have stays : afterBlockComment (inside ++ '\n' :: below) = '\n' :: below := by rw [parts, feed]
  have closes := afterBlockComment_other stays (left ++ new)
  rw [← parts, ← List.cons_append, Lexeme.isPrefixOf_append_cons absent] at opens
  rw [← Lexeme.isPrefixOf_append_cons absent (c :: inside) (left ++ new)] at opens
  have turn : Turn continued (lexer.withAhead (c :: inside ++ '\n' :: (left ++ new))) false
      ((lexer.withAhead (c :: inside ++ '\n' :: (left ++ new))).skipTo
        (afterBlockComment (inside ++ '\n' :: (left ++ new)))) := .blockComment rfl start opens
  rw [closes, skipTo_withAhead placed] at turn
  exact turn

end Turns

end Lexer

open Lexer

/-- The same tokens, but that white space may or may not stand behind the last one. -/
def Token.Touched (tokens others : List Token) : Prop :=
  others = tokens ∨ ∃ front token spaceAfter, tokens = front ++ [token] ∧
    others = front ++ [{ token with spacing := { token.spacing with spaceAfter } }]

theorem Token.Touched.nil {others : List Token} (touched : Touched [] others) : others = [] := by
  rcases touched with rfl | ⟨front, token, _, none, _⟩
  · rfl
  · exact absurd none.symm (List.append_ne_nil_of_right_ne_nil front (List.cons_ne_nil token []))

theorem Token.Touched.cons {tokens others : List Token} (touched : Touched tokens others)
    (first : Token) : Touched (first :: tokens) (first :: others) := by
  rcases touched with rfl | ⟨front, token, spaceAfter, rfl, rfl⟩
  · exact .inl rfl
  · exact .inr ⟨first :: front, token, spaceAfter, rfl, rfl⟩

/-- Behind `front` a source may go on with a blank and `more` instead of `old`: no token
and no line break in front of that place look at the difference. -/
structure Change (front old more : List Char) : Prop where
  token : ∀ {start c rest context offset lexeme}, front = start ++ c :: rest →
    (!context.namesMethod && Lexeme.heredocFollows context (c :: rest ++ old)) = false →
    Lexeme.read context offset none (c :: rest ++ old) = .ok (lexeme, none) →
    lexeme.chars.length ≤ (c :: rest).length →
    Lexeme.read context offset none (c :: rest ++ ' ' :: more) = .ok (lexeme, none)
  lineBreak : ∀ {start rest}, front = start ++ '\n' :: rest →
    leadingDotFollows (rest ++ ' ' :: more) = leadingDotFollows (rest ++ old)

namespace Change

variable {text old more : List Char} {lexer behind stop final : Lexer}
  {front passed rest : List Char} {continued continued' : Bool}

theorem separates (change : Change text old more) {start : List Char}
    (split : text = start ++ '\n' :: rest) (place : lexer.At front (rest ++ old)) :
    (lexer.withAhead (rest ++ ' ' :: more)).separates = lexer.separates := by
  show (lexer.last.any _ && !leadingDotFollows (rest ++ ' ' :: more)) = _
  rw [change.lineBreak split, ← place.ahead]
  rfl

theorem turn_lineBreak (change : Change text old more) (idle : lexer.pending = none)
    (split : text = front ++ (passed ++ rest)) (here : lexer.At front (passed ++ (rest ++ old)))
    (ahead : lexer.scanner.ahead = '\n' :: tail) (joins : lexer.crossLineFeed.separates = false)
    (there : lexer.crossLineFeed.noteBreak.At (front ++ passed) (rest ++ old)) :
    Turn continued (lexer.withAhead (passed ++ (rest ++ ' ' :: more))) false
      (lexer.crossLineFeed.noteBreak.withAhead (rest ++ ' ' :: more)) := by
  have after := At.crossLineFeed idle (here.of_ahead ahead)
  obtain ⟨rfl, rfl⟩ := there.passed_eq after
  have crossed := crossLineFeed_withAhead idle here (rest ++ ' ' :: more)
  have separates := change.separates (show text = front ++ '\n' :: rest from split) after
  rw [joins, ← crossed] at separates
  have turn : Turn continued (lexer.withAhead ('\n' :: (rest ++ ' ' :: more))) false
      (lexer.withAhead ('\n' :: (rest ++ ' ' :: more))).crossLineFeed.noteBreak :=
    .lineBreak rfl separates
  rw [crossed] at turn
  exact turn

/-- A turn that ends in front of the place is the same in both sources, unless a line ends
there. -/
theorem turn (change : Change text old more) (turn : Turn continued lexer continued' behind)
    (idle : lexer.pending = none) (split : text = front ++ (passed ++ rest))
    (here : lexer.At front (passed ++ (rest ++ old)))
    (there : behind.At (front ++ passed) (rest ++ old)) (within : WithinLine rest old) :
    Turn continued (lexer.withAhead (passed ++ (rest ++ ' ' :: more))) continued'
      (behind.withAhead (rest ++ ' ' :: more)) := by
  cases turn with
  | blank ahead blank => exact turn_blank _ here ahead blank there
  | lineBreak ahead joins => exact change.turn_lineBreak idle split here ahead joins there
  | comment ahead => exact turn_comment _ here idle ahead there within
  | continuation ahead follows => exact turn_continuation _ here idle ahead follows there
  | blockComment ahead start opens => exact turn_blockComment _ here ahead start opens there within

/-- So are all turns up to there. -/
theorem reaches (change : Change text old more)
    (reaches : Reaches continued lexer continued' stop) (idle : lexer.pending = none)
    (split : text = front ++ (passed ++ rest)) (here : lexer.At front (passed ++ (rest ++ old)))
    (there : stop.At (front ++ passed) (rest ++ old)) (within : WithinLine rest old) :
    Reaches continued (lexer.withAhead (passed ++ (rest ++ ' ' :: more))) continued'
      (stop.withAhead (rest ++ ' ' :: more)) := by
  induction reaches generalizing front passed with
  | here =>
    obtain ⟨none, _⟩ := there.unique here
    rw [List.append_right_eq_self.mp none, List.nil_append]
    exact .here
  | turn first later ih =>
    obtain ⟨begun, left, parts, between⟩ := first.piece.advances _ _ here
    obtain ⟨rest', left', rfl, stopped⟩ := later.passes.advances _ _ between
    rw [List.append_assoc] at stopped
    obtain ⟨rfl, rfl⟩ := there.passed_eq stopped
    have within' : WithinLine (rest' ++ rest) old := fun none =>
      within (List.append_eq_nil_iff.mp none).2
    rw [← List.append_assoc rest'] at between
    rw [List.append_assoc] at split
    rw [List.append_assoc begun, ← List.append_assoc rest'] at here
    have turn := change.turn first idle split here between within'
    rw [List.append_assoc rest'] at between turn
    rw [← List.append_assoc] at split there
    rw [List.append_assoc]
    exact .turn turn (ih (first.piece.idle idle) split between there)

/-- A token in front of the place that others follow is the same in both sources. -/
theorem readToken (change : Change text old more) (begins : AtToken lexer)
    (idle : lexer.pending = none) (split : text = front ++ (passed ++ rest))
    (here : lexer.At front (passed ++ (rest ++ old)))
    (there : lexer.readToken.2.At (front ++ passed) (rest ++ old))
    (running : lexer.readToken.1.isTerminal = false)
    (plain : Lexeme.opener? lexer.context (passed ++ (rest ++ old)) = none) :
    (lexer.withAhead (passed ++ (rest ++ ' ' :: more))).skipTrivia continued =
        (none, lexer.withAhead (passed ++ (rest ++ ' ' :: more))) ∧
      (lexer.withAhead (passed ++ (rest ++ ' ' :: more))).readToken =
        (lexer.readToken.1, lexer.readToken.2.withAhead (rest ++ ' ' :: more)) ∧
      lexer.readToken.2.pending = none := by
  cases ahead : lexer.scanner.ahead with
  | nil =>
    unfold Lexer.readToken at running
    rw [ahead, Lexeme.read_nil] at running
    cases running
  | cons c tail =>
    rw [here.ahead.symm.trans ahead] at plain
    obtain ⟨lexeme, read, ⟨⟨⟨below, parts⟩, advances, _⟩, _, _⟩, cut, _, visible⟩ :=
      lexeme_of_readToken begins idle ahead (known_of_running running) plain
    have placed : lexer.At front (lexeme.chars ++ below) := here.of_ahead (ahead.trans parts.symm)
    have opens := Lexeme.heredocFollows_of_opener? read plain
    rw [cut] at there ⊢
    obtain ⟨rfl, rfl⟩ := there.passed_eq placed.cut
    obtain ⟨d, chars, first⟩ := List.exists_cons_of_ne_nil advances
    obtain ⟨rfl, rfl⟩ : d = c ∧ chars ++ (rest ++ old) = tail := by
      rw [first] at parts
      exact List.cons.inj parts
    rw [← List.append_assoc, ← List.cons_append] at read opens
    have read' := change.token (by rw [split, first, List.cons_append]) opens read (by simp [first])
    rw [List.cons_append, List.append_assoc, ← List.cons_append, ← first] at read'
    refine ⟨?_, ?_, idle⟩
    · rw [first, List.cons_append]
      refine skipTrivia_withAhead begins ahead visible fun pattern absent opens => ?_
      rw [← List.append_assoc, ← List.cons_append, Lexeme.isPrefixOf_append_cons absent] at opens
      rw [List.isPrefixOf_iff_prefix] at opens ⊢
      rw [← List.append_assoc, ← List.cons_append]
      exact opens.trans (List.prefix_append _ _)
    · have idle' : (lexer.withAhead (lexeme.chars ++ (rest ++ ' ' :: more))).pending = none := idle
      rw [readToken_of_read idle' read']
      exact cut_withAhead placed _

/-- The trivia in front of a token that ends up to there is passed alike. -/
theorem trail {trivia chars : List Char} (change : Change text old more)
    (reaches : Reaches false lexer continued stop) (idle : lexer.pending = none)
    (split : text = front ++ (trivia ++ (chars ++ rest)))
    (here : lexer.At front (trivia ++ (chars ++ (rest ++ old))))
    (there : stop.At (front ++ trivia) (chars ++ (rest ++ old))) (takes : chars ≠ []) :
    Reaches false (lexer.withAhead (trivia ++ (chars ++ (rest ++ ' ' :: more)))) continued
      (stop.withAhead (chars ++ (rest ++ ' ' :: more))) := by
  rw [← List.append_assoc chars] at here there ⊢
  exact change.reaches reaches idle split here there fun none =>
    absurd (List.append_eq_nil_iff.mp none).1 takes

/-- The next token up to the place is the same in both sources, and so is the white space
behind it unless it touches the place. -/
theorem next {token : Token} (change : Change text old more) (idle : lexer.pending = none)
    (split : text = front ++ (passed ++ rest)) (here : lexer.At front (passed ++ (rest ++ old)))
    (read : lexer.next = (some token, behind)) (running : token.isTerminal = false)
    (there : behind.At (front ++ passed) (rest ++ old))
    (plain : lexer.nextTaken.1.opener? = none) :
    (∃ spaceAfter, (lexer.withAhead (passed ++ (rest ++ ' ' :: more))).next =
        (some { token with spacing := { token.spacing with spaceAfter } },
          behind.withAhead (rest ++ ' ' :: more)) ∧
      ((rest = [] → old.head?.all isSpace = true) → spaceAfter = token.spacing.spaceAfter)) ∧
      behind.pending = none := by
  have going := running_of_next read
  have going' : (lexer.withAhead (passed ++ (rest ++ ' ' :: more))).halted = false := going
  obtain ⟨continued, stop, reaches, stops⟩ := reaches_stop false lexer
  obtain ⟨trivia, left, parts, stopped⟩ := reaches.passes.advances _ _ here
  have calm := reaches.passes.idle idle
  obtain ⟨begins, skipped⟩ | ⟨separator, skipped⟩ := stops
  · cases (next_of_token going skipped).symm.trans read
    have taken := nextTaken_of_token skipped
    have running : stop.readToken.1.isTerminal = false := running
    rw [taken, taking, if_neg (by rw [running]; exact Bool.false_ne_true)] at plain
    have shorter := (readToken_emits begins).length_lt running
    obtain ⟨chars, left, rfl, after⟩ := (readToken_emits begins).advances _ _ stopped
    rw [List.append_assoc] at after
    obtain ⟨rfl, rfl⟩ := (show stop.readToken.2.At _ _ from there).passed_eq after
    have takes : chars ≠ [] := by
      rintro rfl
      rw [stopped.ahead, after.ahead] at shorter
      exact absurd shorter (Nat.lt_irrefl _)
    rw [List.append_assoc] at split here going' ⊢
    have trail := change.trail reaches idle split here stopped takes
    rw [stopped.ahead] at plain
    rw [← List.append_assoc] at split after
    obtain ⟨stays, token, calm'⟩ := change.readToken begins calm split stopped after running plain
    obtain ⟨spaceAfter, finished, spaced⟩ := finish_withAhead after more stop.readToken.1
    refine ⟨⟨spaceAfter, ?_, spaced⟩, calm'⟩
    rw [next_of_token going' (trail.skipTrivia.trans stays), token, finished]
  · cases (next_of_separator going skipped).symm.trans read
    obtain ⟨⟨below, ahead⟩, separates⟩ := separator
    have placed := stopped.of_ahead ahead
    have crossed := At.crossLineFeed calm placed
    rw [List.append_assoc] at crossed
    obtain ⟨rfl, rfl⟩ := (show stop.crossLineFeed.At _ _ from there).passed_eq crossed
    rw [List.append_assoc] at split here going' ⊢
    have trail := change.trail reaches idle split here placed (List.cons_ne_nil _ _)
    rw [← List.append_assoc] at split
    have separates' := change.separates (show text = (front ++ trivia) ++ '\n' :: rest from split) crossed
    have skipped' := skipTrivia_lineFeed
      (show (stop.withAhead ('\n' :: (rest ++ ' ' :: more))).scanner.ahead = _ from rfl) continued
    rw [crossLineFeed_withAhead calm placed, separates', if_pos separates] at skipped'
    obtain ⟨spaceAfter, finished, spaced⟩ := finish_withAhead crossed more stop.newLine
    refine ⟨⟨spaceAfter, ?_, spaced⟩, crossLineFeed_pending calm⟩
    rw [next_of_separator going' (trail.skipTrivia.trans skipped')]
    exact congrArg (fun read : Token × Lexer => (some read.1, read.2)) finished

/-- So are all the tokens up to there. -/
theorem run {tokens : List Token} (change : Change text old more) (run : Run lexer tokens final)
    (running : final.halted = false) (idle : lexer.pending = none)
    (split : text = front ++ (passed ++ rest)) (here : lexer.At front (passed ++ (rest ++ old)))
    (there : final.At (front ++ passed) (rest ++ old)) (enough : tokens.length ≤ count)
    (plain : ∀ taken ∈ Lexer.takings count lexer, taken.opener? = none) :
    (∃ tokens', Run (lexer.withAhead (passed ++ (rest ++ ' ' :: more))) tokens'
        (final.withAhead (rest ++ ' ' :: more)) ∧ Token.Touched tokens tokens' ∧
      ((rest = [] → old.head?.all isSpace = true) → tokens' = tokens)) ∧
      final.pending = none := by
  induction run generalizing front passed count with
  | done =>
    obtain ⟨none, _⟩ := there.unique here
    rw [List.append_right_eq_self.mp none, List.nil_append]
    exact ⟨⟨[], .done, .inl rfl, fun _ => rfl⟩, idle⟩
  | @more token behind tokens final lexer read others ih =>
    obtain ⟨count, rfl⟩ : ∃ left, count = left + 1 := ⟨count - 1, by
      rw [List.length_cons] at enough
      omega⟩
    rw [takings_of_next read, List.forall_mem_cons] at plain
    obtain ⟨begun, left, parts, between⟩ := (next_step read).advances _ _ here
    obtain ⟨passed', left', rfl, stopped⟩ := others.advances _ _ between
    rw [List.append_assoc] at stopped
    obtain ⟨rfl, rfl⟩ := there.passed_eq stopped
    rw [List.append_assoc] at split here ⊢
    rw [← List.append_assoc passed'] at here between
    have follows : token.isTerminal = false := by
      rw [← (next_step read).halted]
      exact others.running running
    obtain ⟨⟨spaceAfter, read', spaced⟩, calm⟩ :=
      change.next idle split here read follows between plain.1
    rw [← List.append_assoc] at split there
    rw [List.append_assoc passed'] at between read'
    obtain ⟨⟨tokens', others', touched, settled⟩, calm⟩ := ih running calm split between there
      (Nat.le_of_succ_le_succ enough) plain.2
    refine ⟨⟨_, .more read' others', ?_, fun space => ?_⟩, calm⟩
    · cases tokens with
      | nil =>
        obtain rfl := touched.nil
        exact .inr ⟨[], token, spaceAfter, rfl, rfl⟩
      | cons next tokens =>
        -- another token stands between this one and the place
        have farther : passed' ++ rest ≠ [] := by
          intro none
          obtain ⟨rfl, rfl⟩ := List.append_eq_nil_iff.mp none
          have bound := others.length_le running between
          rw [there.ahead, List.length_cons, List.nil_append, List.nil_append] at bound
          omega
        rw [spaced fun none => absurd none farther]
        exact touched.cons token
    · rw [spaced fun none => space (List.append_eq_nil_iff.mp none).2, settled space]

end Change

theorem Lexer.ofSource_ofList (source : String) (cs : List Char) :
    ofSource (.ofList cs) = (ofSource source).withAhead cs := by
  simp [ofSource, withAhead, Scanner.ofSource, Scanner.ofChars]

/-- A source and another one up to the last token in front of the place where they part, and
the trivia in front of that place. -/
structure Parting (source : String) (front passed old more : List Char) (lexer : Lexer)
    (continued : Bool) (here : Lexer) : Prop where
  runs : ∃ tokens tokens', Run (.ofSource source) tokens lexer ∧
    Run (.ofSource (.ofList (front ++ (passed ++ ' ' :: more)))) tokens'
      (lexer.withAhead (passed ++ ' ' :: more)) ∧ Token.Touched tokens tokens' ∧
    ((passed = [] → old.head?.all isSpace = true) → tokens' = tokens)
  running : lexer.halted = false
  idle : lexer.pending = none
  place : lexer.At front (passed ++ old)
  reaches : Reaches false lexer continued here
  there : here.At (front ++ passed) old

/-- Where only trivia has been passed the lexer has not halted. -/
theorem Parting.halted {source : String} {front passed old more : List Char} {continued : Bool}
    {lexer here stop : Lexer}
    (parting : Parting source front passed old more lexer continued here)
    (last : stop.last = here.last) : stop.halted = false := by
  rw [Lexer.halted, last, parting.reaches.passes.keeps.1]
  exact parting.running

theorem Change.parting {source : String} {text old more : List Char} (change : Change text old more)
    (split : source.toList = text ++ old) (dispatches : Dispatches source text old)
    (plain : ∀ taken ∈ takings source, taken.opener? = none) :
    ∃ front passed lexer continued here, text = front ++ passed ∧
      Parting source front passed old more lexer continued here := by
  obtain ⟨tokens, lexer, continued, here, run, running, reaches, there⟩ := dispatches
  obtain ⟨front, left, parts, place⟩ := run.advances _ _ (ofSource_at source)
  obtain ⟨passed, left, rfl, stopped⟩ := reaches.passes.advances _ _ place
  obtain ⟨rfl, rfl⟩ := there.unique stopped
  rw [List.nil_append] at place there
  have enough := Nat.le_succ_of_le
    ((Nat.le_add_right _ _).trans (run.length_le running (ofSource_at source)))
  have start := ofSource_at source
  rw [parts] at start
  obtain ⟨⟨tokens', run', touched⟩, idle⟩ :=
    change.run run running rfl rfl start place enough plain
  rw [← ofSource_ofList] at run'
  exact ⟨front, passed, lexer, continued, here, rfl,
    ⟨tokens, tokens', run, run', touched⟩, running, idle, place, reaches, there⟩

end RubySyntax
