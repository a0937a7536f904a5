import RubySyntax.Proofs.Lexeme.Punctuation
import RubySyntax.Proofs.Lexer.Comment
import RubySyntax.Proofs.Lexer.Line
import RubySyntax.Proofs.Lexer.Turn

/-! Dots that lead a line. Whether a line feed is a token is decided by the line right
below it. So a line that begins with a dot goes on with the line above it, but for a line
above it that holds no token: behind such a line the line feed further up has been handed
out already. -/
namespace RubySyntax

open Text (byteLength byteLength_append byteLength_cons isBlank isLineBreak)
open Lexeme (Pending)

/-- The dot in front of the name of a method. -/
def Token.Kind.isCallDot (kind : Token.Kind) : Bool :=
  kind == .punct .dot || kind == .punct .safeDot

/-- A line that is passed over: it is blank, holds a comment or only the sign that
continues it, or closes a block comment. -/
def isTokenless (line : List Char) : Bool :=
  let visible := line.dropWhile isBlank
  visible.isEmpty || visible.head? == some '#' || visible == ['\\'] || visible == ['\\', '\r'] ||
    "=end".toList.isPrefixOf line

/-- The line right above the one that `dot` leads holds no token, and stands below the
line feed that `newLine` is. -/
def TokenlessBetween (source : List Char) (newLine dot : Token) : Prop :=
  ∃ above line blanks rest, source = above ++ line ++ '\n' :: (blanks ++ rest) ∧
    above.getLast? = some '\n' ∧ '\n' ∉ line ∧ isTokenless line = true ∧
    blanks.all isBlank = true ∧ newLine.span.stop ≤ byteLength above ∧
    dot.span.start = byteLength (above ++ line ++ '\n' :: blanks)

section Lines

variable {line blanks rest : List Char}

theorem inLine_of_blank (blank : blanks.all isBlank = true) : '\n' ∉ blanks :=
  fun member => absurd (List.all_eq_true.mp blank _ member) (by decide)

theorem dropWhile_blanks (blank : blanks.all isBlank = true) (rest : List Char) :
    (blanks ++ rest).dropWhile isBlank = rest.dropWhile isBlank :=
  List.dropWhile_append_of_pos (List.all_eq_true.mp blank)

theorem isTokenless_blank (blank : blanks.all isBlank = true) : isTokenless blanks = true := by
  have none := dropWhile_blanks blank []
  rw [List.append_nil, List.dropWhile_nil] at none
  simp [isTokenless, none]

theorem isTokenless_comment (blank : blanks.all isBlank = true) (rest : List Char) :
    isTokenless (blanks ++ '#' :: rest) = true := by
  have sign : ¬ isBlank '#' = true := by decide
  simp [isTokenless, dropWhile_blanks blank, sign]

theorem isTokenless_continuation (blank : blanks.all isBlank = true)
    (marks : line = ['\\'] ∨ line = ['\\', '\r']) : isTokenless (blanks ++ line) = true := by
  have sign : ¬ isBlank '\\' = true := by decide
  obtain rfl | rfl := marks
  · simp [isTokenless, dropWhile_blanks blank, sign]
  · simp [isTokenless, dropWhile_blanks blank, sign]

theorem isTokenless_closing (closes : "=end".toList <+: line) : isTokenless line = true := by
  unfold isTokenless
  rw [List.isPrefixOf_iff_prefix.mpr closes, Bool.or_true]

end Lines

/-- A call dot is read where a line that begins there would go on with a method call. -/
theorem Lexeme.leadingDotFollows_of_read {bodies : Option Pending} {input : List Char}
    (found : read context offset pending input = .ok (lexeme, bodies))
    (sign : lexeme.kind = .punct .dot ∨ lexeme.kind = .punct .safeDot) :
    Lexer.leadingDotFollows input = true := by
  rcases sign with sign | sign
  · obtain ⟨front, _⟩ := read?_of_read found sign
    obtain ⟨rest, rfl⟩ := Token.Punct.prefix_of_read? front
    have single : rest.head? ≠ some '.' := by
      intro another
      obtain ⟨after, rfl⟩ := List.head?_eq_some_iff.mp another
      have longer := Token.Punct.length_le_of_read? front
        (show Token.Punct.range.spelling.toList <+: _ from ⟨after, rfl⟩)
      exact absurd longer (by decide)
    show (rest.head? != some '.') = true
    simpa using single
  · obtain ⟨rest, rfl⟩ := Token.Punct.prefix_of_read? (read?_of_read found sign).1
    rfl

/-- Behind the lines of a body a line begins, or the text has ended. -/
theorem Lexeme.heredocBody_whole {name text : List Char}
    (found : heredocBody name indented text = some (lines, rest)) :
    rest = [] ∨ ∃ region, text = region ++ '\n' :: rest := by
  obtain ⟨_, above, last, below, split, _, _, _, rfl⟩ := heredocBody_eq_some.mp found
  cases below with
  | nil => exact .inl rfl
  | cons next below =>
    obtain ⟨passed, joined⟩ := Text.joinLines_append above last (next :: below)
    refine .inr ⟨passed ++ last, ?_⟩
    rw [List.append_assoc, ← Text.joinLines_splitLines text, split, joined]
    rfl

namespace Lexer

/-- A line begins behind `above`, below the line feed that ends at `stop`. -/
structure LineStart (stop : Nat) (above : List Char) : Prop where
  feed : above.getLast? = some '\n'
  below : stop ≤ byteLength above

/-- Where trivia leads to from a line feed that ends at `stop`: to the first line below it,
to a line below one without a token or to the end of such a line, or to the end of the text. -/
inductive Below (stop : Nat) : List Char → List Char → Prop where
  | first (start : LineStart stop above) (blank : blanks.all isBlank = true)
      (noDot : leadingDotFollows back = false) : Below stop (above ++ blanks) back
  | further (start : LineStart stop above) (inLine : '\n' ∉ line) (tokenless : isTokenless line = true)
      (blank : blanks.all isBlank = true) : Below stop (above ++ line ++ '\n' :: blanks) back
  | lineEnd (start : LineStart stop above) (inLine : '\n' ∉ line)
      (tokenless : isTokenless line = true) : Below stop (above ++ line) ('\n' :: rest)
  | ended : Below stop front []

variable {lexer behind : Lexer} {front back passed rest : List Char}

section ReadAhead

/-- What is read ahead from between `front` and `back`. The line feed that leads over it
is the next one or lies behind, and what follows it are whole lines. -/
structure ReadAhead (pending : Pending) (front back : List Char) : Prop where
  lineEnd : pending.lineEnd < byteLength front ∨
    pending.lineEnd = byteLength front + byteLength (back.takeWhile (!isLineBreak ·))
  whole : pending.rest = [] ∨ ∃ above, front ++ back = above ++ '\n' :: pending.rest

theorem ReadAhead.advance {pending : Pending} (ahead : ReadAhead pending front (passed ++ rest)) :
    ReadAhead pending (front ++ passed) rest where
  lineEnd := by
    rw [byteLength_append]
    obtain stale | next := ahead.lineEnd
    · exact .inl (by omega)
    · rw [next]
      by_cases member : '\n' ∈ passed
      · obtain ⟨line, below, rfl, inLine⟩ := List.eq_append_cons_of_mem member
        rw [List.append_assoc, List.cons_append, Text.takeWhile_line inLine, byteLength_append,
          byteLength_cons]
        have feed : '\n'.utf8Size = 1 := rfl
        exact .inl (by omega)
      · rw [List.takeWhile_append_of_pos (Text.pass_of_inLine member), byteLength_append]
        exact .inr (by omega)
  whole := by
    rw [List.append_assoc]
    exact ahead.whole

/-- Below the line of its opener the first body of a line is looked for. -/
theorem readAhead_below (front back : List Char) :
    ReadAhead (.below (byteLength front) back) front back where
  lineEnd := .inr rfl
  whole := by
    have split : _ ++ fromLineEnd back = back := List.takeWhile_append_dropWhile
    show back.drop ((back.takeWhile fun c => !isLineBreak c).length + 1) = [] ∨
      ∃ above, front ++ back =
        above ++ '\n' :: back.drop ((back.takeWhile fun c => !isLineBreak c).length + 1)
    generalize back.takeWhile (fun c => !isLineBreak c) = line at split ⊢
    obtain ended | ⟨below, feed⟩ := fromLineEnd_cases back
    · rw [ended, List.append_nil] at split
      exact .inl (List.drop_eq_nil_of_le (by rw [split]; exact Nat.le_succ _))
    · rw [feed] at split
      refine .inr ⟨front ++ line, ?_⟩
      rw [← split, ← List.drop_drop, List.drop_left, List.append_assoc]
      rfl

/-- The lexer stands between two parts of its source with what it has read ahead. -/
structure Prepared (lexer : Lexer) (front back : List Char) : Prop where
  place : lexer.At front back
  ahead : ∀ pending, lexer.pending = some pending → ReadAhead pending front back

theorem Prepared.move (prepared : Prepared lexer front (passed ++ rest))
    (place : behind.At (front ++ passed) rest)
    (kept : behind.pending = lexer.pending ∨ behind.pending = none) :
    Prepared behind (front ++ passed) rest where
  place := place
  ahead pending waits := by
    obtain same | none := kept
    · exact (prepared.ahead pending (same ▸ waits)).advance
    · rw [none] at waits
      cases waits

theorem crossLineFeed_keeps (lexer : Lexer) :
    lexer.crossLineFeed.pending = lexer.pending ∨ lexer.crossLineFeed.pending = none := by
  unfold crossLineFeed resumeAfter
  split
  · exact .inl rfl
  · split
    · exact .inr rfl
    · exact .inl rfl

theorem Piece.keepsAhead (piece : Piece lexer behind) :
    behind.pending = lexer.pending ∨ behind.pending = none := by
  cases piece with
  | blank _ _ => exact .inl rfl
  | lineBreak _ _ => exact crossLineFeed_keeps lexer
  | comment continued _ =>
    unfold skipComment
    split
    · exact crossLineFeed_keeps lexer.skipLine
    · exact .inl rfl
  | continuation _ => exact crossLineFeed_keeps (lexer.skip (Lexer.continuation lexer.scanner.ahead - 1))
  | blockComment _ _ _ => exact .inl rfl

theorem Prepared.passes (prepared : Prepared lexer front back) (passes : Passes lexer behind) :
    ∃ passed rest, back = passed ++ rest ∧ Prepared behind (front ++ passed) rest := by
  induction passes with
  | refl => exact ⟨[], back, rfl, by rwa [List.append_nil]⟩
  | tail _ piece ih =>
    obtain ⟨passed, rest, rfl, stands⟩ := ih
    obtain ⟨more, left, rfl, place⟩ := piece.advances _ _ stands.place
    refine ⟨passed ++ more, left, (List.append_assoc _ _ _).symm, ?_⟩
    rw [← List.append_assoc]
    exact stands.move place piece.keepsAhead

/-- A token keeps what is read ahead, or has its body read ahead as well. -/
theorem Prepared.next (prepared : Prepared lexer front back)
    (read : lexer.next = (some token, behind)) :
    ∃ passed rest, back = passed ++ rest ∧ Prepared behind (front ++ passed) rest := by
  obtain ⟨here, trivia, rest, passes, rfl, reached, _, _, takes⟩ := nextTaken_takes prepared.place
  rw [next_eq_nextTaken (running_of_next read)] at read
  obtain ⟨-, rfl⟩ := Prod.mk.inj read
  obtain ⟨others, left, same, stands⟩ := prepared.passes passes
  obtain ⟨-, rfl⟩ := stands.place.unique reached
  obtain rfl := List.append_cancel_right same
  cases takes with
  | separator below feed _ _ _ scanner pending =>
    subst feed
    obtain ⟨crossed, left, same, place⟩ := crossLineFeed_advances here _ _ reached
    rw [same] at stands ⊢
    refine ⟨trivia ++ crossed, left, (List.append_assoc _ _ _).symm, ?_⟩
    rw [← List.append_assoc]
    exact stands.move (scanner.trans place) (pending ▸ crossLineFeed_keeps here)
  | token chars rest split _ _ _ _ place pending =>
    subst split
    refine ⟨trivia ++ chars, rest, (List.append_assoc _ _ _).symm, ?_⟩
    rw [← List.append_assoc]
    exact stands.move place (.inl pending)
  | heredoc opener rest lines bodies split _ _ _ _ _ place pending _ _ found lineEnd _ =>
    subst split
    refine ⟨trivia ++ opener.chars, rest, (List.append_assoc _ _ _).symm, ?_⟩
    rw [← List.append_assoc]
    refine ⟨place, fun later waits => ?_⟩
    obtain rfl := Option.some.inj (pending.symm.trans waits)
    have base : ReadAhead (here.pending.getD (.below (byteLength (front ++ trivia))
        (opener.chars ++ rest))) (front ++ trivia) (opener.chars ++ rest) := by
      cases waited : here.pending with
      | none => exact readAhead_below _ _
      | some pending => exact stands.ahead pending waited
    have moved := base.advance
    refine ⟨lineEnd ▸ moved.lineEnd, ?_⟩
    obtain ended | ⟨region, below⟩ := Lexeme.heredocBody_whole found
    · exact .inl ended
    · obtain none | ⟨above, whole⟩ := moved.whole
      · rw [none] at below
        exact absurd below (by simp)
      · refine .inr ⟨above ++ '\n' :: region, ?_⟩
        rw [whole, below, List.append_assoc, List.cons_append]

theorem Run.prepared (run : Run lexer tokens behind) (prepared : Prepared lexer front back) :
    ∃ passed rest, back = passed ++ rest ∧ Prepared behind (front ++ passed) rest := by
  induction run generalizing front back with
  | done => exact ⟨[], back, rfl, by rwa [List.append_nil]⟩
  | more read _ ih =>
    obtain ⟨passed, rest, rfl, stands⟩ := prepared.next read
    obtain ⟨more, left, rfl, stands⟩ := ih stands
    exact ⟨passed ++ more, left, (List.append_assoc _ _ _).symm, by rwa [← List.append_assoc]⟩

end ReadAhead

section Below

/-- What is read ahead has been passed. -/
def Stale (lexer : Lexer) : Prop :=
  ∀ pending, lexer.pending = some pending → pending.lineEnd < lexer.scanner.offset

theorem Stale.cross (stale : lexer.Stale) : lexer.crossLineFeed = lexer.skip 1 := by
  cases waits : lexer.pending with
  | none => exact crossLineFeed_idle waits
  | some pending =>
    have waits' : (lexer.skip 1).pending = some pending := waits
    have before := stale pending waits
    unfold crossLineFeed resumeAfter
    rw [waits']
    exact if_neg (by omega)

theorem Stale.move (stale : lexer.Stale) (place : lexer.At front (passed ++ rest))
    (after : behind.At (front ++ passed) rest)
    (kept : behind.pending = lexer.pending ∨ behind.pending = none) : behind.Stale := by
  intro pending waits
  obtain same | none := kept
  · have before := stale pending (same ▸ waits)
    rw [place.offset] at before
    rw [after.offset, byteLength_append]
    omega
  · rw [none] at waits
    cases waits

/-- A line feed leads to the beginning of a line or to the end, and nothing that is read
ahead is still to be passed behind it. -/
theorem Prepared.cross (prepared : Prepared lexer front ('\n' :: rest)) :
    lexer.crossLineFeed.Stale ∧ ∃ passed left, rest = passed ++ left ∧
      lexer.crossLineFeed.At (front ++ '\n' :: passed) left ∧
      (left = [] ∨ (front ++ '\n' :: passed).getLast? = some '\n') := by
  have feed : (lexer.skip 1).At (front ++ ['\n']) rest := prepared.place.skip 1
  have begins : (front ++ ['\n']).getLast? = some '\n' := by simp
  cases waits : lexer.pending with
  | none =>
    have plain := crossLineFeed_idle waits
    refine ⟨fun pending waits' => ?_, [], rest, rfl, plain ▸ feed, .inr begins⟩
    rw [crossLineFeed_pending waits] at waits'
    cases waits'
  | some pending =>
    have waits' : (lexer.skip 1).pending = some pending := waits
    have ahead := prepared.ahead pending waits
    by_cases ends : pending.lineEnd = lexer.scanner.offset
    · have crossed : lexer.crossLineFeed =
          { (lexer.skip 1).skip (rest.length - pending.rest.length) with pending := none } := by
        unfold crossLineFeed resumeAfter
        rw [waits', feed.ahead]
        exact if_pos ends
      have place := feed.skip (rest.length - pending.rest.length)
      rw [List.append_assoc] at place
      refine ⟨?_, _, _, (List.take_append_drop _ rest).symm, by rw [crossed]; exact place, ?_⟩
      · intro later waits
        rw [crossed] at waits
        cases waits
      · obtain none | ⟨above, whole⟩ := ahead.whole
        · exact .inl (by simp [none])
        · rcases Nat.lt_or_ge rest.length pending.rest.length with longer | shorter
          · rw [Nat.sub_eq_zero_of_le (Nat.le_of_lt longer)]
            exact .inr begins
          · have below : pending.rest <:+ front ++ '\n' :: rest := ⟨above ++ ['\n'], by simp [whole]⟩
            have after : rest <:+ front ++ '\n' :: rest := ⟨front ++ ['\n'], by simp⟩
            obtain ⟨region, rfl⟩ := List.suffix_of_suffix_length_le below after shorter
            have both : front ++ '\n' :: region ++ pending.rest = above ++ ['\n'] ++ pending.rest := by
              simpa using whole
            have same := List.append_cancel_right both
            rw [List.length_append, Nat.add_sub_cancel, List.take_left]
            exact .inr ((congrArg List.getLast? same).trans (by simp))
    · have stale : pending.lineEnd < byteLength front := by
        refine ahead.lineEnd.resolve_right fun next => ends ?_
        rw [next, prepared.place.offset]
        rfl
      have plain : lexer.crossLineFeed = lexer.skip 1 := by
        unfold crossLineFeed resumeAfter
        rw [waits']
        exact if_neg ends
      refine ⟨fun later waits => ?_, [], rest, rfl, plain ▸ feed, .inr begins⟩
      rw [plain] at waits ⊢
      obtain rfl := Option.some.inj (waits'.symm.trans waits)
      rw [feed.offset, byteLength_append]
      omega

variable {stop : Nat} {above blanks line : List Char}

theorem LineStart.next (start : LineStart stop above) (line : List Char) :
    LineStart stop (above ++ line ++ ['\n']) where
  feed := by simp
  below := by
    have before := start.below
    simp only [byteLength_append]
    omega

/-- The line feed of a line without a token leads below it. -/
theorem Below.cross (start : LineStart stop above) (inLine : '\n' ∉ line)
    (tokenless : isTokenless line = true) (stale : lexer.Stale)
    (place : lexer.At (above ++ line) ('\n' :: rest)) :
    lexer.crossLineFeed.At (above ++ line ++ ['\n']) rest ∧ Below stop (above ++ line ++ ['\n']) rest := by
  rw [stale.cross]
  exact ⟨place.skip 1, .further start inLine tokenless rfl⟩

/-- A comment leads to the end of its line, or over it where the line is continued. -/
theorem Below.skipComment (start : LineStart stop above) (blank : blanks.all isBlank = true)
    (stale : lexer.Stale) (continued : Bool) (place : lexer.At (above ++ blanks) ('#' :: rest)) :
    ∃ front back, (lexer.skipComment continued).At front back ∧ Below stop front back := by
  obtain ⟨comment, ends, place⟩ := place.comment place.ahead
  have skipped := place.skipLine ends
  have stale := stale.move place skipped (.inl rfl)
  have inLine : '\n' ∉ blanks ++ '#' :: comment :=
    List.not_mem_append (inLine_of_blank blank) (inLine_of_fromLineEnd ends)
  have tokenless := isTokenless_comment blank comment
  rw [List.append_assoc] at skipped
  unfold Lexer.skipComment
  obtain ended | ⟨below, feed⟩ := fromLineEnd_cases rest
  · rw [ended] at skipped
    split
    · rw [stale.cross]
      exact ⟨_, _, skipped.skip 1, .ended⟩
    · exact ⟨_, _, skipped, .ended⟩
  · rw [feed] at skipped
    split
    · exact ⟨_, _, Below.cross start inLine tokenless stale skipped⟩
    · exact ⟨_, _, skipped, .lineEnd start inLine tokenless⟩

/-- The sign that continues a line leads over its line feed. -/
theorem Below.continueLine (start : LineStart stop above) (blank : blanks.all isBlank = true)
    (stale : lexer.Stale) (follows : continuation lexer.scanner.ahead ≠ 0)
    (place : lexer.At (above ++ blanks) back) :
    ∃ front back, lexer.continueLine.At front back ∧ Below stop front back := by
  obtain ⟨marks, rest, same, inLine, count, sign⟩ := continuation_split follows
  rw [place.ahead] at same
  subst same
  have skipped := place.skip_append
  have stale := stale.move place skipped (.inl rfl)
  rw [← count, List.append_assoc] at skipped
  rw [← count] at stale
  exact ⟨_, _, Below.cross start (List.not_mem_append (inLine_of_blank blank) inLine)
    (isTokenless_continuation blank sign) stale skipped⟩

/-- A block comment that ends ends on the line that closes it. -/
theorem afterBlockComment_split (cs : List Char) :
    afterBlockComment cs = [] ∨ ∃ inside line rest, cs = inside ++ '\n' :: (line ++ '\n' :: rest) ∧
      afterBlockComment cs = '\n' :: rest ∧ '\n' ∉ line ∧ "=end".toList <+: line := by
  induction cs with
  | nil => exact .inl rfl
  | cons c cs ih =>
    rw [afterBlockComment]
    split
    · rename_i closes
      obtain ⟨feed, closes⟩ := Bool.and_eq_true_iff.mp closes
      obtain rfl : c = '\n' := by simpa [isLineBreak] using feed
      obtain ended | ⟨rest, feed⟩ := fromLineEnd_cases cs
      · exact .inl ended
      · obtain ⟨line, split⟩ : fromLineEnd cs <:+ cs := List.dropWhile_suffix _
        rw [feed] at split ⊢
        rw [← split] at closes feed
        rw [Lexeme.isPrefixOf_append_cons (by decide)] at closes
        exact .inr ⟨[], line, rest, by rw [split, List.nil_append], rfl, inLine_of_fromLineEnd feed,
          List.isPrefixOf_iff_prefix.mp closes⟩
    · obtain ended | ⟨inside, line, rest, rfl, found⟩ := ih
      · exact .inl ended
      · exact .inr ⟨c :: inside, line, rest, rfl, found⟩

theorem Below.closeBlock (place : lexer.At front (c :: rest)) (below : stop ≤ byteLength front) :
    ∃ front back, (lexer.skipTo (afterBlockComment rest)).At front back ∧ Below stop front back := by
  obtain ended | ⟨inside, line, after, rfl, closed, inLine, closes⟩ := afterBlockComment_split rest
  · rw [ended]
    have split : c :: rest = (c :: rest) ++ [] := (List.append_nil _).symm
    rw [split] at place
    exact ⟨_, _, place.skipTo, .ended⟩
  · rw [closed]
    have split : c :: (inside ++ '\n' :: (line ++ '\n' :: after)) =
        (c :: inside ++ '\n' :: line) ++ '\n' :: after := by simp
    rw [split] at place
    have reached := place.skipTo
    have start : LineStart stop (front ++ c :: inside ++ ['\n']) := by
      refine ⟨List.getLast?_concat, ?_⟩
      simp only [byteLength_append]
      omega
    have whole : front ++ (c :: inside ++ '\n' :: line) = front ++ c :: inside ++ ['\n'] ++ line := by
      simp
    rw [whole] at reached
    exact ⟨_, _, reached, .lineEnd start inLine (isTokenless_closing closes)⟩

/-- From the blanks at the beginning of a line every other piece leads on below. -/
theorem Piece.below_blanks (piece : Piece lexer behind) (stale : lexer.Stale)
    (start : LineStart stop above) (blank : blanks.all isBlank = true)
    (place : lexer.At (above ++ blanks) back) :
    (∃ c rest, isBlank c = true ∧ back = c :: rest ∧ behind.At (above ++ (blanks ++ [c])) rest) ∨
      ∃ front back, behind.At front back ∧ Below stop front back := by
  cases piece with
  | @blank c rest _ ahead isBlank =>
    rw [place.ahead] at ahead
    subst ahead
    refine .inl ⟨c, rest, isBlank, rfl, ?_⟩
    rw [← List.append_assoc]
    exact place.skip 1
  | @lineBreak rest _ ahead _ =>
    rw [place.ahead] at ahead
    subst ahead
    exact .inr ⟨_, _, Below.cross start (inLine_of_blank blank) (isTokenless_blank blank) stale place⟩
  | @comment rest _ continued ahead =>
    rw [place.ahead] at ahead
    subst ahead
    exact .inr (Below.skipComment start blank stale continued place)
  | continuation follows => exact .inr (Below.continueLine start blank stale follows place)
  | @blockComment c rest _ ahead _ _ =>
    rw [place.ahead] at ahead
    subst ahead
    refine .inr (Below.closeBlock place ?_)
    have before := start.below
    rw [byteLength_append]
    omega

theorem Piece.below (piece : Piece lexer behind) (stale : lexer.Stale) (place : lexer.At front back)
    (below : Below stop front back) :
    ∃ front back, behind.At front back ∧ Below stop front back := by
  cases below with
  | first start blank noDot =>
    obtain ⟨c, rest, isBlank, rfl, after⟩ | further := piece.below_blanks stale start blank place
    · refine ⟨_, _, after, .first start (by simp [blank, isBlank]) ?_⟩
      rwa [leadingDotFollows, List.dropWhile_cons_of_pos isBlank] at noDot
    · exact further
  | @further above line blanks _ start inLine tokenless blank =>
    have split : above ++ line ++ '\n' :: blanks = above ++ line ++ ['\n'] ++ blanks := by simp
    rw [split] at place
    obtain ⟨c, rest, isBlank, rfl, after⟩ | further :=
      piece.below_blanks stale (start.next line) blank place
    · refine ⟨_, _, after, ?_⟩
      have moved : Below stop (above ++ line ++ '\n' :: (blanks ++ [c])) rest :=
        .further start inLine tokenless (by simp [blank, isBlank])
      simpa using moved
    · exact further
  | lineEnd start inLine tokenless =>
    have ahead := place.ahead
    cases piece with
    | blank same blank =>
      rw [ahead] at same
      obtain ⟨rfl, _⟩ := List.cons.inj same
      cases blank
    | lineBreak _ _ => exact ⟨_, _, Below.cross start inLine tokenless stale place⟩
    | comment _ same =>
      rw [ahead] at same
      cases same
    | continuation follows =>
      rw [ahead] at follows
      exact absurd rfl follows
    | blockComment same _ opens =>
      rw [ahead] at same
      obtain ⟨rfl, _⟩ := List.cons.inj same
      cases begin_equals opens
  | ended =>
    have ahead := place.ahead
    cases piece with
    | continuation follows =>
      rw [ahead] at follows
      exact absurd rfl follows
    | blank same _ | lineBreak same _ | comment _ same | blockComment same _ _ =>
      rw [ahead] at same
      cases same

theorem Passes.below (passes : Passes lexer behind) (stale : lexer.Stale)
    (place : lexer.At front back) (below : Below stop front back) :
    ∃ front back, behind.At front back ∧ Below stop front back := by
  have reached : behind.Stale ∧ ∃ front back, behind.At front back ∧ Below stop front back := by
    induction passes with
    | refl => exact ⟨stale, front, back, place, below⟩
    | tail _ piece ih =>
      obtain ⟨stale, front, back, place, below⟩ := ih
      obtain ⟨passed, rest, rfl, after⟩ := piece.advances _ _ place
      exact ⟨stale.move place after piece.keepsAhead, piece.below stale place below⟩
  exact reached.2

/-- A line break is the token of a line feed that separates statements. -/
theorem Emits.separator_of_newLine (emits : Emits lexer token behind)
    (feed : token.kind = .newLine) :
    AtSeparator lexer ∧ token = lexer.newLine ∧ behind = lexer.crossLineFeed := by
  cases emits with
  | separator separator => exact ⟨separator, rfl, rfl⟩
  | endOfInput _ => cases feed
  | @lexeme lexeme _ _ _ sound =>
    have same : lexeme.kind = .newLine := feed
    exact absurd sound.kind (by simp [same])
  | fault _ _ _ => cases feed

/-- A call dot is what a line that goes on with a method call would begin with there. -/
theorem Emits.callDot (emits : Emits lexer token behind) (place : lexer.At front back)
    (dot : token.kind.isCallDot = true) :
    leadingDotFollows back = true ∧ token.span.start = byteLength front := by
  cases emits with
  | separator _ => cases dot
  | endOfInput _ => cases dot
  | @lexeme lexeme bodies _ read sound =>
    rw [place.ahead] at read sound
    have sign : lexeme.kind = .punct .dot ∨ lexeme.kind = .punct .safeDot := by
      simpa [Token.Kind.isCallDot] using (show lexeme.kind.isCallDot = true from dot)
    refine ⟨Lexeme.leadingDotFollows_of_read read sign, ?_⟩
    obtain ⟨rest, rfl⟩ := sound.extent.front
    have start : { lexer with pending := bodies }.At front (lexeme.chars ++ rest) := place
    have opening : lexeme.opening = [] := by
      rcases sign with sign | sign <;> rw [(Lexeme.read?_of_read read sign).2]
    rw [start.cut_span, opening, List.append_nil]
    rfl
  | fault _ _ _ => cases dot

/-- Below a line feed that is a token of its own no line goes on with a method call. -/
theorem Prepared.separator (prepared : Prepared lexer front back)
    (read : lexer.next = (some token, behind)) (feed : token.kind = .newLine) :
    behind.Stale ∧ ∃ front' back', front ++ back = front' ++ back' ∧ behind.At front' back' ∧
      Below token.span.stop front' back' := by
  obtain ⟨stop, emitted, after, passes, emits, same⟩ := next_emits (running_of_next read)
  obtain ⟨tokenSame, rfl⟩ := Prod.mk.inj (same.symm.trans read)
  obtain rfl := Option.some.inj tokenSame
  obtain ⟨passed, rest, rfl, stands⟩ := prepared.passes passes
  obtain ⟨separator, rfl, rfl⟩ := emits.separator_of_newLine feed
  obtain ⟨below, ahead⟩ := separator.lineFeed
  rw [stands.place.ahead] at ahead
  subst ahead
  obtain ⟨stale, jumped, left, rfl, place, whole⟩ := stands.cross
  have noDot : leadingDotFollows left = false := by
    have follows := (Bool.and_eq_true_iff.mp separator.separates).2
    rw [place.ahead] at follows
    simpa using follows
  refine ⟨stale, _, left, by simp, place, ?_⟩
  obtain rfl | begins := whole
  · exact .ended
  · have start : LineStart (stop.newLine.span.stop) (front ++ passed ++ '\n' :: jumped) := by
      refine ⟨begins, ?_⟩
      show stop.scanner.offset + 1 ≤ _
      rw [stands.place.offset, byteLength_append _ ('\n' :: jumped), byteLength_cons]
      have feed : '\n'.utf8Size = 1 := rfl
      omega
    have blank : ([] : List Char).all isBlank = true := rfl
    have first := Below.first start blank noDot
    rwa [List.append_nil] at first

end Below

end Lexer

open Lexer

/-- A dot that leads a line goes on with the line above it, unless that line holds no
token: the line feed in front of the dot is a token only above such a line. -/
theorem scan_leadingDot {source : String} {newLine dot : Token}
    (adjacent : [newLine, dot] <:+: (scan source).1) (separates : newLine.kind = .newLine)
    (leads : dot.kind.isCallDot = true) : TokenlessBetween source.toList newLine dot := by
  obtain ⟨before, after, tokens⟩ := adjacent
  rw [List.append_assoc] at tokens
  obtain ⟨final, run, _⟩ := run_of_scan tokens.symm
  obtain ⟨start, first, run⟩ := run.split
  obtain ⟨front, back, whole, prepared⟩ := first.prepared ⟨ofSource_at source, nofun⟩
  cases run with
  | more read run =>
    obtain ⟨stale, above, below, same, place, reached⟩ := prepared.separator read separates
    cases run with
    | more read _ =>
      obtain ⟨stop, emitted, after, passes, emits, next⟩ := next_emits (running_of_next read)
      obtain ⟨token, -⟩ := Prod.mk.inj (next.symm.trans read)
      obtain rfl := Option.some.inj token
      obtain ⟨passed, rest, rfl, there⟩ := passes.advances _ _ place
      obtain ⟨upTo, onward, reaches, reached⟩ := passes.below stale place reached
      obtain ⟨follows, begins⟩ := emits.callDot reaches leads
      have source : source.toList = upTo ++ onward := by
        obtain ⟨rfl, rfl⟩ := there.unique reaches
        rw [whole, List.append_assoc, ← same, List.nil_append]
      cases reached with
      | first _ _ noDot =>
        rw [noDot] at follows
        cases follows
      | @further above line blanks _ start inLine tokenless blank =>
        refine ⟨above, line, blanks, onward, ?_, start.feed, inLine, tokenless, blank, start.below,
          begins⟩
        rw [source, List.append_assoc, List.cons_append]
      | lineEnd _ _ _ => cases follows
      | ended => cases follows

/-- A blank line parts a call dot from what it would be called on. -/
theorem scan_leadingDot_blank :
    TokenlessBetween "foo\n\n.bar".toList
      { kind := .newLine, text := "\n", span := ⟨3, 1⟩, spacing := ⟨false, false, true⟩ }
      { kind := .punct .dot, text := ".", span := ⟨5, 1⟩, spacing := ⟨false, true, false⟩ } :=
  scan_leadingDot (by decide +kernel) rfl rfl

/-- Not every dot that leads a line goes on with what stands above it. -/
theorem not_continued_of_blank_line :
    ¬ (scan "foo\n\n.bar").1.IsChain fun token next =>
      token.kind = .newLine → next.kind.isCallDot = false := by
  decide +kernel

end RubySyntax
