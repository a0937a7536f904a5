import RubySyntax.Proofs.Bytes.Mirror

namespace RubySyntax.Bytes

open Text (isBlank isLineBreak)
open Scan
open RubySyntax.Lexer (continuation afterBlockComment fromLineEnd)

variable {α β : Type} {P Q R : Lexer → Prop} {value : α} {source rest : List Char} {c : Char}
  {lexer : RubySyntax.Lexer}

theorem Consumes.drop_eq {op : Scan α} {ahead : List Char} (reads : Consumes op ahead value rest) :
    Consumes op ahead value (ahead.drop (ahead.length - rest.length)) := by
  have split := reads
  obtain ⟨taken, same, _⟩ := split
  have behind : ahead.drop (ahead.length - rest.length) = rest := by
    rw [same, List.length_append, Nat.add_sub_cancel, List.drop_left]
  rwa [behind]

theorem afterBlockComment_dropWhile (input : List Char) :
    afterBlockComment (input.dropWhile fun c => !isLineBreak c) = afterBlockComment input := by
  induction input with
  | nil => rfl
  | cons c rest ih =>
    cases feed : isLineBreak c with
    | true => rw [List.dropWhile_cons_of_neg (by simp [feed])]
    | false =>
      rw [List.dropWhile_cons_of_pos (by simp [feed]), ih, afterBlockComment, feed, Bool.false_and,
        if_neg Bool.false_ne_true]

theorem consumes_blockComment (input : List Char) :
    Consumes Scan.blockComment input () (afterBlockComment input) := by
  induction size : input.length using Nat.strong_induction_on generalizing input with
  | _ size ih =>
    subst size
    rw [Scan.blockComment, ← afterBlockComment_dropWhile input]
    refine (Consumes.skipToLineEnd input).bind ?_
    have shorter := (List.dropWhile_suffix (fun c => !isLineBreak c) (l := input)).length_le
    have first := List.head?_dropWhile_not (fun c => !isLineBreak c) input
    cases left : input.dropWhile fun c => !isLineBreak c with
    | nil => exact Consumes.next_nil.bind (.pure _ _)
    | cons c more =>
      rw [left] at first shorter
      have feed : isLineBreak c = true := by simpa using first
      refine (Consumes.next c more).bind ((Consumes.rest more).bind ?_)
      rw [afterBlockComment, feed, Bool.true_and]
      split
      · exact .skipToLineEnd more
      · exact ih more.length shorter more rfl

theorem consumes_backslash {input : List Char} (follows : continuation input ≠ 0) :
    Consumes Scan.backslash input () (input.drop (continuation input - 1)) := by
  unfold continuation at follows ⊢
  split at follows
  · rename_i short
    obtain ⟨rest, rfl⟩ := List.isPrefixOf_iff_prefix.mp short
    rw [if_pos short]
    exact (Consumes.next '\\' _).discard.bind (Consumes.accept_not rfl).discard
  · rename_i other
    split at follows
    · rename_i long
      obtain ⟨rest, rfl⟩ := List.isPrefixOf_iff_prefix.mp long
      rw [if_neg other, if_pos long]
      exact (Consumes.next '\\' _).discard.bind (Consumes.accept rfl _).discard
    · exact absurd rfl follows

/-- A run that is empty changes nothing. -/
theorem acceptWhile_between_nil {holds : Char → Bool} {front pend ahead : List Char}
    (other : ahead.head?.any holds = false) (width : Nat) :
    (acceptWhile holds).run (.between front pend ahead width) =
      some (0, .between front pend ahead width) := by
  rw [acceptWhile, run_bind_eq peek_between, if_neg (Bool.eq_false_iff.mp other)]
  rfl

/-- The first character of a run. -/
theorem acceptWhile_between_cons {holds : Char → Bool} {front pend : List Char}
    (wanted : holds c = true) (width : Nat) :
    (acceptWhile holds).run (.between front pend (c :: rest) width) =
      ((acceptWhile holds).run (.between front (pend ++ [c]) rest c.utf8Size)).map
        fun read => (read.1 + 1, read.2) := by
  conv => lhs; rw [acceptWhile]
  rw [run_bind_eq peek_between]
  show (if holds c = true then _ else _ : Scan Nat).run _ = _
  rw [if_pos wanted, run_bind_eq (run_discard (next_between c)), StateT.run_bind]
  cases (acceptWhile holds).run _ <;> rfl

variable {more : Unit → Step β} {result : β}

/-- In front of anything but a blank or a comment there is nothing to pass. -/
theorem commentLines_idle {bytes : Lexer} (stands : Stands source lexer bytes)
    (other : lexer.scanner.ahead.head?.any (fun c => isBlank c || c == '#') = false) :
    Lexer.commentLines.run bytes = some ((), bytes) := by
  have blank : lexer.scanner.ahead.head?.any isBlank = false := by
    cases ahead : lexer.scanner.ahead with
    | nil => rfl
    | cons c rest =>
      rw [ahead] at other
      exact (Bool.or_eq_false_iff.mp other).1
  have comment : (lexer.scanner.ahead.head? == some '#') = false := by
    cases ahead : lexer.scanner.ahead with
    | nil => rfl
    | cons c rest =>
      rw [ahead] at other
      exact (Bool.or_eq_false_iff.mp other).2
  have here : ∀ other, other = bytes → Stands source lexer other := by
    rintro _ rfl
    exact stands
  have idle : Leads (· = bytes) Lexer.commentLines () (· = bytes) := by
    rw [Lexer.commentLines]
    refine (Leads.look here fun _ _ => acceptWhile_between_nil blank).discard.bind ?_
    refine (Leads.look here fun _ _ _ => peek_between).bind ?_
    rw [comment, if_neg Bool.false_ne_true]
    exact .pure () _
  obtain ⟨behind, goes, rfl⟩ := idle bytes rfl
  exact goes

/-- Reading one blank by itself leaves the others to be read. -/
theorem commentLines_blank {bytes : Lexer} {front pend : List Char} {width : Nat}
    (blank : isBlank c = true) (here : bytes.cursor = .between front pend (c :: rest) width) :
    Lexer.commentLines.run bytes = Lexer.commentLines.run
      { bytes with cursor := .between front (pend ++ [c]) rest c.utf8Size } := by
  have discarded (bytes : Lexer) : (discard (Lexer.scan (acceptWhile isBlank))).run bytes =
      ((acceptWhile isBlank).run bytes.cursor).map fun read => ((), { bytes with cursor := read.2 }) := by
    show ((fun _ => ()) <$> Lexer.scan (acceptWhile isBlank)).run bytes = _
    rw [StateT.run_map]
    exact Option.map_map _ _ _
  rw [Lexer.commentLines, StateT.run_bind, StateT.run_bind, discarded, discarded, here,
    acceptWhile_between_cons blank, Option.map_map]
  rfl

theorem leads_commentLines_blank (ahead : lexer.scanner.ahead = c :: rest) (blank : isBlank c = true)
    (then_ : Leads (Stands source (lexer.skip 1)) (Lexer.commentLines >>= more) result R) :
    Leads (Stands source lexer) (Lexer.commentLines >>= more) result R := by
  rintro _ ⟨pend, front, back, width, place, whole, placed⟩
  obtain rfl := place.ahead.symm.trans ahead
  have place' : (lexer.skip 1).At (front ++ (pend ++ [c])) rest := by
    rw [← List.append_assoc]
    exact place.skip 1
  have moved : Mirrors source (lexer.skip 1) (pend ++ [c]) _ :=
    .intro front rest c.utf8Size place' (by rw [← whole]; simp) placed
  obtain ⟨behind, goes, there⟩ := then_ _ ⟨_, moved⟩
  refine ⟨behind, ?_, there⟩
  rw [StateT.run_bind, commentLines_blank blank rfl]
  exact goes

theorem drop_takeWhile (holds : Char → Bool) (cs : List Char) :
    cs.drop (cs.takeWhile holds).length = cs.dropWhile holds := by
  have split := List.prefix_iff_eq_append.mp (List.takeWhile_prefix holds (l := cs))
  exact List.append_cancel_left (split.trans List.takeWhile_append_dropWhile.symm)

/-- What is ahead behind a comment is its line feed, if the source has not ended. -/
theorem skipLine_ahead (lexer : RubySyntax.Lexer) :
    lexer.skipLine.scanner.ahead = [] ∨ ∃ rest, lexer.skipLine.scanner.ahead = '\n' :: rest := by
  have behind : lexer.skipLine.scanner.ahead = lexer.scanner.ahead.dropWhile fun c => !isLineBreak c :=
    drop_takeWhile _ _
  have first := List.head?_dropWhile_not (fun c => !isLineBreak c) lexer.scanner.ahead
  rw [behind]
  cases left : lexer.scanner.ahead.dropWhile fun c => !isLineBreak c with
  | nil => exact .inl rfl
  | cons c rest =>
    rw [left] at first
    obtain rfl : c = '\n' := by simpa [isLineBreak] using first
    exact .inr ⟨rest, rfl⟩

theorem leads_skipLine : Leads (Stands source lexer) (Lexer.scan Scan.skipToLineEnd) ()
    (Stands source lexer.skipLine) := by
  apply Leads.scan
  rw [drop_takeWhile]
  exact .skipToLineEnd _

/-- A comment behind a continued line goes with its line feed. -/
theorem leads_commentLines_comment (ahead : lexer.scanner.ahead = '#' :: rest)
    (then_ : Leads (Stands source (lexer.skipComment true)) (Lexer.commentLines >>= more) result R) :
    Leads (Stands source lexer) (Lexer.commentLines >>= more) result R := by
  have blank : lexer.scanner.ahead.head?.any isBlank = false := by
    rw [ahead]
    rfl
  have comment : (lexer.scanner.ahead.head? == some '#') = true := by
    rw [ahead]
    rfl
  rw [Lexer.commentLines, bind_assoc]
  refine (Leads.look (fun _ => id) fun _ _ => acceptWhile_between_nil blank).discard.bind ?_
  rw [bind_assoc]
  refine (Leads.look (fun _ => id) fun _ _ _ => peek_between).bind ?_
  rw [comment, if_pos rfl, bind_assoc]
  refine leads_skipLine.bind ?_
  rw [bind_assoc]
  rcases skipLine_ahead lexer with ended | ⟨below, feed⟩
  · refine (leads_crossLineFeed_end ended).bind ?_
    rw [if_neg Bool.false_ne_true, pure_bind]
    intro bytes stands
    have left := RubySyntax.Lexer.length_crossLineFeed lexer.skipLine
    rw [ended] at left
    have empty := List.eq_nil_of_length_eq_zero (Nat.le_zero.mp left)
    obtain ⟨behind, goes, there⟩ := then_ bytes stands
    refine ⟨behind, ?_, there⟩
    rw [← goes, run_bind_eq (commentLines_idle stands (by rw [empty]; rfl))]
  · refine (leads_crossLineFeed feed).bind ?_
    rw [if_pos rfl]
    exact then_

theorem continuedLines_idle {bytes : Lexer} (stands : Stands source lexer bytes)
    (ends : continuation lexer.scanner.ahead = 0) :
    Lexer.continuedLines.run bytes = some ((), bytes) := by
  have here : ∀ other, other = bytes → Stands source lexer other := by
    rintro _ rfl
    exact stands
  have idle : Leads (· = bytes) Lexer.continuedLines () (· = bytes) := by
    rw [Lexer.continuedLines]
    refine (Leads.look here fun _ _ _ => rest_between).bind ?_
    rw [if_neg (not_not.mpr ends)]
    exact .pure () _
  obtain ⟨behind, goes, rfl⟩ := idle bytes rfl
  exact goes

/-- A continued line is left over its line feed. -/
theorem leads_continuedLines (follows : continuation lexer.scanner.ahead ≠ 0)
    (then_ : Leads (Stands source (lexer.skip (continuation lexer.scanner.ahead - 1)).crossLineFeed)
      (do Lexer.commentLines; Lexer.continuedLines; more ()) result R) :
    Leads (Stands source lexer) (Lexer.continuedLines >>= more) result R := by
  obtain ⟨marks, rest, split, _, length, _⟩ := RubySyntax.Lexer.continuation_split follows
  have feed : (lexer.skip (continuation lexer.scanner.ahead - 1)).scanner.ahead = '\n' :: rest := by
    show lexer.scanner.ahead.drop _ = _
    rw [length, split, List.drop_left]
  rw [Lexer.continuedLines, bind_assoc]
  refine (Leads.look (fun _ => id) fun _ _ _ => rest_between).bind ?_
  rw [if_pos follows, bind_assoc]
  refine (Leads.scan (consumes_backslash follows)).bind ?_
  rw [bind_assoc]
  refine (leads_crossLineFeed feed).discard.bind ?_
  rw [bind_assoc]
  exact then_

/-- What is left to do behind a continued line. -/
def Lexer.resumed : Step (Option Token) := do
  commentLines
  continuedLines
  trivia

theorem leads_commentLines_idle
    (other : lexer.scanner.ahead.head?.any (fun c => isBlank c || c == '#') = false)
    (then_ : Leads (Stands source lexer) (more ()) result R) :
    Leads (Stands source lexer) (Lexer.commentLines >>= more) result R := by
  intro bytes stands
  obtain ⟨behind, goes, there⟩ := then_ bytes stands
  exact ⟨behind, (run_bind_eq (commentLines_idle stands other)).trans goes, there⟩

theorem leads_continuedLines_idle (ends : continuation lexer.scanner.ahead = 0)
    (then_ : Leads (Stands source lexer) (more ()) result R) :
    Leads (Stands source lexer) (Lexer.continuedLines >>= more) result R := by
  intro bytes stands
  obtain ⟨behind, goes, there⟩ := then_ bytes stands
  exact ⟨behind, (run_bind_eq (continuedLines_idle stands ends)).trans goes, there⟩

/-- Where the lines end that go on, trivia is passed as anywhere else. -/
theorem leads_resumed {token : Option Token}
    (other : lexer.scanner.ahead.head?.any (fun c => isBlank c || c == '#') = false)
    (ends : continuation lexer.scanner.ahead = 0)
    (then_ : Leads (Stands source lexer) Lexer.trivia token R) :
    Leads (Stands source lexer) Lexer.resumed token R :=
  leads_commentLines_idle other (leads_continuedLines_idle ends then_)

theorem noteBlank_resumeAfter (lexer : RubySyntax.Lexer) (lineFeed : Nat) :
    lexer.noteBlank.resumeAfter lineFeed = (lexer.resumeAfter lineFeed).noteBlank := by
  unfold RubySyntax.Lexer.resumeAfter
  have same : lexer.noteBlank.pending = lexer.pending := rfl
  rw [same]
  cases lexer.pending with
  | none => rfl
  | some bodies =>
    dsimp only
    split
    · rfl
    · rfl

theorem noteBlank_crossLineFeed (lexer : RubySyntax.Lexer) :
    lexer.noteBlank.crossLineFeed = lexer.crossLineFeed.noteBlank :=
  noteBlank_resumeAfter (lexer.skip 1) lexer.scanner.offset

theorem noteBlank_idle (noted : lexer.spacing.blankBefore = true) : lexer.noteBlank = lexer := by
  unfold RubySyntax.Lexer.noteBlank
  rw [← noted]

theorem leads_noteBlank :
    Leads (Stands source lexer) Lexer.noteBlank () (Stands source lexer.noteBlank) := by
  rintro _ ⟨pend, front, ahead, width, place, whole, placed⟩
  exact ⟨_, rfl, pend, .intro front ahead width place whole placed⟩

theorem leads_noteBreak :
    Leads (Stands source lexer) Lexer.noteBreak () (Stands source lexer.noteBreak) := by
  rintro _ ⟨pend, front, ahead, width, place, whole, placed⟩
  exact ⟨_, rfl, pend, .intro front ahead width place whole placed⟩

/-- A line feed separates statements or is passed. -/
theorem leads_lineBreak (ahead : lexer.scanner.ahead = '\n' :: rest) :
    Leads (Stands source lexer) Lexer.lineBreak
      (if lexer.crossLineFeed.separates then some lexer.newLine else none)
      (if lexer.crossLineFeed.separates then Marked source lexer.crossLineFeed
        else Stands source lexer.crossLineFeed.noteBreak) := by
  have last : ∀ bytes, Stands source lexer.crossLineFeed bytes → bytes.last = lexer.crossLineFeed.last := by
    rintro _ ⟨pend, front, ahead, width, _, _, _⟩
    rfl
  rw [Lexer.lineBreak]
  refine (Leads.view offset_of_stands).bind ((leads_crossLineFeed ahead).discard.bind ?_)
  refine (Leads.view last).bind ((Leads.look (fun _ => id) fun _ _ _ => rest_between).bind ?_)
  refine Leads.ignore.bind ?_
  show Leads _ (if lexer.crossLineFeed.separates = true then _ else _) _ _
  split
  · exact .pure _ _
  · exact (leads_noteBreak.before fun _ => Marked.stands).bind (.pure _ _)

/-- Trivia goes on behind a piece of it. -/
theorem leads_trivia_passed {token : Option Token} (ahead : lexer.scanner.ahead = c :: rest)
    (turn : Leads (Marked source lexer) (Lexer.turn c (c :: rest)) .passed Q)
    (then_ : Leads Q Lexer.trivia token R) : Leads (Stands source lexer) Lexer.trivia token R := by
  rw [Lexer.trivia]
  refine Leads.ignore.bind ((Leads.look (fun _ => Marked.stands) fun _ _ _ => rest_between).bind ?_)
  rw [ahead]
  exact turn.bind then_

/-- Trivia ends in front of a token, or behind a line feed that is one itself. -/
theorem leads_trivia_stopped {token : Option Token} (ahead : lexer.scanner.ahead = c :: rest)
    (turn : Leads (Marked source lexer) (Lexer.turn c (c :: rest)) (.stopped token) R) :
    Leads (Stands source lexer) Lexer.trivia token R := by
  rw [Lexer.trivia]
  refine Leads.ignore.bind ((Leads.look (fun _ => Marked.stands) fun _ _ _ => rest_between).bind ?_)
  rw [ahead]
  exact turn.bind (.pure token R)

theorem leads_trivia_nil (ahead : lexer.scanner.ahead = []) :
    Leads (Stands source lexer) Lexer.trivia none (Marked source lexer) := by
  rw [Lexer.trivia]
  refine Leads.ignore.bind ((Leads.look (fun _ => Marked.stands) fun _ _ _ => rest_between).bind ?_)
  rw [ahead]
  exact .pure none _

section Turn

variable (source lexer)

theorem turn_lineFeed (ahead : lexer.scanner.ahead = '\n' :: rest) :
    Leads (Marked source lexer) (Lexer.turn '\n' ('\n' :: rest))
      (if lexer.crossLineFeed.separates then .stopped (some lexer.newLine) else .passed)
      (if lexer.crossLineFeed.separates then Marked source lexer.crossLineFeed
        else Stands source lexer.crossLineFeed.noteBreak) := by
  rw [Lexer.turn, if_pos rfl]
  refine ((leads_lineBreak ahead).before fun _ => Marked.stands).bind ?_
  split
  · exact .pure _ _
  · exact .pure _ _

theorem turn_comment (rest : List Char) :
    Leads (Marked source lexer) (Lexer.turn '#' ('#' :: rest)) .passed (Stands source lexer.skipLine) := by
  rw [Lexer.turn, if_neg (by decide), if_pos rfl]
  exact (leads_skipLine.before fun _ => Marked.stands).bind (.pure _ _)

theorem leads_atLineStart :
    Leads (Marked source lexer) (Lexer.scan Scan.atLineStart) lexer.atLineStart (Marked source lexer) := by
  rintro _ ⟨front, ahead, width, place, whole, placed⟩
  refine ⟨_, scan_run ?_, .intro front ahead width place whole placed⟩
  have start : lexer.atLineStart = front.getLast?.all isLineBreak := by
    have same : lexer.scanner = .between (front ++ []) ahead := place
    rw [RubySyntax.Lexer.atLineStart, same, List.append_nil]
    simp [Scanner.between]
  have cut := slice_append [] front ahead
  show (slice (front ++ [] ++ ahead) 0 (Text.byteLength (front ++ []))).map _ = _
  rw [List.append_nil, start]
  rw [List.nil_append] at cut
  exact congrArg (Option.map _) cut

/-- A character that begins neither a line feed, a comment nor a continued line. -/
theorem turn_other (feed : c ≠ '\n') (comment : c ≠ '#') (ends : continuation (c :: rest) = 0) :
    Lexer.turn c (c :: rest) = do
      if c = '=' && (← Lexer.scan Scan.atLineStart) && "=begin".toList.isPrefixOf (c :: rest) then
        Lexer.scan Scan.blockComment
        return .passed
      else if isBlank c then
        discard (Lexer.scan Scan.next)
        Lexer.noteBlank
        return .passed
      else return .stopped none := by
  rw [Lexer.turn, if_neg feed, if_neg comment, if_neg (by simp [ends])]

theorem turn_blank (ahead : lexer.scanner.ahead = c :: rest) (blank : isBlank c = true) :
    Leads (Marked source lexer) (Lexer.turn c (c :: rest)) .passed
      (Stands source (lexer.skip 1).noteBlank) := by
  have one : Consumes Scan.next lexer.scanner.ahead (some c) (lexer.scanner.ahead.drop 1) := by
    rw [ahead]
    exact .next c rest
  have feed : c ≠ '\n' := by
    rintro rfl
    cases blank
  have comment : c ≠ '#' := by
    rintro rfl
    cases blank
  have equals : c ≠ '=' := by
    rintro rfl
    cases blank
  have ends : continuation (c :: rest) = 0 := by
    have slash : c ≠ '\\' := by
      rintro rfl
      cases blank
    simp [continuation, slash.symm]
  rw [turn_other feed comment ends]
  refine (leads_atLineStart source lexer).bind ?_
  rw [if_neg (by simp [equals]), if_pos blank]
  refine ((Leads.scan one).before fun _ => Marked.stands).discard.bind ?_
  exact leads_noteBlank.bind (.pure _ _)

theorem turn_blockComment (ahead : lexer.scanner.ahead = c :: rest) (start : lexer.atLineStart = true)
    (opens : "=begin".toList.isPrefixOf (c :: rest) = true) :
    Leads (Marked source lexer) (Lexer.turn c (c :: rest)) .passed
      (Stands source (lexer.skipTo (afterBlockComment rest))) := by
  obtain rfl : '=' = c := (List.cons_prefix_cons.mp (List.isPrefixOf_iff_prefix.mp opens)).1
  have skips : Consumes Scan.blockComment lexer.scanner.ahead ()
      (lexer.scanner.ahead.drop (lexer.scanner.ahead.length - (afterBlockComment rest).length)) := by
    apply Consumes.drop_eq
    rw [ahead]
    exact consumes_blockComment ('=' :: rest)
  rw [turn_other (by decide) (by decide) rfl]
  refine (leads_atLineStart source lexer).bind ?_
  rw [if_pos (by rw [start, opens]; rfl)]
  exact ((Leads.scan skips).before fun _ => Marked.stands).bind (.pure _ _)

theorem turn_stopped (feed : c ≠ '\n') (comment : c ≠ '#') (ends : continuation (c :: rest) = 0)
    (block : (lexer.atLineStart && "=begin".toList.isPrefixOf (c :: rest)) = false)
    (blank : isBlank c = false) :
    Leads (Marked source lexer) (Lexer.turn c (c :: rest)) (.stopped none) (Marked source lexer) := by
  rw [turn_other feed comment ends]
  refine (leads_atLineStart source lexer).bind ?_
  rw [Bool.and_assoc, block, Bool.and_false, if_neg Bool.false_ne_true, blank,
    if_neg Bool.false_ne_true]
  exact .pure _ _

end Turn

theorem continuation_front (follows : continuation (c :: rest) ≠ 0) : c = '\\' := by
  by_contra other
  exact follows (by simp [continuation, Ne.symm other])

/-- A continued line leads into the lines with its comments. -/
theorem leads_trivia_continued {token : Option Token} (ahead : lexer.scanner.ahead = c :: rest)
    (follows : continuation (c :: rest) ≠ 0)
    (then_ : Leads (Stands source lexer.continueLine) Lexer.resumed token R) :
    Leads (Stands source lexer) Lexer.trivia token R := by
  obtain rfl := continuation_front follows
  have crossed : (lexer.noteBlank.skip (continuation lexer.scanner.ahead - 1)).crossLineFeed =
      lexer.continueLine :=
    noteBlank_crossLineFeed (lexer.skip (continuation lexer.scanner.ahead - 1))
  rw [Lexer.trivia]
  refine Leads.ignore.bind ((Leads.look (fun _ => Marked.stands) fun _ _ _ => rest_between).bind ?_)
  rw [ahead]
  dsimp only
  rw [Lexer.turn, if_neg (by decide), if_neg (by decide), if_pos ⟨rfl, follows⟩, bind_assoc]
  refine (leads_noteBlank.before fun _ => Marked.stands).bind ?_
  rw [bind_assoc]
  have follows' : continuation lexer.noteBlank.scanner.ahead ≠ 0 := by rwa [← ahead] at follows
  apply leads_continuedLines follows'
  rw [← crossed] at then_
  exact then_

theorem leads_either {token : Option Token} (continued : Bool)
    (other : lexer.scanner.ahead.head?.any (fun c => isBlank c || c == '#') = false)
    (ends : continuation lexer.scanner.ahead = 0)
    (then_ : Leads (Stands source lexer) Lexer.trivia token R) :
    Leads (Stands source lexer) (if continued then Lexer.resumed else Lexer.trivia) token R := by
  cases continued with
  | false => exact then_
  | true => exact leads_resumed other ends then_

/-- Trivia is passed by offsets as it is passed in the text ahead, behind a continued line
as anywhere else. -/
theorem leads_skipTrivia (continued : Bool) (lexer : RubySyntax.Lexer)
    (noted : continued = true → lexer.spacing.blankBefore = true) :
    Leads (Stands source lexer) (if continued then Lexer.resumed else Lexer.trivia)
      (lexer.skipTrivia continued).1 (Marked source (lexer.skipTrivia continued).2) := by
  fun_induction RubySyntax.Lexer.skipTrivia continued lexer with
  | case1 continued lexer ahead =>
    exact leads_either continued (by rw [ahead]; rfl) (by rw [ahead]; rfl) (leads_trivia_nil ahead)
  | case2 continued lexer c rest ahead blank ih =>
    have then_ := ih fun _ => rfl
    cases continued with
    | false => exact leads_trivia_passed ahead (turn_blank source lexer ahead blank) then_
    | true =>
      have same : (lexer.skip 1).noteBlank = lexer.skip 1 := noteBlank_idle (noted rfl)
      rw [same] at then_ ⊢
      exact leads_commentLines_blank ahead blank then_
  | case3 continued lexer c rest ahead notBlank feed separates =>
    obtain rfl : c = '\n' := by simpa [isLineBreak] using feed
    have turn := turn_lineFeed source lexer ahead
    rw [if_pos separates, if_pos separates] at turn
    exact leads_either continued (by rw [ahead]; rfl) (by rw [ahead]; rfl)
      (leads_trivia_stopped ahead turn)
  | case4 continued lexer c rest ahead notBlank feed joins ih =>
    obtain rfl : c = '\n' := by simpa [isLineBreak] using feed
    have turn := turn_lineFeed source lexer ahead
    rw [if_neg joins, if_neg joins] at turn
    exact leads_either continued (by rw [ahead]; rfl) (by rw [ahead]; rfl)
      (leads_trivia_passed ahead turn (ih (absurd · Bool.false_ne_true)))
  | case5 continued lexer rest ahead notBlank notFeed ih =>
    cases continued with
    | false => exact leads_trivia_passed ahead (turn_comment source lexer rest) (ih (absurd · Bool.false_ne_true))
    | true =>
      have same : lexer.skipLine.noteBlank = lexer.skipLine := noteBlank_idle (noted rfl)
      have crossed := noteBlank_crossLineFeed lexer.skipLine
      rw [same] at crossed
      refine leads_commentLines_comment ahead (ih fun _ => ?_)
      show lexer.skipLine.crossLineFeed.spacing.blankBefore = true
      rw [crossed]
      rfl
  | case6 continued lexer c rest ahead notBlank notFeed notComment follows ih =>
    have then_ := ih fun _ => rfl
    cases continued with
    | false => exact leads_trivia_continued ahead follows then_
    | true =>
      have same : (lexer.skip (continuation lexer.scanner.ahead - 1)).noteBlank =
          lexer.skip (continuation lexer.scanner.ahead - 1) := noteBlank_idle (noted rfl)
      have crossed := noteBlank_crossLineFeed (lexer.skip (continuation lexer.scanner.ahead - 1))
      rw [same] at crossed
      refine leads_commentLines_idle ?_ (leads_continuedLines (by rwa [ahead]) ?_)
      · simp [ahead, Bool.eq_false_iff.mpr notBlank, notComment]
      · rw [crossed]
        exact then_
  | case7 continued lexer c rest ahead notBlank notFeed notComment ends block ih =>
    obtain ⟨start, opens⟩ := Bool.and_eq_true_iff.mp block
    have ends := not_not.mp ends
    refine leads_either continued ?_ (by rwa [ahead]) ?_
    · simp [ahead, Bool.eq_false_iff.mpr notBlank, notComment]
    · exact leads_trivia_passed ahead (turn_blockComment source lexer ahead start opens) (ih (absurd · Bool.false_ne_true))
  | case8 continued lexer c rest ahead notBlank notFeed notComment ends block =>
    have ends := not_not.mp ends
    have feed : c ≠ '\n' := by
      rintro rfl
      exact notFeed rfl
    refine leads_either continued ?_ (by rwa [ahead]) ?_
    · simp [ahead, Bool.eq_false_iff.mpr notBlank, notComment]
    · exact leads_trivia_stopped ahead (turn_stopped source lexer feed notComment ends
        (Bool.eq_false_iff.mpr block) (Bool.eq_false_iff.mpr notBlank))

end RubySyntax.Bytes
