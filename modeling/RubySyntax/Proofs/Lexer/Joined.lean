import RubySyntax.Proofs.Lexer.Followed

namespace RubySyntax

open Text (isBlank isLineBreak byteLength)
open Token (Kind Spacing)

/-- No token came before, or one that separates statements. -/
def Lexeme.startsAfresh (last : Option Kind) : Bool := last.all Kind.isSeparator

/-- Where a statement begins, white space decides nothing. -/
theorem Lexeme.read_afresh (afresh : startsAfresh last = true) (spaced : Bool) (offset : Nat)
    (pending : Option Pending) (input : List Char) :
    read ⟨last, spaced⟩ offset pending input = read ⟨none, false⟩ offset pending input := by
  have cases : last = none ∨ last = some .newLine ∨ last = some .semicolon := by
    cases last with
    | none => exact .inl rfl
    | some kind =>
      have separator : kind.isSeparator = true := afresh
      unfold Kind.isSeparator at separator
      split at separator
      · exact .inr (.inl rfl)
      · exact .inr (.inr rfl)
      · cases separator
  rcases cases with rfl | rfl | rfl
  · rfl
  · rfl
  · rfl

namespace Lexer

/-- The same place, behind another token and other white space. -/
def restart (last : Option Kind) (spacing : Spacing) (lexer : Lexer) : Lexer :=
  { lexer with last, spacing }

variable {lexer behind : Lexer} {previous : Option Kind}

theorem resumeAfter_restart (previous : Option Kind) (spacing : Spacing) (lexer : Lexer)
    (lineEnd : Nat) :
    (lexer.restart previous spacing).resumeAfter lineEnd =
      (lexer.resumeAfter lineEnd).restart previous spacing := by
  cases waits : lexer.pending with
  | none =>
    have waits' : (lexer.restart previous spacing).pending = none := waits
    rw [resumeAfter_idle waits, resumeAfter_idle waits']
  | some pending =>
    have waits' : (lexer.restart previous spacing).pending = some pending := waits
    unfold resumeAfter
    rw [waits, waits']
    dsimp only
    split
    · rfl
    · rfl

theorem crossLineFeed_restart (previous : Option Kind) (spacing : Spacing) (lexer : Lexer) :
    (lexer.restart previous spacing).crossLineFeed = lexer.crossLineFeed.restart previous spacing :=
  resumeAfter_restart previous spacing (lexer.skip 1) lexer.scanner.offset

theorem skipComment_restart (previous : Option Kind) (spacing : Spacing) (lexer : Lexer)
    (continued : Bool) : (lexer.restart previous spacing).skipComment continued =
      (lexer.skipComment continued).restart previous spacing := by
  unfold skipComment
  split
  · exact crossLineFeed_restart previous spacing lexer.skipLine
  · rfl

theorem continueLine_restart (previous : Option Kind) (spacing : Spacing) (lexer : Lexer) :
    (lexer.restart previous spacing).continueLine =
      lexer.continueLine.restart previous { spacing with blankBefore := true } :=
  congrArg noteBlank (crossLineFeed_restart previous spacing
    (lexer.skip (continuation lexer.scanner.ahead - 1)))

/-- Where a statement begins, no line break is a token. -/
theorem separates_afresh (afresh : Lexeme.startsAfresh lexer.last = true) :
    lexer.separates = false := by
  unfold separates
  cases same : lexer.last with
  | none => rfl
  | some kind =>
    rw [same] at afresh
    have separator : kind.isSeparator = true := afresh
    simp [separator]

/-- Where a statement begins, the same trivia is passed behind any separator. -/
theorem skipTrivia_restart (first : lexer.last = none) (afresh : Lexeme.startsAfresh previous = true)
    (spacing : Spacing) (continued : Bool) :
    ∃ stop other, lexer.skipTrivia continued = (none, stop) ∧ stop.last = none ∧
      (lexer.restart previous spacing).skipTrivia continued = (none, stop.restart previous other) := by
  fun_induction Lexer.skipTrivia continued lexer generalizing spacing with
  | case1 continued lexer ahead =>
    have ahead' : (lexer.restart previous spacing).scanner.ahead = [] := ahead
    exact ⟨lexer, spacing, rfl, first, skipTrivia_nil ahead' continued⟩
  | case2 continued lexer c rest ahead blank ih =>
    have ahead' : (lexer.restart previous spacing).scanner.ahead = c :: rest := ahead
    rw [skipTrivia_cons ahead', if_pos blank]
    exact ih first { spacing with blankBefore := true }
  | case3 continued lexer c rest ahead visible feed separates =>
    rw [separates_afresh (by rw [crossLineFeed_last, first]; rfl)] at separates
    cases separates
  | case4 continued lexer c rest ahead visible feed joins ih =>
    have ahead' : (lexer.restart previous spacing).scanner.ahead = c :: rest := ahead
    have joins' : ¬ (lexer.restart previous spacing).crossLineFeed.separates = true := by
      rw [separates_afresh (by rw [crossLineFeed_last]; exact afresh)]
      exact Bool.false_ne_true
    rw [skipTrivia_cons ahead', if_neg visible, if_pos feed, if_neg joins', crossLineFeed_restart]
    exact ih ((crossLineFeed_last lexer).trans first) { spacing with breakBefore := true }
  | case5 continued lexer rest ahead visible inLine ih =>
    have ahead' : (lexer.restart previous spacing).scanner.ahead = '#' :: rest := ahead
    rw [skipTrivia_cons ahead', if_neg visible, if_neg inLine, if_pos rfl, skipComment_restart]
    exact ih ((Piece.comment continued ahead).keeps.1.trans first) spacing
  | case6 continued lexer c rest ahead visible inLine noComment follows ih =>
    have ahead' : (lexer.restart previous spacing).scanner.ahead = c :: rest := ahead
    rw [skipTrivia_cons ahead', if_neg visible, if_neg inLine, if_neg noComment, if_pos follows,
      continueLine_restart]
    exact ih ((Piece.continuation (ahead ▸ follows)).keeps.1.trans first) _
  | case7 continued lexer c rest ahead visible inLine noComment whole block ih =>
    have ahead' : (lexer.restart previous spacing).scanner.ahead = c :: rest := ahead
    have block' : ((lexer.restart previous spacing).atLineStart &&
        "=begin".toList.isPrefixOf (c :: rest)) = true := block
    rw [skipTrivia_cons ahead', if_neg visible, if_neg inLine, if_neg noComment, if_neg whole,
      if_pos block']
    exact ih first spacing
  | case8 continued lexer c rest ahead visible inLine noComment whole noBlock =>
    have ahead' : (lexer.restart previous spacing).scanner.ahead = c :: rest := ahead
    have noBlock' : ¬ ((lexer.restart previous spacing).atLineStart &&
        "=begin".toList.isPrefixOf (c :: rest)) = true := noBlock
    refine ⟨lexer, spacing, rfl, first, ?_⟩
    rw [skipTrivia_cons ahead', if_neg visible, if_neg inLine, if_neg noComment, if_neg whole,
      if_neg noBlock']

/-- Where the text ahead is read the same, the token is the same. -/
theorem readToken_restart {spacing : Spacing}
    (same : ∀ offset pending input,
      Lexeme.read (lexer.restart previous spacing).context offset pending input =
        Lexeme.read lexer.context offset pending input) :
    (lexer.restart previous spacing).readToken =
      (lexer.readToken.1, lexer.readToken.2.restart previous spacing) := by
  have here : Lexeme.read (lexer.restart previous spacing).context
      (lexer.restart previous spacing).scanner.offset (lexer.restart previous spacing).pending
      (lexer.restart previous spacing).scanner.ahead =
      Lexeme.read lexer.context lexer.scanner.offset lexer.pending lexer.scanner.ahead := same _ _ _
  unfold readToken
  rw [here]
  cases Lexeme.read lexer.context lexer.scanner.offset lexer.pending lexer.scanner.ahead with
  | error fault => rfl
  | ok parts => rfl

theorem readToken_afresh (first : lexer.last = none)
    (afresh : Lexeme.startsAfresh previous = true) (spacing : Spacing) :
    (lexer.restart previous spacing).readToken =
      (lexer.readToken.1, lexer.readToken.2.restart previous spacing) := by
  refine readToken_restart fun offset pending input => ?_
  have here : Lexeme.read lexer.context offset pending input =
      Lexeme.read ⟨none, false⟩ offset pending input := by
    rw [Lexer.context, first]
    exact Lexeme.read_afresh rfl _ _ _ _
  exact (Lexeme.read_afresh afresh _ _ _ _).trans here.symm

theorem readToken_spacing (lexer : Lexer) : lexer.readToken.2.spacing = lexer.spacing := by
  unfold readToken
  split
  · rfl
  · rfl

/-- Where a statement begins, the next token is the same up to the white space in front. -/
theorem next_restart (first : lexer.last = none) (afresh : Lexeme.startsAfresh previous = true)
    (spacing : Spacing) (read : lexer.next = (some token, behind)) :
    ∃ other, (lexer.restart previous spacing).next = (some { token with spacing := other }, behind) := by
  have running := running_of_next read
  have running' : (lexer.restart previous spacing).halted = false := by
    show previous.any Kind.isTerminal = false
    cases previous with
    | none => rfl
    | some kind =>
      have separator : kind.isSeparator = true := afresh
      cases kind <;> simp_all [Kind.isSeparator, Kind.isTerminal]
  obtain ⟨stop, other, skipped, none, skipped'⟩ := skipTrivia_restart first afresh spacing false
  cases (next_of_token running skipped).symm.trans read
  rw [next_of_token running' skipped', readToken_afresh none afresh]
  exact ⟨_, rfl⟩

/-- Behind tokens from the start of a source the last of them is the previous one. -/
theorem Run.last (run : Run (ofSource source) tokens final) :
    final.last = tokens.getLast?.map Token.kind := by
  rcases List.eq_nil_or_concat tokens with rfl | ⟨others, token, rfl⟩
  · cases run
    rfl
  · rw [List.concat_eq_append] at run ⊢
    obtain ⟨middle, _, read⟩ := run.unsnoc
    rw [(next_step read).last, List.getLast?_concat]
    rfl

/-- Behind the end of a line a source is read as it is read by itself, further on. -/
theorem Run.behindLine {source : String} {more : List Char}
    (run : Run (ofSource source) (first :: rest) final)
    (place : lexer.At (more ++ ['\n']) source.toList) (idle : lexer.pending = none)
    (afresh : Lexeme.startsAfresh lexer.last = true) :
    ∃ spacing final', Run lexer ({ first.moved (byteLength (more ++ ['\n'])) with spacing } ::
      rest.map (Token.moved (byteLength (more ++ ['\n'])))) final' ∧ final'.last = final.last := by
  cases run with
  | more read rest =>
    obtain ⟨spacing, read'⟩ := next_restart rfl afresh lexer.spacing read
    have further : Further (more ++ ['\n']) ((ofSource source).restart lexer.last lexer.spacing)
        lexer := by
      refine ⟨⟨[], source.toList, ?_, rfl, ?_⟩, rfl, rfl, idle⟩
      · intro _
        exact .inl (by simp [isLineBreak])
      · rw [List.append_nil]
        exact place
    obtain ⟨final', run, further⟩ := Run.further (.more read' rest) further
    exact ⟨spacing, final', run, further.last⟩

theorem ofSource_joined (a b : String) :
    ofSource (a ++ "\n" ++ b) = (ofSource a).followedBy b.toList := by
  simp [ofSource, Scanner.ofSource, Scanner.ofChars, followedBy, Scanner.followedBy]

end Lexer

section LeadingDot

open Lexer

/-- The dots in front of a method or between the ends of a range. -/
def Token.Punct.isDots : Punct → Bool
  | dot | safeDot | range | exclusiveRange => true
  | _ => false

theorem Token.Punct.read?_dot (rest : List Char) :
    ∃ p, read? ('.' :: rest) = some p ∧ p.isDots = true := by
  have dots : ∀ p ∈ all, p.spelling.toList.head? = some '.' → p.isDots = true := by decide +kernel
  cases found : read? ('.' :: rest) with
  | none =>
    have none := List.find?_eq_none.mp found dot (by decide +kernel)
    exact absurd (List.isPrefixOf_iff_prefix.mpr ⟨rest, rfl⟩) none
  | some p =>
    refine ⟨p, rfl, dots p p.mem_all ?_⟩
    obtain ⟨first, tail, split⟩ := List.exists_cons_of_ne_nil (Lexeme.spelling_ne_nil p)
    have front : p.spelling.toList <+: '.' :: rest := by simpa using List.find?_some found
    rw [split] at front ⊢
    exact congrArg some (List.cons_prefix_cons.mp front).1

/-- Behind its blanks such a line has a dot, or an ampersand and a dot. -/
theorem Text.leadingDot_visible (follows : leadingDotFollows (c :: rest) = true)
    (visible : isBlank c = false) : c = '.' ∨ c = '&' ∧ rest.head? = some '.' := by
  unfold leadingDotFollows at follows
  rw [List.dropWhile_cons_of_neg (Bool.eq_false_iff.mp visible)] at follows
  split at follows
  · rename_i same
    exact .inl (List.cons.inj same).1
  · rename_i same
    obtain ⟨rfl, rfl⟩ := List.cons.inj same
    exact .inr ⟨rfl, rfl⟩
  · cases follows

theorem Lexeme.read_leadingDot (context : Context) (offset : Nat) (pending : Option Pending)
    (follows : leadingDotFollows (c :: rest) = true) (visible : isBlank c = false) :
    ∃ p, read context offset pending (c :: rest) =
      .ok ({ kind := .punct p, body := p.spelling.toList }, pending) ∧ p.isDots = true := by
  rcases Text.leadingDot_visible follows visible with rfl | ⟨rfl, dot⟩
  · obtain ⟨p, found, dots⟩ := Token.Punct.read?_dot rest
    refine ⟨p, ?_, dots⟩
    rw [read_first (by decide)]
    simp [readFrom, symbolFollows, operator, found, Except.map,
      show Text.isDigit '.' = false by decide, show Text.isIdentifierStart '.' = false by decide]
  · obtain ⟨tail, rfl⟩ := List.head?_eq_some_iff.mp dot
    have found : Token.Punct.read? ('&' :: '.' :: tail) = some .safeDot := rfl
    refine ⟨.safeDot, ?_, rfl⟩
    rw [read_first (by decide)]
    simp [readFrom, symbolFollows, operator, found, Except.map,
      show Text.isDigit '&' = false by decide, show Text.isIdentifierStart '&' = false by decide]

/-- Only blanks are passed in front of a leading dot. -/
theorem Lexer.skipTrivia_leadingDot {lexer : Lexer} (continued : Bool)
    (follows : leadingDotFollows lexer.scanner.ahead = true) :
    ∃ stop c rest, lexer.skipTrivia continued = (none, stop) ∧ stop.scanner.ahead = c :: rest ∧
      leadingDotFollows (c :: rest) = true ∧ isBlank c = false := by
  have opens {c : Char} {rest : List Char} (follows : leadingDotFollows (c :: rest) = true)
      (visible : ¬ isBlank c = true) : c = '.' ∨ c = '&' :=
    (Text.leadingDot_visible follows (Bool.eq_false_iff.mpr visible)).imp_right And.left
  fun_induction Lexer.skipTrivia continued lexer with
  | case1 continued lexer ahead =>
    rw [ahead] at follows
    cases follows
  | case2 continued lexer c rest ahead blank ih =>
    refine ih ?_
    rw [ahead, leadingDotFollows, List.dropWhile_cons_of_pos blank] at follows
    show leadingDotFollows (lexer.scanner.ahead.drop 1) = true
    rw [ahead]
    exact follows
  | case3 continued lexer c rest ahead visible feed _ =>
    rcases opens (ahead ▸ follows) visible with rfl | rfl
    · cases feed
    · cases feed
  | case4 continued lexer c rest ahead visible feed _ _ =>
    rcases opens (ahead ▸ follows) visible with rfl | rfl
    · cases feed
    · cases feed
  | case5 continued lexer rest ahead visible _ _ =>
    rcases opens (ahead ▸ follows) visible with absurd | absurd
    · cases absurd
    · cases absurd
  | case6 continued lexer c rest ahead visible _ _ continues _ =>
    rcases opens (ahead ▸ follows) visible with rfl | rfl
    · exact absurd rfl continues
    · exact absurd rfl continues
  | case7 continued lexer c rest ahead visible _ _ _ block _ =>
    rcases opens (ahead ▸ follows) visible with rfl | rfl
    · cases (Bool.and_eq_true_iff.mp block).2
    · cases (Bool.and_eq_true_iff.mp block).2
  | case8 continued lexer c rest ahead visible _ _ _ _ =>
    exact ⟨lexer, c, rest, rfl, ahead, ahead ▸ follows, Bool.eq_false_iff.mpr visible⟩

/-- A dot that leads a line is its first token. -/
theorem Lexer.next_leadingDot {lexer : Lexer} (running : lexer.halted = false)
    (follows : leadingDotFollows lexer.scanner.ahead = true) :
    ∃ token behind p, lexer.next = (some token, behind) ∧ token.kind = .punct p ∧
      p.isDots = true := by
  obtain ⟨stop, c, rest, skipped, ahead, follows, visible⟩ := skipTrivia_leadingDot false follows
  obtain ⟨p, read, dots⟩ := Lexeme.read_leadingDot stop.context stop.scanner.offset stop.pending
    follows visible
  refine ⟨_, _, p, next_of_token running skipped, ?_, dots⟩
  unfold readToken
  rw [ahead, read]
  rfl

end LeadingDot

open Lexer

/-- The tokens of two sources on lines of their own: those of the first one, a line break
where it separates statements, and those of the second one further on. -/
theorem scan_joined {a b : String} {front rest : List Token} {last begins : Token}
    (closes : ClosesLines a) (first : (scan a).1 = front ++ [last])
    (running : ∀ token ∈ front, token.isTerminal = false) (ends : last.kind = .endOfFile)
    (second : (scan b).1 = begins :: rest) (noDot : leadingDotFollows b.toList = false) :
    ∃ breaks spacing, (scan (a ++ "\n" ++ b)).1 = front ++ breaks ++
        { begins.moved (byteLength (a.toList ++ ['\n'])) with spacing } ::
          rest.map (Token.moved (byteLength (a.toList ++ ['\n']))) ∧
      (breaks = [] ∧ Lexeme.startsAfresh (front.getLast?.map Token.kind) = true ∨
        ∃ token, breaks = [token] ∧ token.kind = .newLine) := by
  obtain ⟨front', last', final, same, ended⟩ := toEnd_ended a
  have tokens : front ++ [last] = front' ++ [last'] := by rw [← first, scan, same]
  obtain ⟨rfl, single⟩ := List.append_inj' tokens rfl
  obtain rfl := (List.cons.inj single).1
  obtain ⟨final₂, run₂, halted₂⟩ := run_of_scan second
  obtain ⟨middle, before, read⟩ := ended.run.unsnoc
  have enough : front.length ≤ a.toList.length + 1 := Nat.le_succ_of_le ended.bound
  obtain ⟨before', closed⟩ := before.followedBy closes .done rfl closes.heredoc enough running b.toList
  obtain ⟨passed, left, split, place⟩ := before.advances _ _ (ofSource_at a)
  obtain ⟨below, placed, idle, previous, behind⟩ := next_ended closed place read ends b.toList
  rw [List.nil_append, ← split] at placed
  have kinds := before.last
  rw [noDot, Bool.not_false, Bool.and_true] at behind
  split at behind
  · obtain ⟨token, feed, next⟩ := behind
    obtain ⟨spacing, final', run, halts⟩ := run₂.behindLine
      (show Lexer.At { below with last := some .newLine, spacing := .unspaced } _ _ from placed) idle rfl
    refine ⟨[token], spacing, ?_, .inr ⟨token, rfl, feed⟩⟩
    have whole := before'.append (.more next run)
    rw [← ofSource_joined] at whole
    rw [scan_of_run whole (by rw [halted, halts]; exact halted₂)]
    simp
  · rename_i joins
    have afresh : Lexeme.startsAfresh middle.last = true := by
      cases same : middle.last with
      | none => rfl
      | some kind => simpa [same, Lexeme.startsAfresh] using joins
    obtain ⟨spacing, final', run, halts⟩ := run₂.behindLine
      (show Lexer.At below.noteBreak _ _ from placed) idle
      (show Lexeme.startsAfresh below.last = true by rw [previous]; exact afresh)
    refine ⟨[], spacing, ?_, .inl ⟨rfl, kinds ▸ afresh⟩⟩
    have halted : final'.halted = true := by rw [halted, halts]; exact halted₂
    cases run with
    | more next run =>
      have whole := before'.append (.more (behind.trans next) run)
      rw [← ofSource_joined] at whole
      rw [scan_of_run whole halted, List.append_nil]

end RubySyntax
