import RubySyntax.Proofs.Lexer.Abreast
import RubySyntax.Proofs.Lexer.Change

namespace RubySyntax

open Text (isBlank isLineBreak isSpace)

/-- A line ends here, or the input does. -/
def Text.AtLineEnd (back : List Char) : Prop := back = [] ∨ ∃ below, back = '\n' :: below

namespace Lexer

open Text (AtLineEnd)

variable {lexer behind stop : Lexer} {token : Token} {continued : Bool}

theorem crossLineFeed_noteBlank (idle : lexer.pending = none) :
    lexer.noteBlank.crossLineFeed = lexer.crossLineFeed.noteBlank := by
  have idle' : lexer.noteBlank.pending = none := idle
  rw [crossLineFeed_idle idle, crossLineFeed_idle idle']
  rfl

/-- White space in front of a token is noted whatever comes between. -/
theorem skipTrivia_noteBlank (continued : Bool) (idle : lexer.pending = none) :
    lexer.noteBlank.skipTrivia continued =
      ((lexer.skipTrivia continued).1, (lexer.skipTrivia continued).2.noteBlank) := by
  fun_induction Lexer.skipTrivia continued lexer with
  | case1 continued lexer ahead =>
    have ahead' : lexer.noteBlank.scanner.ahead = [] := ahead
    rw [skipTrivia_nil ahead']
  | case2 continued lexer c rest ahead blank ih =>
    have ahead' : lexer.noteBlank.scanner.ahead = c :: rest := ahead
    rw [skipTrivia_cons ahead', if_pos blank]
    exact ih idle
  | case3 continued lexer c rest ahead visible feed separates =>
    have ahead' : lexer.noteBlank.scanner.ahead = c :: rest := ahead
    rw [skipTrivia_cons ahead', if_neg visible, if_pos feed, crossLineFeed_noteBlank idle]
    exact if_pos separates
  | case4 continued lexer c rest ahead visible feed joins ih =>
    have ahead' : lexer.noteBlank.scanner.ahead = c :: rest := ahead
    rw [skipTrivia_cons ahead', if_neg visible, if_pos feed, crossLineFeed_noteBlank idle]
    exact (if_neg joins).trans (ih (crossLineFeed_pending idle))
  | case5 continued lexer rest ahead visible inLine ih =>
    have ahead' : lexer.noteBlank.scanner.ahead = '#' :: rest := ahead
    have same : lexer.noteBlank.skipComment continued = (lexer.skipComment continued).noteBlank := by
      cases continued with
      | false => rfl
      | true => exact crossLineFeed_noteBlank (show lexer.skipLine.pending = none from idle)
    rw [skipTrivia_cons ahead', if_neg visible, if_neg inLine, if_pos rfl, same]
    exact ih ((Piece.comment continued ahead).idle idle)
  | case6 continued lexer c rest ahead visible inLine noComment follows ih =>
    have ahead' : lexer.noteBlank.scanner.ahead = c :: rest := ahead
    have same : lexer.noteBlank.continueLine = lexer.continueLine.noteBlank :=
      congrArg noteBlank (crossLineFeed_noteBlank (show (lexer.skip _).pending = none from idle))
    rw [skipTrivia_cons ahead', if_neg visible, if_neg inLine, if_neg noComment, if_pos follows, same]
    exact ih ((Piece.continuation (ahead ▸ follows)).idle idle)
  | case7 continued lexer c rest ahead visible inLine noComment whole block ih =>
    have ahead' : lexer.noteBlank.scanner.ahead = c :: rest := ahead
    have block' : (lexer.noteBlank.atLineStart && "=begin".toList.isPrefixOf (c :: rest)) = true :=
      block
    rw [skipTrivia_cons ahead', if_neg visible, if_neg inLine, if_neg noComment, if_neg whole,
      if_pos block']
    exact ih idle
  | case8 continued lexer c rest ahead visible inLine noComment whole noBlock =>
    have ahead' : lexer.noteBlank.scanner.ahead = c :: rest := ahead
    have noBlock' : ¬ (lexer.noteBlank.atLineStart && "=begin".toList.isPrefixOf (c :: rest)) = true :=
      noBlock
    rw [skipTrivia_cons ahead', if_neg visible, if_neg inLine, if_neg noComment, if_neg whole,
      if_neg noBlock']

/-- That a line break has been passed stays noted. -/
theorem Piece.breakBefore (piece : Piece lexer behind) (idle : lexer.pending = none)
    (broken : lexer.spacing.breakBefore = true) : behind.spacing.breakBefore = true := by
  cases piece with
  | blank _ _ => exact broken
  | lineBreak _ _ => rfl
  | comment continued _ =>
    cases continued with
    | false => exact broken
    | true =>
      rw [skipComment, if_pos rfl, crossLineFeed_idle (show lexer.skipLine.pending = none from idle)]
      exact broken
  | continuation _ =>
    rw [continueLine, crossLineFeed_idle (show (lexer.skip _).pending = none from idle)]
    exact broken
  | blockComment _ _ _ => exact broken

theorem Passes.breakBefore (passes : Passes lexer stop) (idle : lexer.pending = none)
    (broken : lexer.spacing.breakBefore = true) : stop.spacing.breakBefore = true := by
  induction passes with
  | refl => exact broken
  | tail passes piece ih => exact piece.breakBefore (Passes.idle passes idle) ih

theorem readToken_noteBlank
    (known : lexer.scanner.ahead = [] ∨ lexer.spacing.isSpacedBefore = true) :
    lexer.noteBlank.readToken = (lexer.readToken.1, lexer.readToken.2.noteBlank) := by
  have same : Lexeme.read lexer.noteBlank.context lexer.scanner.offset lexer.pending
        lexer.scanner.ahead =
      Lexeme.read lexer.context lexer.scanner.offset lexer.pending lexer.scanner.ahead := by
    rcases known with ended | spaced
    · rw [ended, Lexeme.read_nil, Lexeme.read_nil]
    · rw [Lexer.context, Lexer.context, spaced]
      rfl
  unfold readToken
  have scanner : lexer.noteBlank.scanner = lexer.scanner := rfl
  have pending : lexer.noteBlank.pending = lexer.pending := rfl
  rw [scanner, pending, same]
  cases Lexeme.read lexer.context lexer.scanner.offset lexer.pending lexer.scanner.ahead with
  | error fault => rfl
  | ok parts => rfl

theorem readToken_ended (ended : lexer.scanner.ahead = []) : lexer.readToken.1.kind = .endOfFile := by
  unfold readToken
  rw [ended, Lexeme.read_nil]
  rfl

/-- Where a line or the input ends, blanks in front of the end are noted with the next
token and make no difference: it ends the line itself or stands behind the line break. -/
theorem next_noteBlank (idle : lexer.pending = none)
    (ends : AtLineEnd lexer.scanner.ahead)
    (read : lexer.next = (some token, behind)) :
    ∃ place : token.Place, lexer.noteBlank.next = (some (token.placed place), behind) ∧
      (token.kind.EndsLine ∨ token.spacing.breakBefore = true) := by
  have running := running_of_next read
  have running' : lexer.noteBlank.halted = false := running
  have skipped' := skipTrivia_noteBlank false idle
  obtain ⟨stop, passes, ⟨_, skipped⟩ | ⟨_, skipped⟩⟩ := skipTrivia_cases false lexer
  · rw [skipped] at skipped'
    have known : stop.readToken.1.kind.EndsLine ∧ stop.scanner.ahead = [] ∨
        stop.spacing.breakBefore = true := by
      rcases ends with ended | ⟨below, ahead⟩
      · rw [skipTrivia_nil ended] at skipped
        cases skipped
        exact .inl ⟨readToken_ended ended ▸ .endOfFile, ended⟩
      · rw [skipTrivia_lineFeed ahead] at skipped
        split at skipped
        · cases skipped
        · obtain ⟨stop', passes', ⟨_, same⟩ | ⟨_, same⟩⟩ :=
            skipTrivia_cases false lexer.crossLineFeed.noteBreak
          · cases skipped.symm.trans same
            exact .inr (Passes.breakBefore passes' (crossLineFeed_pending idle) rfl)
          · cases skipped.symm.trans same
    have spaced (broken : stop.spacing.breakBefore = true) : stop.spacing.isSpacedBefore = true := by
      rw [Token.Spacing.isSpacedBefore, broken, Bool.or_true]
    cases (next_of_token running skipped).symm.trans read
    let spacing := (stop.readToken.2.noteBlank.finish stop.readToken.1).1.spacing
    have before (inLine : ¬ stop.readToken.1.kind.EndsLine) :
        spacing.isSpacedBefore = stop.readToken.2.spacing.isSpacedBefore := by
      have broken := known.resolve_left fun ended => inLine ended.1
      show true = _
      rw [readToken_spacing, spaced broken]
    refine ⟨⟨stop.readToken.1.span, spacing, before, fun bracket => ?_⟩, ?_, ?_⟩
    · exact Token.Spacing.isPrefixPosition_congr (before (Token.Kind.inLine_of_punct bracket)) rfl
    · rw [next_of_token running' skipped', readToken_noteBlank (known.imp And.right spaced)]
      rfl
    · refine known.imp And.left fun broken => ?_
      show stop.readToken.2.spacing.breakBefore = true
      rw [readToken_spacing, broken]
  · rw [skipped] at skipped'
    cases (next_of_separator running skipped).symm.trans read
    let spacing := ((stop.crossLineFeed.noteBlank).finish stop.newLine).1.spacing
    refine ⟨⟨stop.newLine.span, spacing, fun inLine => absurd .newLine inLine, nofun⟩, ?_,
      .inl .newLine⟩
    rw [next_of_separator running' skipped']
    rfl

section Line

variable {back line comment inside front passed : List Char}

theorem fromLineEnd_line (ends : AtLineEnd back) (inLine : '\n' ∉ line) :
    fromLineEnd (line ++ back) = back := by
  unfold fromLineEnd
  rw [List.dropWhile_append_of_pos (Text.pass_of_inLine inLine)]
  rcases ends with rfl | ⟨below, rfl⟩
  · rfl
  · rfl

theorem inLine_of_fromLineEnd (same : fromLineEnd (line ++ back) = back) : '\n' ∉ line := by
  have parts := List.takeWhile_append_dropWhile (p := fun c => !isLineBreak c) (l := line ++ back)
  rw [show (line ++ back).dropWhile _ = back from same] at parts
  rw [← List.append_cancel_right parts]
  exact Lexeme.not_mem_takeWhile (by decide) _

/-- No line within a line closes a block comment. -/
theorem afterBlockComment_inLine (inLine : '\n' ∉ line) (rest : List Char) :
    afterBlockComment (line ++ rest) = afterBlockComment rest := by
  induction line with
  | nil => rfl
  | cons c line ih =>
    rw [List.mem_cons, not_or] at inLine
    have visible : isLineBreak c = false := beq_false_of_ne (Ne.symm inLine.1)
    rw [List.cons_append, afterBlockComment, visible, Bool.false_and, if_neg Bool.false_ne_true,
      ih inLine.2]

/-- What a line begins with it begins with in front of a blank as well. -/
theorem isPrefixOf_line {pattern : List Char} (ends : AtLineEnd back) (inLine : '\n' ∉ pattern)
    (visible : ' ' ∉ pattern) (line more : List Char) :
    pattern.isPrefixOf (line ++ ' ' :: more) = pattern.isPrefixOf (line ++ back) := by
  rw [Lexeme.isPrefixOf_append_cons visible]
  rcases ends with rfl | ⟨below, rfl⟩
  · rw [List.append_nil]
  · rw [Lexeme.isPrefixOf_append_cons inLine]

/-- A block comment that ends at the end of a line ends there behind more of the line. -/
theorem afterBlockComment_line (ends : AtLineEnd back) (inLine : '\n' ∉ comment)
    (same : afterBlockComment (inside ++ back) = back) :
    afterBlockComment (inside ++ ' ' :: (comment ++ back)) = back := by
  have beyond : '\n' ∉ ' ' :: comment := by simpa using inLine
  induction inside with
  | nil => exact (afterBlockComment_inLine beyond back).trans same
  | cons c inside ih =>
    rw [List.cons_append, afterBlockComment] at same ⊢
    rw [isPrefixOf_line ends (by decide) (by decide)]
    split at same
    · rename_i closed
      rw [if_pos closed, ← List.cons_append, ← List.append_assoc]
      exact fromLineEnd_line ends
        (List.not_mem_append (inLine_of_fromLineEnd same) beyond)
    · rename_i goesOn
      rw [if_neg goesOn]
      exact ih same

/-- Where the loop comes to from `lexer` if the line ends with a comment as well, in the place
of `here`: behind the comment, with a blank noted or not. -/
structure Commented (lexer here : Lexer) (front passed comment back : List Char) (beyond : Lexer) :
    Prop where
  reaches :
    Reaches false (lexer.withAhead (passed ++ ' ' :: '#' :: (comment ++ back))) false beyond
  stands : beyond.At (front ++ (passed ++ ' ' :: '#' :: comment)) back
  last : beyond.last = here.last
  idle : beyond.pending = none
  spacing : beyond.spacing = here.spacing ∨ beyond.spacing = here.noteBlank.spacing

/-- The comment comes further on where the same is passed in front of it. -/
theorem Commented.prepend {middle here beyond : Lexer} {begun : List Char}
    (commented : Commented middle here (front ++ begun) passed comment back beyond)
    (reaches : Reaches false
      (lexer.withAhead (begun ++ (passed ++ ' ' :: '#' :: (comment ++ back)))) false
      (middle.withAhead (passed ++ ' ' :: '#' :: (comment ++ back)))) :
    Commented lexer here front (begun ++ passed) comment back beyond where
  reaches := by
    rw [List.append_assoc]
    exact reaches.append commented.reaches
  stands := by
    rw [List.append_assoc, ← List.append_assoc]
    exact commented.stands
  last := commented.last
  idle := commented.idle
  spacing := commented.spacing

/-- A blank and a comment are passed up to the end of the line. -/
theorem commented_here (ends : AtLineEnd back) (inLine : '\n' ∉ comment)
    (there : lexer.At front back) (idle : lexer.pending = none) :
    ∃ beyond, Commented lexer lexer front [] comment back beyond := by
  have placed := there.withAhead (' ' :: '#' :: (comment ++ back))
  have blanked : ((lexer.withAhead (' ' :: '#' :: (comment ++ back))).skip 1).noteBlank.At
      (front ++ [' ']) (('#' :: comment) ++ back) := placed.skip 1
  have line : fromLineEnd (('#' :: comment) ++ back) = back :=
    fromLineEnd_line ends (by simpa using inLine)
  have stands := blanked.skipLine line
  rw [List.append_assoc] at stands
  exact ⟨_, .turn (.blank rfl (by decide)) (.turn (.comment blanked.ahead) .here), stands, rfl, idle,
    .inr rfl⟩

end Line

end Lexer

namespace Change

open Text (AtLineEnd)
open Lexer

variable {back comment front passed text : List Char} {lexer here : Lexer} {continued : Bool}

/-- A line that ends with a comment ends with a longer one, and otherwise the comment is
passed behind a blank. -/
theorem beyond_turn (change : Change text back ('#' :: (comment ++ back)))
    (ends : AtLineEnd back) (inLine : '\n' ∉ comment) (last : Turn false lexer false here)
    (idle : lexer.pending = none) (split : text = front ++ passed)
    (place : lexer.At front (passed ++ back)) (there : here.At (front ++ passed) back) :
    ∃ beyond, Commented lexer here front passed comment back beyond := by
  have onward (turn : Turn false (lexer.withAhead (passed ++ ' ' :: '#' :: (comment ++ back))) false
      (here.withAhead (' ' :: '#' :: (comment ++ back)))) :
      ∃ beyond, Commented lexer here front passed comment back beyond := by
    obtain ⟨beyond, commented⟩ := commented_here ends inLine there (last.piece.idle idle)
    have commented := commented.prepend (.turn turn .here)
    rw [List.append_nil] at commented
    exact ⟨beyond, commented⟩
  have split' : text = front ++ (passed ++ []) := by rwa [List.append_nil]
  have place' : lexer.At front (passed ++ ([] ++ back)) := place
  have there' : here.At (front ++ passed) ([] ++ back) := there
  have beyond : '\n' ∉ ' ' :: '#' :: comment := by simpa using inLine
  have extended : (lexer.withAhead (passed ++ ' ' :: '#' :: (comment ++ back))).At front
      (passed ++ ' ' :: '#' :: comment ++ back) := by
    rw [List.append_assoc]
    exact place.withAhead _
  cases last with
  | blank ahead blank => exact onward (turn_blank _ place' ahead blank there')
  | lineBreak ahead joins => exact onward (change.turn_lineBreak idle split' place' ahead joins there')
  | comment ahead =>
    obtain ⟨line, stays, placed⟩ := place.comment ahead
    obtain ⟨rfl, rfl⟩ := there.passed_eq (placed.skipLine stays)
    have longer := fromLineEnd_line ends (List.not_mem_append (inLine_of_fromLineEnd stays) beyond)
    exact ⟨_, .turn (.comment rfl) .here, extended.skipLine longer, rfl, idle, .inl rfl⟩
  | blockComment ahead start opens =>
    obtain ⟨inside, parts, placed⟩ := place.blockComment ahead
    obtain ⟨rfl, rfl⟩ := there.passed_eq placed.skipTo
    rename_i c tail
    have closes : afterBlockComment (inside ++ ' ' :: '#' :: (comment ++ afterBlockComment tail)) =
        afterBlockComment tail :=
      afterBlockComment_line ends (show '\n' ∉ '#' :: comment by simpa using inLine)
        (congrArg afterBlockComment parts)
    have opens' : "=begin".toList.isPrefixOf
        (c :: inside ++ ' ' :: '#' :: (comment ++ afterBlockComment tail)) = true := by
      rw [isPrefixOf_line ends (by decide) (by decide), List.cons_append, parts]
      exact opens
    have turn : Turn false
        (lexer.withAhead (c :: (inside ++ ' ' :: '#' :: (comment ++ afterBlockComment tail)))) false
        _ := .blockComment rfl start opens'
    rw [closes] at turn
    exact ⟨_, .turn turn .here, extended.skipTo, rfl, idle, .inl rfl⟩

/-- The loop that passes trivia comes to the end of the line as well behind a comment, by
way of a blank unless the line ends with a comment already. -/
theorem beyond (change : Change text back ('#' :: (comment ++ back)))
    (ends : AtLineEnd back) (inLine : '\n' ∉ comment)
    (reaches : Reaches false lexer continued here)
    (whole : ∀ behind, Passes lexer behind → continuation behind.scanner.ahead = 0)
    (idle : lexer.pending = none) (split : text = front ++ passed)
    (place : lexer.At front (passed ++ back)) (there : here.At (front ++ passed) back) :
    ∃ beyond, Commented lexer here front passed comment back beyond := by
  obtain rfl := reaches.continued_eq whole rfl
  -- only the last turn comes to the end of the line, so all before it stay as they are
  obtain ⟨rfl, _⟩ | ⟨before, prev, first, last⟩ := reaches.unsnoc
  · obtain ⟨none, _⟩ := there.unique place
    obtain rfl := List.append_right_eq_self.mp none
    rw [List.append_nil] at there
    exact commented_here ends inLine there idle
  · obtain rfl := first.continued_eq whole rfl
    obtain ⟨begun, left, parts, stood⟩ := first.passes.advances _ _ place
    obtain ⟨chars, left, rfl, after⟩ := last.piece.advances _ _ stood
    rw [List.append_assoc] at after
    obtain ⟨rfl, rfl⟩ := there.passed_eq after
    have takes : chars ≠ [] := by
      rintro rfl
      have shorter := last.length_lt
      rw [stood.ahead, after.ahead] at shorter
      exact absurd shorter (Nat.lt_irrefl _)
    have split' : text = front ++ (begun ++ (chars ++ [])) := by rwa [List.append_nil]
    rw [List.append_assoc] at place
    have place' : lexer.At front (begun ++ (chars ++ ([] ++ back))) := place
    have trail := change.trail first idle split' place' stood takes
    rw [← List.append_assoc] at split there
    obtain ⟨beyond, commented⟩ := change.beyond_turn ends inLine last (first.passes.idle idle) split
      stood there
    exact ⟨beyond, commented.prepend trail⟩

/-- In front of a comment every token and every line break are what they are at the end of
the line. -/
theorem commented (ends : AtLineEnd back) (text : List Char) :
    Change text back ('#' :: (comment ++ back)) where
  token {start c rest context offset lexeme} _ plain read within := by
    have blank : isSpace ' ' = true := by decide
    have feed : isSpace '\n' = true := by decide
    rcases ends with rfl | ⟨below, rfl⟩
    · rw [List.append_nil] at plain read
      exact (Lexeme.read_space blank context offset none c rest _ plain within).mp read
    · rw [Lexeme.heredocFollows_space feed] at plain
      rw [← Lexeme.read_space feed context offset none c rest below plain within] at read
      exact (Lexeme.read_space blank context offset none c rest _ plain within).mp read
  lineBreak {start rest} _ := by
    rw [leadingDotFollows_append (by simp) fun _ => rfl]
    rcases ends with rfl | ⟨below, rfl⟩
    · rw [List.append_nil]
    · rw [leadingDotFollows_lineFeed]

end Change

end RubySyntax
