import RubySyntax.Proofs.Lexer.Returns

namespace RubySyntax

open Text (byteLength isBlank isSpace withReturns)
open Lexeme (Context Pending)
open Token (Kind)

/-- The token is no literal that goes on over the end of a line. -/
def Taken.InLine (source : List Char) (taken : Taken) : Prop :=
  taken.token.kind.isLiteral = true →
    ∀ front rest, source = front ++ '\n' :: rest → ¬ taken.takes (byteLength front)

instance (taken : Taken) (offset : Nat) : Decidable (taken.takes offset) :=
  inferInstanceAs (Decidable (_ ∧ _))

theorem Taken.inLine_iff {source : List Char} {taken : Taken} :
    taken.InLine source ↔ taken.token.kind.isLiteral = true →
      ∀ i < source.length, source[i]? = some '\n' → ¬ taken.takes (byteLength (source.take i)) := by
  refine imp_congr_right fun _ => ⟨fun inLine i below feed => ?_, ?_⟩
  · refine inLine (source.take i) (source.drop (i + 1)) ?_
    rw [List.getElem?_eq_getElem below] at feed
    rw [← Option.some.inj feed, List.getElem_cons_drop, List.take_append_drop]
  · rintro inLine front rest rfl
    simpa using inLine front.length (by simp) (by simp)

instance (source : List Char) (taken : Taken) : Decidable (taken.InLine source) :=
  decidable_of_iff' _ Taken.inLine_iff

namespace Lexeme

variable {context : Context} {offset : Nat} {pending bodies : Option Pending} {lexeme : Lexeme}

/-- Where no heredoc is opened it does not matter where the input begins. -/
theorem read_offset (plain : (!context.namesMethod && heredocFollows context (c :: rest)) = false)
    (offset' : Nat) : read context offset' pending (c :: rest) = read context offset pending (c :: rest) := by
  have plain := Bool.eq_false_iff.mp plain
  unfold read
  rw [if_neg plain, if_neg plain]

/-- A token that ends on its line is read as well where a carriage return ends the line. -/
theorem read_withReturns (inLine : c ≠ '\n')
    (plain : (!context.namesMethod && heredocFollows context (c :: rest)) = false)
    (read : Lexeme.read context offset pending (c :: rest) = .ok (lexeme, bodies))
    (front : lexeme.chars <+: c :: rest) (clean : '\n' ∉ lexeme.chars) (offset' : Nat) :
    Lexeme.read context offset' pending (withReturns (c :: rest)) = .ok (lexeme, bodies) := by
  have feed : isSpace '\n' = true := by decide
  have space : isSpace '\r' = true := by decide
  rw [← read_offset plain offset'] at read
  by_cases ends : '\n' ∈ c :: rest
  · obtain ⟨line, more, split, first⟩ := List.eq_append_cons_of_mem ends
    obtain ⟨tail, rfl⟩ : ∃ tail, line = c :: tail := by
      cases line with
      | nil => exact absurd (List.cons.inj split).1 inLine
      | cons d tail => exact ⟨tail, by rw [(List.cons.inj split).1]⟩
    have within : lexeme.chars.length ≤ (c :: tail).length := by
      obtain ⟨behind, same⟩ := front
      obtain ⟨left, parts, _⟩ | ⟨beyond, parts, _⟩ := Text.front_of_line (split.symm.trans same.symm)
      · rw [parts, List.length_append]
        exact Nat.le_add_right _ _
      · exact absurd (parts ▸ List.mem_append_right _ List.mem_cons_self) clean
    rw [split, heredocFollows_space feed] at plain
    rw [split] at read ⊢
    rw [Text.withReturns_append, Text.withReturns_line first, Text.withReturns_lineFeed]
    rw [← read_space feed context offset' pending c tail more plain within,
      read_space space context offset' pending c tail _ plain within] at read
    exact read
  · rw [Text.withReturns_line ends]
    exact read

end Lexeme

namespace Lexer

variable {lexer other stop behind : Lexer} {token : Token} {front back source : List Char}

/-- White space is ahead of both or of neither. -/
theorem SamePlace.space (place : SamePlace lexer other) :
    other.scanner.peek.all isSpace = lexer.scanner.peek.all isSpace := by
  rcases place with @⟨front, back, here, there⟩ | @⟨front, below, here, there⟩
  · rw [Scanner.peek, Scanner.peek, here.ahead, there.ahead]
    exact Text.head?_withReturns_all rfl back
  · rw [Scanner.peek, Scanner.peek, here.ahead, there.ahead]
    rfl

/-- Only where a line break has been passed blanks make a difference. -/
theorem Along.spacing_eq (along : Along lexer other) (joined : lexer.spacing.breakBefore = false) :
    other.spacing = lexer.spacing := by
  have spaced := along.spaced
  have breaks := along.breaks
  have after := along.after
  rw [joined] at breaks
  rw [Token.Spacing.isSpacedBefore, Token.Spacing.isSpacedBefore, joined, breaks, Bool.or_false,
    Bool.or_false] at spaced
  generalize lexer.spacing = here, other.spacing = there at *
  obtain ⟨blank, lineBreak, space⟩ := here
  obtain ⟨blank', lineBreak', space'⟩ := there
  cases joined
  cases breaks
  cases spaced
  cases after
  rfl

theorem resumeAfter_spacing (lexer : Lexer) (lineEnd : Nat) :
    (lexer.resumeAfter lineEnd).spacing = lexer.spacing := by
  unfold resumeAfter
  split
  · rfl
  · split
    · rfl
    · rfl

theorem skipComment_spacing (lexer : Lexer) (continued : Bool) :
    (lexer.skipComment continued).spacing = lexer.spacing := by
  unfold skipComment
  split
  · exact resumeAfter_spacing (lexer.skipLine.skip 1) _
  · rfl

theorem continueLine_break (lexer : Lexer) :
    lexer.continueLine.spacing.breakBefore = lexer.spacing.breakBefore := by
  have crossed := congrArg Token.Spacing.breakBefore <| resumeAfter_spacing
    ((lexer.skip (continuation lexer.scanner.ahead - 1)).skip 1)
    (lexer.skip (continuation lexer.scanner.ahead - 1)).scanner.offset
  exact crossed

/-- A line break that separates nothing is passed where a statement begins, or in front
of a dot that leads its line. -/
theorem skipTrivia_break (continued : Bool)
    (skipped : lexer.skipTrivia continued = (none, stop)) (broken : stop.spacing.breakBefore = true) :
    lexer.spacing.breakBefore = true ∨ Lexeme.startsAfresh lexer.last = true ∨
      ∃ c rest, stop.scanner.ahead = c :: rest ∧ leadingDotFollows (c :: rest) = true ∧
        isBlank c = false := by
  fun_induction Lexer.skipTrivia continued lexer with
  | case1 continued lexer ahead =>
    cases skipped
    exact .inl broken
  | case2 continued lexer c rest ahead blank ih => exact ih skipped
  | case3 continued lexer c rest ahead visible feed separates => cases skipped
  | case4 continued lexer c rest ahead visible feed joins ih =>
    refine .inr ?_
    cases follows : leadingDotFollows lexer.crossLineFeed.scanner.ahead with
    | true =>
      obtain ⟨stop', c, rest, skipped', led⟩ :=
        @skipTrivia_leadingDot lexer.crossLineFeed.noteBreak false follows
      cases skipped.symm.trans skipped'
      exact .inr ⟨c, rest, led⟩
    | false =>
      refine .inl ?_
      rw [separates, follows, crossLineFeed_last] at joins
      cases same : lexer.last with
      | none => rfl
      | some kind => simpa [same, Lexeme.startsAfresh] using joins
  | case5 continued lexer rest ahead visible inLine ih =>
    rw [← skipComment_spacing lexer continued, ← (Piece.comment continued ahead).keeps.1]
    exact ih skipped
  | case6 continued lexer c rest ahead visible inLine noComment follows ih =>
    rw [← continueLine_break, ← (Piece.continuation (ahead ▸ follows)).keeps.1]
    exact ih skipped
  | case7 continued lexer c rest ahead visible inLine noComment whole block ih => exact ih skipped
  | case8 continued lexer c rest ahead visible inLine noComment whole noBlock =>
    cases skipped
    exact .inl broken

theorem Along.cut {lexeme : Lexeme} (along : Along lexer other)
    (here : lexer.At front (lexeme.chars ++ back))
    (there : other.At (withReturns front) (withReturns (lexeme.chars ++ back)))
    (clean : '\n' ∉ lexeme.chars) :
    (∃ span, (other.cut lexeme).1 = { (lexer.cut lexeme).1 with span }) ∧
      Along (lexer.cut lexeme).2 (other.cut lexeme).2 := by
  refine ⟨⟨(other.cut lexeme).1.span, rfl⟩, ?_⟩
  have plain : '\r' ∉ (lexer.cut lexeme).2.scanner.ahead := by
    have plain := along.plain
    rw [here.ahead] at plain
    rw [here.cut.ahead]
    exact fun member => plain (List.mem_append_right _ member)
  have there : (other.cut lexeme).2.At (withReturns (front ++ lexeme.chars)) (withReturns back) := by
    rw [Text.withReturns_append, Text.withReturns_line clean] at there ⊢
    exact there.cut
  exact ⟨⟨.inLine here.cut there, plain, along.last, along.idle, along.idle', along.breaks,
    along.after, along.blanks⟩, along.spaced⟩

theorem Along.context (along : Along lexer other) : other.context = lexer.context := by
  rw [Lexer.context, Lexer.context, along.last, along.spaced]

theorem Along.readToken (along : Along lexer other) (begins : AtToken lexer)
    (place : lexer.At front back) (known : lexer.readToken.1.kind ≠ .unknown)
    (plain : Lexeme.opener? lexer.context back = none)
    (single : (lexer.taking lexer.readToken.1 lexer.readToken.2).InLine (front ++ back)) :
    (∃ span, other.readToken.1 = { lexer.readToken.1 with span }) ∧
      Along lexer.readToken.2 other.readToken.2 := by
  cases back with
  | nil =>
    have there : other.At (withReturns front) [] := by
      rcases along.place with @⟨_, _, here, there⟩ | @⟨_, _, here, there⟩
      · obtain ⟨rfl, rfl⟩ := here.unique place
        exact there
      · cases (here.unique place).2
    have read (lexer : Lexer) (front : List Char) (place : lexer.At front [])
        (idle : lexer.pending = none) :
        lexer.readToken = lexer.cut { kind := .endOfFile, body := [] } := by
      refine readToken_of_read idle ?_
      rw [place.ahead]
      exact Lexeme.read_nil _ _ _
    rw [read lexer _ place along.idle, read other _ there along.idle']
    have ended : lexer.At _ (Lexeme.chars { kind := .endOfFile, body := [] } ++ []) := place
    exact along.cut ended there List.not_mem_nil
  | cons c rest =>
    obtain ⟨lexeme, read, ⟨⟨⟨behind, split⟩, _, _⟩, _, inLine⟩, cut, feed, _⟩ :=
      lexeme_of_readToken begins along.idle place.ahead known plain
    have there : other.At (withReturns front) (withReturns (c :: rest)) := by
      rcases along.place with @⟨_, _, here, there⟩ | @⟨_, _, here, there⟩
      · obtain ⟨rfl, rfl⟩ := here.unique place
        exact there
      · exact absurd (List.cons.inj (here.unique place).2).1 (Ne.symm feed)
    have clean : '\n' ∉ lexeme.chars := by
      refine inLine.elim (fun literal member => ?_) id
      rw [cut] at single
      obtain ⟨first, last, same⟩ := List.append_of_mem member
      refine single literal (front ++ first) (last ++ behind) (by simp [← split, same]) ?_
      have after := (show lexer.At front (lexeme.chars ++ behind) from split ▸ place).cut
      refine ⟨?_, ?_⟩
      · show lexer.scanner.offset ≤ _
        rw [place.offset]
        simp
      · show _ < (lexer.cut lexeme).2.scanner.offset
        have feed : '\n'.utf8Size = 1 := rfl
        rw [after.offset, same]
        simp only [Text.byteLength_append, Text.byteLength_cons]
        omega
    have read' := Lexeme.read_withReturns feed (Lexeme.heredocFollows_of_opener? read plain) read
      ⟨behind, split⟩ clean other.scanner.offset
    have cut' : other.readToken = other.cut lexeme := by
      refine readToken_of_read along.idle' ?_
      rw [along.context, there.ahead]
      exact read'
    rw [← split] at place there
    rw [cut, cut']
    exact along.cut place there clean

theorem readToken_leadingDot (ahead : lexer.scanner.ahead = c :: rest)
    (follows : leadingDotFollows (c :: rest) = true) (visible : isBlank c = false) :
    ∃ p, lexer.readToken.1.kind = .punct p ∧ p.isDots = true := by
  obtain ⟨p, read, dots⟩ := Lexeme.read_leadingDot lexer.context lexer.scanner.offset lexer.pending
    follows visible
  refine ⟨p, ?_, dots⟩
  unfold readToken
  rw [ahead, read]
  rfl

theorem opener?_of_taking {behind : Lexer} (ahead : lexer.scanner.ahead = back)
    (ends : token.isTerminal = true → back = [])
    (plain : (lexer.taking token behind).opener? = none) :
    Lexeme.opener? lexer.context back = none := by
  cases terminal : token.isTerminal with
  | true =>
    rw [ends terminal]
    simp [Lexeme.opener?, Lexeme.heredocFollows]
  | false =>
    rw [← ahead]
    simpa [taking, terminal] using plain

theorem next_spacing (read : lexer.next = (some token, behind)) :
    behind.spacing.breakBefore = false := by
  obtain ⟨_, _, _, _, _, same⟩ := next_emits (running_of_next read)
  obtain ⟨_, rfl⟩ := Prod.mk.inj (same.symm.trans read)
  rfl

theorem Run.breakBefore (run : Run lexer tokens behind)
    (afresh : lexer.spacing.breakBefore = false) : behind.spacing.breakBefore = false := by
  induction run with
  | done => exact afresh
  | more read _ ih => exact ih (next_spacing read)

end Lexer

end RubySyntax
