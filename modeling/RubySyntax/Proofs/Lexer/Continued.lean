import RubySyntax.Proofs.Lexeme.Written
import RubySyntax.Proofs.Lexer.Abreast
import RubySyntax.Proofs.Lexer.Change

namespace RubySyntax

open Text (byteLength isBlank isSpace isStop)
open Lexeme (operatorSymbols)
open Lexer (leadingDotFollows leadingDotFollows_append)

/-- A punctuation mark has no delimiters. -/
theorem Lexeme.punct_chars {lexeme : Lexeme} {bodies : Option Pending}
    (read : Lexeme.read context offset pending input = .ok (lexeme, bodies))
    (sign : lexeme.kind = .punct p) : lexeme.chars = lexeme.body := by
  obtain ⟨plain, _⟩ | ⟨_, _, _, _, _, _, heredoc⟩ := read_eq_ok read
  · exact (read_written read plain).punct p sign
  · obtain ⟨_, _, _, _, _, rfl, _⟩ := heredoc_eq_ok heredoc
    cases sign

namespace Lexer

variable {lexer behind : Lexer} {front back beyond rest : List Char} {token : Token}

/-- The span of a punctuation mark ends where the lexer stands behind it. -/
theorem Emits.stop_of_punct (emits : Emits lexer token behind) (place : lexer.At front back)
    (there : behind.At beyond rest) (sign : token.kind = .punct p) :
    token.span.stop = byteLength beyond := by
  cases emits with
  | separator _ => cases sign
  | endOfInput _ => cases sign
  | @lexeme lexeme bodies _ read sound =>
    have whole := Lexeme.punct_chars read sign
    obtain ⟨left, parts⟩ := sound.extent.front
    have start : { lexer with pending := bodies }.At front (lexeme.chars ++ left) :=
      place.of_ahead parts.symm
    obtain ⟨rfl, _⟩ := there.unique start.cut
    have opening : lexeme.opening = [] := by
      have lengths := congrArg List.length whole
      simp only [Lexeme.chars, List.length_append] at lengths
      exact List.eq_nil_of_length_eq_zero (by omega)
    rw [start.cut_span, opening, List.append_nil, whole]
    simp [Text.Span.ofBounds, Text.Span.stop]
  | fault _ _ _ => cases sign

theorem stop_of_punct (read : lexer.next = (some token, behind)) (place : lexer.At front back)
    (there : behind.At beyond rest) (sign : token.kind = .punct p) :
    token.span.stop = byteLength beyond := by
  obtain ⟨stop, emitted, after, passes, emits, same⟩ := next_emits (running_of_next read)
  obtain ⟨passed, left, _, stopped⟩ := passes.advances _ _ place
  cases same.symm.trans read
  exact emits.stop_of_punct stopped there sign

/-- The backslash and the line feed behind it are passed as one blank. -/
theorem continueLine_eq (idle : lexer.pending = none)
    (ahead : lexer.scanner.ahead = '\\' :: '\n' :: back) :
    lexer.continueLine = ((lexer.skip 1).skip 1).noteBlank := by
  have idle' : (lexer.skip 1).pending = none := idle
  rw [← crossLineFeed_idle idle', continueLine, ahead]
  rfl

/-- Only in front of a comment it matters whether a continued line came before. -/
theorem skipTrivia_continued (continued : Bool)
    (noComment : (lexer.scanner.ahead.dropWhile isBlank).head? ≠ some '#') :
    lexer.skipTrivia continued = lexer.skipTrivia false := by
  fun_induction Lexer.skipTrivia continued lexer with
  | case1 continued lexer ahead => rw [skipTrivia_nil ahead]
  | case2 continued lexer c rest ahead blank ih =>
    rw [ahead, List.dropWhile_cons_of_pos blank] at noComment
    have behind : (lexer.skip 1).noteBlank.scanner.ahead = rest := by
      show lexer.scanner.ahead.drop 1 = rest
      rw [ahead]
      rfl
    rw [skipTrivia_cons ahead, if_pos blank]
    exact ih (behind ▸ noComment)
  | case3 continued lexer c rest ahead visible feed separates =>
    rw [skipTrivia_cons ahead, if_neg visible, if_pos feed, if_pos separates]
    rfl
  | case4 continued lexer c rest ahead visible feed joins _ =>
    rw [skipTrivia_cons ahead, if_neg visible, if_pos feed, if_neg joins]
  | case5 continued lexer rest ahead visible _ _ =>
    rw [ahead, List.dropWhile_cons_of_neg visible] at noComment
    exact absurd rfl noComment
  | case6 continued lexer c rest ahead visible inLine sign follows _ =>
    rw [skipTrivia_cons ahead, if_neg visible, if_neg inLine, if_neg sign, if_pos follows]
  | case7 continued lexer c rest ahead visible inLine sign whole block _ =>
    rw [skipTrivia_cons ahead, if_neg visible, if_neg inLine, if_neg sign, if_neg whole, if_pos block]
  | case8 continued lexer c rest ahead visible inLine sign whole noBlock =>
    rw [skipTrivia_cons ahead, if_neg visible, if_neg inLine, if_neg sign, if_neg whole,
      if_neg noBlock]

/-- Behind a continued line the lexer stands abreast of where it stands behind a blank. -/
theorem abreast_continued (there : lexer.At front ('\\' :: '\n' :: back))
    (idle : lexer.pending = none) (noBlock : "=begin".toList.isPrefixOf back = false)
    (noComment : (back.dropWhile isBlank).head? ≠ some '#') (continued : Bool) :
    ∃ beyond beyond', Abreast beyond beyond' ∧ beyond.last = lexer.last ∧
      beyond'.last = lexer.last ∧ lexer.skipTrivia continued = beyond.skipTrivia false ∧
      (lexer.withAhead (' ' :: back)).skipTrivia continued = beyond'.skipTrivia false := by
  let beyond := ((lexer.skip 1).skip 1).noteBlank
  let beyond' := ((lexer.withAhead (' ' :: back)).skip 1).noteBlank
  have stood : beyond.At (front ++ ['\\'] ++ ['\n'] ++ []) back := by
    rw [List.append_nil]
    exact (there.skip 1).skip 1
  have stands : beyond'.At (front ++ [' '] ++ []) back := by
    rw [List.append_nil]
    exact (there.withAhead (' ' :: back)).skip 1
  have turn : Turn continued lexer true beyond := by
    have turn : Turn continued lexer true lexer.continueLine :=
      .continuation there.ahead (by simp [Lexer.continuation, List.isPrefixOf])
    rwa [continueLine_eq idle there.ahead] at turn
  have turn' : Turn continued (lexer.withAhead (' ' :: back)) continued beyond' :=
    .blank rfl (by decide)
  refine ⟨beyond, beyond', .of_at stood stands (fun _ => noBlock) rfl rfl idle idle, rfl, rfl, ?_, ?_⟩
  · rw [turn.skipTrivia, skipTrivia_continued true (stood.ahead.symm ▸ noComment)]
  · rw [turn'.skipTrivia, skipTrivia_continued continued (stands.ahead.symm ▸ noComment)]

end Lexer

/-- In front of a backslash that continues the line every token and every line break are
what they are in front of a blank. -/
theorem Change.continued {text more : List Char}
    (noSymbol : ∀ operator ∈ operatorSymbols, ¬ ':' :: operator <:+ text)
    (noDot : ∀ front blanks, text = front ++ '\n' :: blanks → blanks.all isBlank = true →
      leadingDotFollows more = false) :
    Change text ('\\' :: '\n' :: more) more where
  token {start c rest context offset lexeme} split plain read within := by
    have stop : isStop '\\' = true := by decide
    have blank : isSpace ' ' = true := by decide
    rw [Lexeme.heredocFollows_stop stop] at plain
    have alone := Lexeme.read_of_backslash plain read within fun operator member same =>
      noSymbol operator member ⟨start, by rw [split, same]⟩
    exact (Lexeme.read_space blank context offset none c rest more plain within).mp alone
  lineBreak {start rest} split := by
    rw [leadingDotFollows_append (by simp) fun blanks => ?_,
      leadingDotFollows_append (by simp) fun _ => rfl]
    exact noDot start rest split blanks

end RubySyntax
