import RubySyntax.Proofs.Lexeme.Operator
import RubySyntax.Proofs.Lexeme.Word
import RubySyntax.Proofs.Lexer.Run

namespace RubySyntax.Lexer

open Text (isBlank isLineBreak isDigit)

/-- Nothing at the front of the text is passed over, whatever comes before it. -/
def Stops (text : List Char) : Prop :=
  ∀ (lexer : Lexer) (continued : Bool), lexer.scanner.ahead = text →
    lexer.skipTrivia continued = (none, lexer)

theorem stops_nil : Stops [] := by
  intro lexer continued ended
  rw [skipTrivia]
  split
  · rfl
  · rename_i same
    rw [ended] at same
    cases same

theorem stops_cons (blank : isBlank c = false) (lineBreak : isLineBreak c = false)
    (comment : c ≠ '#') (backslash : c ≠ '\\')
    (block : "=begin".toList.isPrefixOf (c :: rest) = false) : Stops (c :: rest) := by
  intro lexer continued ahead
  have joined : ¬ continuation (c :: rest) ≠ 0 := by
    simp [continuation, List.isPrefixOf, Ne.symm backslash]
  rw [skipTrivia]
  split
  · rfl
  · rename_i same
    obtain ⟨rfl, rfl⟩ := List.cons.inj (same.symm.trans ahead)
    simp only [blank, lineBreak, block, Bool.and_false, Bool.false_eq_true, if_false,
      dif_neg comment, if_neg joined]

theorem stops_digit (digit : isDigit c = true) (rest : List Char) : Stops (c :: rest) := by
  have other (d : Char) (noDigit : isDigit d = false) : c ≠ d := by
    rintro rfl
    rw [digit] at noDigit
    cases noDigit
  have equals : ('=' == c) = false := beq_false_of_ne (other '=' rfl).symm
  refine stops_cons ?_ (beq_false_of_ne (other '\n' rfl)) (other '#' rfl) (other '\\' rfl) ?_
  · refine Bool.eq_false_iff.mpr fun blank => ?_
    have member : c ∈ [' ', '\t', '\r', '\x0b', '\x0c', '\u00a0', '\ufeff'] := by
      simpa [isBlank] using blank
    have noDigits : ∀ d ∈ [' ', '\t', '\r', '\x0b', '\x0c', '\u00a0', '\ufeff'], isDigit d = false := by
      simp [isDigit]
    exact other c (noDigits c member) rfl
  · simp [List.isPrefixOf, equals]

theorem stops_integer {digits : List Char} (leads : digits.head?.any isDigit = true)
    (rest : List Char) : Stops (digits ++ rest) := by
  cases digits with
  | nil => cases leads
  | cons c digits => exact stops_digit leads _

theorem stops_name {word : List Char} (named : Lexeme.IsName word) (rest : List Char) :
    Stops (word ++ rest) := by
  cases word with
  | nil => cases named.start
  | cons c tail =>
    have start : Text.isIdentifierStart c = true := named.start
    have other (d : Char) (sign : Text.isIdentifierStart d = false) : c ≠ d :=
      Lexeme.ne_of_start start sign
    obtain ⟨blank, lineBreak⟩ := Bool.or_eq_false_iff.mp (Lexeme.isSpace_of_start start)
    have block : "=begin".toList.isPrefixOf (c :: (tail ++ rest)) = false := by
      simp [List.isPrefixOf, Ne.symm (other '=' (by decide))]
    exact stops_cons blank lineBreak (other '#' (by decide)) (other '\\' (by decide)) block

theorem stops_variable {kind : Token.Kind} {word : List Char} (shape : Lexeme.IsVariable kind word)
    (rest : List Char) : Stops (word ++ rest) := by
  obtain ⟨c, tail, rfl, rfl | rfl⟩ := shape.sigil
  · exact stops_cons rfl rfl (by decide) (by decide) rfl
  · exact stops_cons rfl rfl (by decide) (by decide) rfl

/-- Punctuation is not passed over, unless it opens a block comment. -/
theorem stops_punct (p : Token.Punct)
    (block : "=begin".toList.isPrefixOf (p.spelling.toList ++ rest) = false) :
    Stops (p.spelling.toList ++ rest) := by
  obtain ⟨c, tail, spelled, blank, lineBreak, comment, backslash⟩ : ∃ c tail,
      p.spelling.toList = c :: tail ∧ isBlank c = false ∧ isLineBreak c = false ∧ c ≠ '#' ∧ c ≠ '\\' := by
    cases p <;> exact ⟨_, _, rfl, by decide⟩
  rw [spelled, List.cons_append] at block ⊢
  exact stops_cons blank lineBreak comment backslash block

theorem stops_apart (p : Token.Punct) (apart : Apart rest) : Stops (p.spelling.toList ++ rest) := by
  have noComment : "=begin".toList.isPrefixOf p.spelling.toList = false := by cases p <;> rfl
  refine stops_punct p ?_
  obtain rfl | ⟨more, rfl⟩ := apart
  · rwa [List.append_nil]
  · rwa [Lexeme.isPrefixOf_append_cons (by decide)]

theorem skipTrivia_blank {lexer : Lexer} (ahead : lexer.scanner.ahead = c :: rest)
    (blank : isBlank c = true) (continued : Bool) :
    lexer.skipTrivia continued = (lexer.skip 1).noteBlank.skipTrivia continued := by
  rw [skipTrivia]
  split
  · rename_i ended
    rw [ended] at ahead
    cases ahead
  · rename_i same
    obtain ⟨rfl, rfl⟩ := List.cons.inj (same.symm.trans ahead)
    exact if_pos blank

/-- The text is next, directly or behind a blank, and the previous token is of the
kind `previous`. -/
structure Awaits (lexer : Lexer) (previous : Option Token.Kind) (text : List Char) : Prop where
  ahead : lexer.scanner.ahead = text ∨ lexer.scanner.ahead = ' ' :: text
  last : lexer.last = previous

theorem ofSource_awaits (text : List Char) : (ofSource (String.ofList text)).Awaits none text :=
  ⟨.inl String.toList_ofList, rfl⟩

variable {lexer : Lexer} {previous : Option Token.Kind} {kind : Token.Kind} {text : List Char}

theorem Awaits.skipTrivia (awaits : lexer.Awaits previous text) (stops : Stops text) :
    ∃ here, lexer.skipTrivia false = (none, here) ∧ here.scanner.ahead = text ∧
      here.last = previous ∧
      (lexer.scanner.ahead = ' ' :: text → here.spacing.blankBefore = true) := by
  obtain ahead | ahead := awaits.ahead
  · refine ⟨lexer, stops lexer false ahead, ahead, awaits.last, fun blank => ?_⟩
    exact absurd (ahead.symm.trans blank) (List.cons_ne_self _ _).symm
  · have next : (lexer.skip 1).noteBlank.scanner.ahead = text := by
      show lexer.scanner.ahead.drop 1 = text
      rw [ahead]
      rfl
    refine ⟨_, ?_, next, awaits.last, fun _ => rfl⟩
    rw [skipTrivia_blank ahead rfl, stops _ false next]

/-- A lexer hands out a token of the kind over the text. -/
structure Hands (lexer : Lexer) (kind : Token.Kind) (text : List Char) (token : Token)
    (behind : Lexer) : Prop where
  read : lexer.next = (some token, behind)
  kind : token.kind = kind
  text : token.text = String.ofList text

theorem readToken_eq_cut {here : Lexer} {lexeme : Lexeme} (ahead : here.scanner.ahead = text)
    (last : here.last = previous)
    (reads : ∀ spaced offset pending, Lexeme.read ⟨previous, spaced⟩ offset pending text =
      .ok (lexeme, pending)) : here.readToken = here.cut lexeme := by
  have context : here.context = ⟨previous, here.spacing.isSpacedBefore⟩ := by
    rw [Lexer.context, last]
  unfold Lexer.readToken
  rw [context, ahead, reads]

/-- A lexeme is read, and what follows it is left. -/
theorem Awaits.handsOut {lexeme : Lexeme} (awaits : lexer.Awaits previous (lexeme.chars ++ rest))
    (running : previous.any Token.Kind.isTerminal = false) (stops : Stops (lexeme.chars ++ rest))
    (reads : ∀ spaced offset pending, Lexeme.read ⟨previous, spaced⟩ offset pending
      (lexeme.chars ++ rest) = .ok (lexeme, pending)) :
    ∃ token behind, lexer.Hands lexeme.kind lexeme.text token behind ∧
      behind.scanner.ahead = rest ∧ behind.last = some lexeme.kind ∧
      (lexer.scanner.ahead = ' ' :: (lexeme.chars ++ rest) → token.spacing.blankBefore = true) := by
  obtain ⟨here, skipped, ahead, last, blank⟩ := awaits.skipTrivia stops
  have running : lexer.halted = false := by rw [halted, awaits.last, running]
  have token : here.readToken = here.cut lexeme := readToken_eq_cut ahead last reads
  have split : lexeme.chars ++ rest =
      lexeme.opening ++ (lexeme.body ++ ((lexeme.closing ++ lexeme.options) ++ rest)) := by
    simp [Lexeme.chars]
  have left : (here.cut lexeme).2.scanner.ahead = rest := by
    show ((here.scanner.ahead.drop _).drop _).drop _ = rest
    rw [ahead, split, List.drop_left, List.drop_left, List.drop_left]
  have read : lexer.next = (some ((here.cut lexeme).2.finish (here.cut lexeme).1).1,
      ((here.cut lexeme).2.finish (here.cut lexeme).1).2) := by
    simp [Lexer.next, running, skipped, token]
  exact ⟨_, _, ⟨read, rfl, rfl⟩, left, rfl, blank⟩

/-- A lexeme is read, and the word behind it is next. -/
theorem Awaits.lexeme {lexeme : Lexeme} (awaits : lexer.Awaits previous (lexeme.chars ++ rest))
    (running : previous.any Token.Kind.isTerminal = false) (stops : Stops (lexeme.chars ++ rest))
    (reads : ∀ spaced offset pending, Lexeme.read ⟨previous, spaced⟩ offset pending
      (lexeme.chars ++ rest) = .ok (lexeme, pending))
    (follows : rest = following ∨ rest = ' ' :: following) :
    ∃ token behind, lexer.Hands lexeme.kind lexeme.text token behind ∧
      behind.Awaits (some lexeme.kind) following := by
  obtain ⟨token, behind, hands, left, last, _⟩ := awaits.handsOut running stops reads
  rw [← left] at follows
  exact ⟨token, behind, hands, follows, last⟩

/-- A word is read, and the word behind it is next. -/
theorem Awaits.next {body : List Char} (awaits : lexer.Awaits previous (body ++ rest))
    (running : previous.any Token.Kind.isTerminal = false) (stops : Stops (body ++ rest))
    (reads : ∀ spaced offset pending, Lexeme.read ⟨previous, spaced⟩ offset pending (body ++ rest) =
      .ok ({ kind, body }, pending)) (follows : rest = following ∨ rest = ' ' :: following) :
    ∃ token behind, lexer.Hands kind body token behind ∧ behind.Awaits (some kind) following := by
  have chars : Lexeme.chars { kind, body } = body := by simp [Lexeme.chars]
  rw [← chars] at awaits stops
  refine awaits.lexeme running stops (fun spaced offset pending => ?_) follows
  rw [chars]
  exact reads spaced offset pending

theorem Awaits.integer {digits : List Char} (awaits : lexer.Awaits previous (digits ++ rest))
    (running : previous.any Token.Kind.isTerminal = false)
    (leads : digits.head?.any isDigit = true) (all : digits.all Text.isDigitOrSeparator = true)
    (apart : Apart rest) :
    ∃ token behind, lexer.Hands (.literal .integer) digits token behind ∧
      behind.Awaits (some (.literal .integer)) rest.tail := by
  have ends := Lexeme.endsNumber_apart apart
  have reads (spaced : Bool) := Lexeme.read_integer leads all ends ⟨previous, spaced⟩
  refine awaits.next running (stops_integer leads rest) reads ?_
  obtain rfl | ⟨more, rfl⟩ := apart
  · exact .inl rfl
  · exact .inr rfl

theorem Awaits.operator {p : Token.Punct}
    (awaits : lexer.Awaits (some (.literal .integer)) (p.spelling.toList ++ ' ' :: rest))
    (binary : Grammar.Precedence.ofPunct? p = some precedence) :
    ∃ token behind, lexer.Hands (.punct p) p.spelling.toList token behind ∧
      behind.Awaits (some (.punct p)) rest :=
  awaits.next rfl (stops_apart p (.inr ⟨rest, rfl⟩))
    (fun spaced offset pending => Lexeme.read_operator binary spaced offset pending rest) (.inr rfl)

theorem Awaits.ended (awaits : lexer.Awaits previous [])
    (running : previous.any Token.Kind.isTerminal = false) :
    ∃ token behind, lexer.Hands .endOfFile [] token behind ∧
      behind.Awaits (some .endOfFile) [] := by
  have awaits : lexer.Awaits previous ([] ++ []) := awaits
  have reads (spaced : Bool) := Lexeme.read_nil ⟨previous, spaced⟩
  exact awaits.next running stops_nil reads (.inl rfl)

end RubySyntax.Lexer
