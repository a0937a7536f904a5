import RubySyntax.Grammar.Precedence
import RubySyntax.Proofs.Lexeme.Read

namespace RubySyntax

open Text
open Grammar (Precedence)

/-- Nothing is glued to what stands in front. -/
def Apart (rest : List Char) : Prop := rest = [] ∨ ∃ more, rest = ' ' :: more

theorem Token.Punct.blank_not_mem_spelling (p : Token.Punct) : ' ' ∉ p.spelling.toList :=
  Lexeme.space_not_mem_spelling (by decide) p

theorem Token.Punct.read?_self (p : Token.Punct) : read? p.spelling.toList = some p := by
  have found : ∀ p ∈ all, read? p.spelling.toList = some p := by decide +kernel
  exact found p p.mem_all

/-- A spelling that stands apart is read as what it spells. -/
theorem Token.Punct.read?_spelling (p : Token.Punct) (rest : List Char) :
    read? (p.spelling.toList ++ ' ' :: rest) = some p := by
  rw [← p.read?_self]
  unfold read?
  congr 1
  funext q
  exact Lexeme.isPrefixOf_append_cons q.blank_not_mem_spelling _ rest

theorem Token.Punct.read?_apart (p : Token.Punct) (apart : Apart rest) :
    read? (p.spelling.toList ++ rest) = some p := by
  obtain rfl | ⟨more, rfl⟩ := apart
  · rw [List.append_nil, p.read?_self]
  · exact p.read?_spelling more

/-- A literal may begin like the mark: a heredoc, one in percent signs or a regular
expression. -/
def Token.Punct.beginsLiteral (p : Token.Punct) : Bool :=
  p.spelling.toList.head?.any fun c => ['<', '%', '/'].contains c

/-- What the first character of a mark is not, and the marks that begin like a symbol or
a single character. -/
theorem spelling_mark (p : Token.Punct) : ∃ c tail, p.spelling.toList = c :: tail ∧
    isDigit c = false ∧ isIdentifierStart c = false ∧ c ∉ ['\'', '"', '\x60', '@', '$', ';'] ∧
    (c = ':' → tail = [] ∨ tail = [':']) ∧ (c = '?' → tail = []) := by
  cases p <;> exact ⟨_, _, rfl, by decide⟩

/-- The characters that binary operators begin with. -/
def operatorSigns : List Char := ['|', '&', '=', '!', '<', '>', '^', '+', '-', '*', '/', '%']

theorem spelling_sign {p : Token.Punct} (binary : Precedence.ofPunct? p = some precedence) :
    ∃ sign tail, p.spelling.toList = sign :: tail ∧ sign ∈ operatorSigns := by
  cases p <;> cases binary <;> exact ⟨_, _, rfl, by decide⟩

namespace Lexeme

/-- Behind an integer literal no operand begins. -/
theorem startsOperand_integer (spaced : Bool) (input : List Char) :
    Context.startsOperand ⟨some (.literal .integer), spaced⟩ input = false := rfl

theorem heredocFollows_integer (spaced : Bool) (input : List Char) :
    heredocFollows ⟨some (.literal .integer), spaced⟩ input = false := by
  unfold heredocFollows
  split
  · rfl
  · rfl

/-- Behind an integer literal an operator sign begins an operator. -/
theorem readFrom_sign {sign : Char} (member : sign ∈ operatorSigns) (spaced : Bool)
    (tail : List Char) :
    readFrom ⟨some (.literal .integer), spaced⟩ sign (sign :: tail) = operator (sign :: tail) := by
  have value := startsOperand_integer spaced (sign :: tail)
  simp only [operatorSigns, List.mem_cons, List.not_mem_nil, or_false] at member
  unfold readFrom
  rcases member with rfl | rfl | rfl | rfl | rfl | rfl | rfl | rfl | rfl | rfl | rfl | rfl
  all_goals simp [isDigit, symbolFollows, percentFollows, value, isIdentifierStart, isAscii]

/-- A percent sign begins a literal or an operator. -/
theorem readFrom_percent (context : Context) (tail : List Char) :
    readFrom context '%' ('%' :: tail) =
      if !context.namesMethod && percentFollows context ('%' :: tail) then percent ('%' :: tail)
      else operator ('%' :: tail) := by
  simp [readFrom, isDigit, symbolFollows, isIdentifierStart, isAscii]

/-- A slash begins a regular expression or an operator. -/
theorem readFrom_slash (context : Context) (tail : List Char) :
    readFrom context '/' ('/' :: tail) =
      if !context.namesMethod && context.startsOperand ('/' :: tail) then regex ('/' :: tail)
      else operator ('/' :: tail) := by
  simp [readFrom, isDigit, symbolFollows, isIdentifierStart, isAscii]

theorem read_operator {p : Token.Punct} (binary : Precedence.ofPunct? p = some precedence)
    (spaced : Bool) (offset : Nat) (pending : Option Pending) (rest : List Char) :
    read ⟨some (.literal .integer), spaced⟩ offset pending (p.spelling.toList ++ ' ' :: rest) =
      .ok ({ kind := .punct p, body := p.spelling.toList }, pending) := by
  obtain ⟨sign, tail, spelled, member⟩ := spelling_sign binary
  have found := p.read?_spelling rest
  have noSemicolon : sign ≠ ';' := by
    rintro rfl
    revert member
    decide
  unfold read
  rw [heredocFollows_integer, Bool.and_false, if_neg Bool.false_ne_true]
  rw [spelled, List.cons_append] at found ⊢
  simp only [readFrom_sign member, operator, found]
  simp [noSemicolon, spelled, Except.map]

/-- A mark that begins neither a symbol nor a single character is read as itself where it
is the longest one. -/
theorem read_mark {p : Token.Punct} (plain : p.beginsLiteral = false)
    (longest : Token.Punct.read? (p.spelling.toList ++ rest) = some p)
    (symbol : p = .colon → symbolFollows context (':' :: rest) = false)
    (character : p = .question → characterFollows context ('?' :: rest) = false)
    (offset : Nat) (pending : Option Pending) :
    read context offset pending (p.spelling.toList ++ rest) =
      .ok ({ kind := .punct p, body := p.spelling.toList }, pending) := by
  obtain ⟨c, tail, spelled, digit, start, signs, colon, question⟩ := spelling_mark p
  unfold Token.Punct.beginsLiteral at plain
  have self := p.read?_self
  rw [spelled] at longest plain self ⊢
  have noSymbol : symbolFollows context (c :: tail ++ rest) = false := by
    by_cases sign : c = ':'
    · subst sign
      rcases colon rfl with rfl | rfl
      · exact symbol (Option.some.inj (self.symm.trans rfl))
      · rfl
    · simp [symbolFollows, sign]
  have noCharacter : (c = '?' && !context.namesMethod &&
      characterFollows context (c :: tail ++ rest)) = false := by
    by_cases sign : c = '?'
    · subst sign
      obtain rfl := question rfl
      rw [List.cons_append, List.nil_append, character (Option.some.inj (self.symm.trans rfl)),
        Bool.and_false]
    · simp [sign]
  simp only [List.mem_cons, List.not_mem_nil, or_false, not_or] at signs
  obtain ⟨quote, double, back, sigil, dollar, semicolon⟩ := signs
  have other : c ≠ '<' ∧ c ≠ '%' ∧ c ≠ '/' := by simpa using plain
  rw [List.cons_append] at longest noSymbol noCharacter ⊢
  rw [read_first other.1, readFrom]
  simp only [digit, quote, double, back, sigil, dollar, noSymbol, noCharacter, other, start, operator,
    longest]
  simp [semicolon, spelled, Except.map]

/-- Apart from what follows it, every mark is read as itself but one that a literal may
begin like. -/
theorem read_apart {p : Token.Punct} (plain : p.beginsLiteral = false) (apart : Apart rest)
    (context : Context) (offset : Nat) (pending : Option Pending) :
    read context offset pending (p.spelling.toList ++ rest) =
      .ok ({ kind := .punct p, body := p.spelling.toList }, pending) := by
  refine read_mark plain (p.read?_apart apart) (fun _ => ?_) (fun _ => ?_) offset pending
  · obtain rfl | ⟨more, rfl⟩ := apart
    · rfl
    · simp [symbolFollows, operatorSymbols, List.isPrefixOf, isIdentifierStart, isAscii]
  · obtain rfl | ⟨more, rfl⟩ := apart
    · simp [characterFollows]
    · simp [characterFollows, isPrintable]

/-- What stands behind a number does not go on with it. -/
structure EndsNumber (rest : List Char) : Prop where
  apart : rest.head?.any isDigitOrSeparator = false
  fraction : fraction rest = []
  exponent : exponent rest = []

theorem endsNumber_apart (apart : Apart rest) : EndsNumber rest := by
  obtain rfl | ⟨more, rfl⟩ := apart
  · exact ⟨rfl, rfl, rfl⟩
  · exact ⟨show isDigitOrSeparator ' ' = false by decide, rfl, rfl⟩

theorem number_ends {digits : List Char} (all : digits.all isDigitOrSeparator = true)
    (ends : EndsNumber rest) :
    number (digits ++ rest) = { kind := .literal .integer, body := digits } := by
  have whole : (digits ++ rest).takeWhile isDigitOrSeparator = digits :=
    takeWhile_append_of_ends (List.all_eq_true.mp all) ends.apart
  unfold number
  simp only [whole, List.drop_left, ends.fraction, List.length_nil, List.drop_zero,
    ends.exponent, List.append_nil]
  rfl

theorem read_integer {digits : List Char} (leads : digits.head?.any isDigit = true)
    (all : digits.all isDigitOrSeparator = true) (ends : EndsNumber rest) (context : Context)
    (offset : Nat) (pending : Option Pending) :
    read context offset pending (digits ++ rest) =
      .ok ({ kind := .literal .integer, body := digits }, pending) := by
  cases digits with
  | nil => cases leads
  | cons c digits =>
    have digit : isDigit c = true := leads
    have whole := number_ends all ends
    have other : c ≠ '<' := by
      rintro rfl
      cases digit
    rw [List.cons_append] at whole ⊢
    rw [read_first other, readFrom, if_pos digit, whole]
    rfl

end Lexeme

end RubySyntax
