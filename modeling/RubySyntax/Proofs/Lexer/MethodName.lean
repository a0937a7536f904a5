import RubySyntax.Proofs.Lexeme.Written
import RubySyntax.Proofs.Lexer.Sentence

/-! Names of methods: words, which a mark may end, and operators. Set apart, each is read as
itself wherever it stands but behind a dot, except for the slash: where an operand may begin
it opens a regular expression. -/
namespace RubySyntax

open Text (isIdentifierPart isIdentifierStart isConstantStart)
open Token (Kind Keyword Punct)

namespace Lexeme

/-- A word; a question or exclamation mark may end it unless it is capitalized. -/
inductive IsMethodWord : List Char → Prop
  | plain (named : IsName word) : IsMethodWord word
  | marked (named : IsName word) (small : word.head?.any isConstantStart = false)
      (mark : c = '?' ∨ c = '!') : IsMethodWord (word ++ [c])

/-- A name that a method can have, and the kind of its token. -/
inductive IsMethodName : Kind → List Char → Prop
  | word (named : IsMethodWord word) : IsMethodName (nameKind ⟨none, false⟩ word) word
  | operator (names : p.isMethodName = true) : IsMethodName (.punct p) p.spelling.toList

variable {word rest : List Char} {context : Context} {kind : Kind} {name : List Char}

theorem head?_apart (apart : Apart rest) : rest.head? = none ∨ rest.head? = some ' ' := by
  obtain rfl | ⟨more, rfl⟩ := apart
  · exact .inl rfl
  · exact .inr rfl

theorem IsMethodWord.start (named : IsMethodWord word) :
    ∃ c tail, word = c :: tail ∧ isIdentifierStart c = true := by
  have first {word : List Char} (named : IsName word) :
      ∃ c tail, word = c :: tail ∧ isIdentifierStart c = true := by
    cases word with
    | nil => cases named.start
    | cons c tail => exact ⟨c, tail, rfl, named.start⟩
  cases named with
  | plain named => exact first named
  | @marked word mark named small _ =>
    obtain ⟨c, tail, rfl, start⟩ := first named
    exact ⟨c, tail ++ [mark], rfl, start⟩

/-- A word that stands apart is the whole text of its name, its mark included. -/
theorem IsMethodWord.nameText_apart (named : IsMethodWord word) (apart : Apart rest) :
    nameText (word ++ rest) = word := by
  cases named with
  | plain named =>
    have ends := Word.endsName_apart apart
    unfold nameText
    simp only [named.takeWhile ends, List.drop_left, ends.unmarked, List.append_nil, ite_self]
  | @marked word c named small mark =>
    have other : isIdentifierPart c = false := by
      rcases mark with rfl | rfl
      · decide
      · decide
    have stem : (word ++ c :: rest).takeWhile isIdentifierPart = word :=
      takeWhile_append_of_ends (List.all_eq_true.mp named.parts) other
    have first : (word ++ c :: rest).head? = word.head? := by
      cases word with
      | nil => cases named.start
      | cons d tail => rfl
    have ended : nameMark (c :: rest) = [c] := by
      have noEqual : rest.head? ≠ some '=' := by
        obtain none | blank := head?_apart apart
        · simp [none]
        · simp [blank]
      rcases mark with rfl | rfl
      · simp [nameMark, noEqual]
      · simp [nameMark, noEqual]
    rw [List.append_assoc, List.singleton_append]
    unfold nameText
    simp only [stem, first, small, List.drop_left, ended]
    rfl

theorem read_methodWord (named : IsMethodWord word) (apart : Apart rest)
    (noDot : context.isAfterDot = false) (offset : Nat) (pending : Option Pending) :
    read context offset pending (word ++ rest) =
      .ok ({ kind := nameKind ⟨none, false⟩ word, body := word }, pending) := by
  have text := named.nameText_apart apart
  have unlabelled := (Word.endsName_apart apart).unlabelled
  have same : nameKind context word = nameKind ⟨none, false⟩ word := by
    unfold nameKind
    rw [noDot]
    rfl
  obtain ⟨c, tail, rfl, start⟩ := named.start
  refine (read_start start context offset pending (tail ++ rest)).trans ?_
  rw [← List.cons_append]
  unfold Lexeme.name
  simp only [text, List.drop_left, unlabelled, Bool.false_and, Bool.false_eq_true, if_false, same]

/-- The operators that may name a method and begin like a literal. -/
def literalSigns : List Punct := [.less, .lessEqual, .compare, .shiftLeft, .percent, .slash]

theorem mem_literalSigns {p : Punct} (names : p.isMethodName = true)
    (begins : p.beginsLiteral = true) : p ∈ literalSigns := by
  have decided : ∀ p ∈ Punct.all, p.isMethodName = true → p.beginsLiteral = true →
      p ∈ literalSigns := by decide +kernel
  exact decided p p.mem_all names begins

/-- How such an operator is spelled. -/
theorem literalSigns_spelling {p : Punct} (sign : p ∈ literalSigns) :
    (∃ tail, p.spelling.toList = '<' :: tail ∧ tail ∈ [[], ['='], ['=', '>'], ['<']]) ∨
      p.spelling.toList = ['%'] ∨ (p = .slash ∧ p.spelling.toList = ['/']) := by
  simp only [literalSigns, List.mem_cons, List.not_mem_nil, or_false] at sign
  rcases sign with rfl | rfl | rfl | rfl | rfl | rfl
  iterate 4 exact .inl ⟨_, rfl, by decide⟩
  · exact .inr (.inl rfl)
  · exact .inr (.inr ⟨rfl, rfl⟩)

/-- No name of a heredoc follows less-than signs that stand apart. -/
theorem heredocFollows_apart {tail : List Char} (member : tail ∈ [[], ['='], ['=', '>'], ['<']])
    (apart : Apart rest) (context : Context) :
    heredocFollows context ('<' :: tail ++ rest) = false := by
  simp only [List.mem_cons, List.not_mem_nil, or_false] at member
  rcases member with rfl | rfl | rfl | rfl
  · obtain rfl | ⟨more, rfl⟩ := apart
    · rfl
    · rfl
  · rfl
  · rfl
  · obtain rfl | ⟨more, rfl⟩ := apart
    · simp [heredocFollows]
    · simp [heredocFollows, isHeredocMark, isIdentifierStart, Text.isAscii]

theorem percentFollows_apart (apart : Apart rest) (context : Context) :
    percentFollows context ('%' :: rest) = false := by
  have noLetter : ' '.isAlpha = false := by decide
  obtain rfl | ⟨more, rfl⟩ := apart
  · simp [percentFollows]
  · simp [percentFollows, noLetter]

theorem startsOperand_apart (apart : Apart rest) (context : Context) (c : Char) :
    context.startsOperand (c :: rest) = context.expectsOperand := by
  obtain rfl | ⟨more, rfl⟩ := apart
  · simp [Context.startsOperand, Context.isCommandArgument]
  · simp [Context.startsOperand, Context.isCommandArgument, Text.isSpace, Text.isBlank]

/-- A slash that stands apart begins a regular expression here. -/
def Context.opensRegex (context : Context) : Bool :=
  !context.namesMethod && context.expectsOperand

theorem readFrom_less (context : Context) (tail : List Char) :
    readFrom context '<' ('<' :: tail) = operator ('<' :: tail) := by
  simp [readFrom, Text.isDigit, symbolFollows, isIdentifierStart, Text.isAscii]

/-- An operator that stands apart is read as itself, unless it is a slash that begins a
regular expression. -/
theorem read_methodOperator {p : Punct} (names : p.isMethodName = true) (apart : Apart rest)
    (divides : p = .slash → context.opensRegex = false) (offset : Nat) (pending : Option Pending) :
    read context offset pending (p.spelling.toList ++ rest) =
      .ok ({ kind := .punct p, body := p.spelling.toList }, pending) := by
  have longest := p.read?_apart apart
  have operator {c : Char} {tail : List Char} (spelled : p.spelling.toList = c :: tail)
      (visible : c ≠ ';') :
      operator (c :: (tail ++ rest)) = .ok { kind := .punct p, body := p.spelling.toList } := by
    rw [spelled, List.cons_append] at longest
    unfold Lexeme.operator
    rw [if_neg (by simpa using visible)]
    simp only [longest]
  cases begins : p.beginsLiteral with
  | false => exact read_apart begins apart context offset pending
  | true =>
    obtain ⟨tail, spelled, member⟩ | spelled | ⟨slash, spelled⟩ :=
      literalSigns_spelling (mem_literalSigns names begins)
    · have noHeredoc := heredocFollows_apart member apart context
      have signed := (readFrom_less context (tail ++ rest)).trans (operator spelled (by decide))
      rw [List.cons_append] at noHeredoc
      rw [congrArg (· ++ rest) spelled, List.cons_append]
      unfold Lexeme.read
      rw [noHeredoc, Bool.and_false, if_neg Bool.false_ne_true]
      simp only [signed]
      rfl
    · have noLiteral := percentFollows_apart apart context
      have signed := ((readFrom_percent context rest).trans (if_neg (by simp [noLiteral]))).trans
        (operator spelled (by decide))
      rw [congrArg (· ++ rest) spelled, List.singleton_append, read_first (by decide), signed]
      rfl
    · have noRegex : (!context.namesMethod && context.startsOperand ('/' :: rest)) = false := by
        rw [startsOperand_apart apart]
        exact divides slash
      have signed := ((readFrom_slash context rest).trans (if_neg (by simp [noRegex]))).trans
        (operator spelled (by decide))
      rw [congrArg (· ++ rest) spelled, List.singleton_append, read_first (by decide), signed]
      rfl

/-- A slash that stands apart where an operand may begin is read as no operator. -/
theorem regex_of_read_slash (apart : Apart rest) (opens : context.opensRegex = true)
    {bodies : Option Pending} {lexeme : Lexeme}
    (found : read context offset pending ('/' :: rest) = .ok (lexeme, bodies)) :
    lexeme.kind = .literal .regex := by
  have starts : (!context.namesMethod && context.startsOperand ('/' :: rest)) = true := by
    rw [startsOperand_apart apart]
    exact opens
  rw [read_first (by decide), readFrom_slash, if_pos starts] at found
  obtain ⟨parts, read, same⟩ := ok_of_map found
  cases same
  obtain ⟨plain, written, rfl⟩ := ok_of_map read
  show plain.kind = _
  exact literal_kind written

/-- A name of a method that stands apart is read as itself, unless it is a slash that begins
a regular expression. -/
theorem IsMethodName.read_apart (named : IsMethodName kind name) (apart : Apart rest)
    (noDot : context.isAfterDot = false)
    (divides : kind = .punct .slash → context.opensRegex = false) (offset : Nat)
    (pending : Option Pending) :
    read context offset pending (name ++ rest) = .ok ({ kind, body := name }, pending) := by
  cases named with
  | word named => exact read_methodWord named apart noDot offset pending
  | operator names =>
    exact read_methodOperator names apart (fun same => divides (congrArg Kind.punct same)) offset
      pending

theorem IsMethodName.isMethodName (named : IsMethodName kind name) : kind.isMethodName = true := by
  cases named with
  | word _ =>
    unfold nameKind
    split
    · rfl
    · split <;> rfl
  | operator names => exact names

theorem IsMethodName.running (named : IsMethodName kind name) : kind.isTerminal = false := by
  have names := named.isMethodName
  cases kind <;> first | rfl | cases names

theorem IsMethodName.noDot (named : IsMethodName kind name) :
    kind ≠ .punct .dot ∧ kind ≠ .punct .safeDot := by
  have names := named.isMethodName
  constructor
  · rintro rfl
    cases names
  · rintro rfl
    cases names

theorem IsMethodName.not_isAfterDot (named : IsMethodName kind name) :
    Context.isAfterDot ⟨some kind, false⟩ = false := by
  simp [Context.isAfterDot, named.noDot]

/-- Where the name ends no value, an operand is expected behind it, except behind the keyword
of a definition. -/
theorem IsMethodName.opensRegex_iff (named : IsMethodName kind name) :
    Context.opensRegex ⟨some kind, false⟩ = true ↔
      ¬ (kind.endsValue = true ∨ kind = .keyword .defKw) := by
  simp [Context.opensRegex, Context.namesMethod, Context.expectsOperand, named.noDot, and_comm]

theorem isMethodName_keyword (keyword : Keyword) (named : IsName keyword.spelling.toList) :
    IsMethodName (.keyword keyword) keyword.spelling.toList := by
  rw [← nameKind_keyword keyword (show Context.isAfterDot ⟨none, false⟩ = false from rfl)]
  exact .word (.plain named)

theorem IsMethodName.slash_iff (named : IsMethodName kind name) :
    kind = .punct .slash ↔ name = ['/'] := by
  cases named with
  | word named =>
    obtain ⟨c, tail, rfl, start⟩ := named.start
    refine ⟨fun same => absurd same (nameKind_ne_punct _ _ _), fun same => ?_⟩
    cases same
    cases start
  | @operator p names =>
    constructor
    · rintro ⟨⟩
      rfl
    · intro same
      have read := p.read?_self
      rw [same] at read
      exact congrArg Kind.punct (Option.some.inj read).symm

end Lexeme

namespace Lexer

open Lexeme (IsMethodName IsMethodWord)

variable {lexer : Lexer} {previous : Option Kind} {kind : Kind} {name rest following : List Char}

theorem stops_methodName (named : IsMethodName kind name) (apart : Apart rest) :
    Stops (name ++ rest) := by
  cases named with
  | word named =>
    cases named with
    | plain named => exact stops_name named rest
    | marked named _ _ =>
      rw [List.append_assoc]
      exact stops_name named _
  | operator _ => exact stops_apart _ apart

/-- The token of a name that stands apart is handed out. -/
theorem Awaits.methodName (named : IsMethodName kind name)
    (awaits : lexer.Awaits previous (name ++ rest)) (apart : Apart rest)
    (running : previous.any Kind.isTerminal = false)
    (noDot : Lexeme.Context.isAfterDot ⟨previous, false⟩ = false)
    (divides : kind = .punct .slash → Lexeme.Context.opensRegex ⟨previous, false⟩ = false) :
    ∃ token behind, lexer.Hands kind name token behind ∧
      behind.Awaits (some kind) rest.tail := by
  refine awaits.next running (stops_methodName named apart)
    (fun _ => named.read_apart apart noDot divides) ?_
  obtain rfl | ⟨more, rfl⟩ := apart
  · exact .inl rfl
  · exact .inr rfl

/-- A slash that stands apart where an operand may begin is handed out as a regular
expression, or as the fault of one. -/
theorem Awaits.slash (awaits : lexer.Awaits previous ('/' :: rest)) (apart : Apart rest)
    (running : previous.any Kind.isTerminal = false)
    (opens : Lexeme.Context.opensRegex ⟨previous, false⟩ = true) :
    ∃ token behind, lexer.next = (some token, behind) ∧
      (token.kind = .unknown ∨ token.kind = .literal .regex) := by
  obtain ⟨here, skipped, ahead, last, _⟩ :=
    awaits.skipTrivia (stops_cons (by decide) rfl (by decide) (by decide) rfl)
  have running : lexer.halted = false := by rw [halted, awaits.last, running]
  have opens : here.context.opensRegex = true := by rw [context, last]; exact opens
  refine ⟨(here.readToken.2.finish here.readToken.1).1, (here.readToken.2.finish here.readToken.1).2,
    by simp [Lexer.next, running, skipped], ?_⟩
  unfold readToken
  split
  · rename_i lexeme pending read
    rw [ahead] at read
    exact .inr (Lexeme.regex_of_read_slash apart opens read)
  · exact .inl rfl

end Lexer

end RubySyntax
