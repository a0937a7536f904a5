import Mathlib.Data.List.MinMax
import RubySyntax.Proofs.Data.Reading
import RubySyntax.Proofs.Lexer.Prefixed

namespace RubySyntax

open RubySyntax.Tree (Node HashPair)
open Token (Kind Punct)
open Text

def EndsDatum (rest : List Char) : Prop := ∀ c ∈ rest.head?, c ∈ [' ', ',', ']', '}']

theorem endsDatum_cons (member : c ∈ [' ', ',', ']', '\x7d']) (rest : List Char) :
    EndsDatum (c :: rest) := by
  rintro _ ⟨⟩
  exact member

/-- Behind a token of this kind, or behind none, a datum may stand. -/
structure OpensDatum (previous : Option Kind) : Prop where
  valueless : previous.any Kind.endsValue = false
  noDot (spaced : Bool) : Lexeme.Context.isAfterDot ⟨previous, spaced⟩ = false

def dataPuncts : List Punct :=
  [.openBracket, .closeBracket, .openBrace, .closeBrace, .comma, .hashArrow]

namespace Lexeme

variable {previous : Option Kind} {p : Punct} {chars rest : List Char}

theorem endsName_datum (ends : EndsDatum rest) : EndsName rest := by
  cases rest with
  | nil => exact ⟨rfl, rfl, rfl⟩
  | cons c rest =>
    have member : c ∈ [' ', ',', ']', '}'] := ends c rfl
    simp only [List.mem_cons, List.not_mem_nil, or_false] at member
    rcases member with rfl | rfl | rfl | rfl
    · exact endsName_blank rest
    · exact ⟨show isIdentifierPart ',' = false by decide, rfl, rfl⟩
    · exact ⟨show isIdentifierPart ']' = false by decide, rfl, rfl⟩
    · exact ⟨show isIdentifierPart '}' = false by decide, rfl, rfl⟩

theorem endsNumber_datum (ends : EndsDatum rest) : EndsNumber rest := by
  cases rest with
  | nil => exact ⟨rfl, rfl, rfl⟩
  | cons c rest =>
    have member : c ∈ [' ', ',', ']', '}'] := ends c rfl
    simp only [List.mem_cons, List.not_mem_nil, or_false] at member
    rcases member with rfl | rfl | rfl | rfl
    all_goals exact ⟨by simp [isDigitOrSeparator, isDigit], rfl, rfl⟩

theorem read?_dataPunct (member : p ∈ dataPuncts) (rest : List Char) :
    Token.Punct.read? (p.spelling.toList ++ rest) = some p := by
  simp only [dataPuncts, List.mem_cons, List.not_mem_nil, or_false] at member
  rcases member with rfl | rfl | rfl | rfl | rfl | rfl
  all_goals rfl

/-- The punctuation of data is read as such wherever it stands. -/
theorem read_dataPunct (member : p ∈ dataPuncts) (context : Context) (offset : Nat)
    (pending : Option Pending) (rest : List Char) :
    read context offset pending (p.spelling.toList ++ rest) =
      .ok ({ kind := .punct p, body := p.spelling.toList }, pending) := by
  have plain : ∀ p ∈ dataPuncts, p.beginsLiteral = false ∧ p ≠ .colon ∧ p ≠ .question := by decide
  obtain ⟨noLiteral, noColon, noQuestion⟩ := plain p member
  exact read_mark noLiteral (read?_dataPunct member rest) (fun same => absurd same noColon)
    (fun same => absurd same noQuestion) offset pending

/-- The quote behind a quotable text closes it. -/
theorem bodyWidth_quotable (quotable : isQuotable chars = true) (width : Nat)
    (rest : List Char) :
    bodyWidth (.quoted '\'') [] width (chars ++ '\'' :: rest) = some (width + chars.length) := by
  fun_induction isQuotable chars generalizing width with
  | case1 =>
    rw [List.nil_append, bodyWidth]
    simp [Frame.quoted, Frame.interpolates, Frame.move]
  | case2 => cases quotable
  | case3 c chars ih =>
    rw [List.cons_append, bodyWidth, if_pos rfl, List.cons_append, List.drop_one, List.tail_cons,
      ih quotable, List.length_cons, List.length_cons, Nat.add_assoc, Nat.add_comm 2]
  | case4 c chars notLast notEscape ih =>
    obtain ⟨noQuote, quotable⟩ := Bool.and_eq_true_iff.mp quotable
    have plain : c ≠ '\\' := by
      rintro rfl
      cases chars with
      | nil => exact notLast rfl rfl
      | cons next chars => exact notEscape next chars rfl rfl
    have other : c ≠ '\'' := bne_iff_ne.mp noQuote
    have stays : (Frame.quoted '\'').move c = .stay (.quoted '\'') := by
      simp [Frame.quoted, Frame.move, other]
    have static : (Frame.quoted '\'').interpolates = false := rfl
    rw [List.cons_append, bodyWidth, if_neg plain, static, Bool.false_and, Bool.false_and,
      if_neg Bool.false_ne_true, stays]
    refine (ih quotable (width + 1)).trans ?_
    rw [List.length_cons, Nat.add_assoc, Nat.add_comm 1]

theorem quoted_quotable (quotable : isQuotable chars = true) (rest : List Char) :
    quoted .string '\'' ('\'' :: (chars ++ '\'' :: rest)) =
      .ok { kind := .literal .string, opening := ['\''], body := chars, closing := ['\''] } := by
  have width := bodyWidth_quotable quotable 0 rest
  rw [Nat.zero_add] at width
  have body : delimited (.quoted '\'') (chars ++ '\'' :: rest) = some (chars, ['\'']) := by
    rw [delimited, width, Option.map_some, List.take_left, List.drop_left]
    rfl
  unfold quoted literal
  rw [List.drop_one, List.tail_cons, body]

theorem symbolName_datum
    (parts : chars.all (fun c => isIdentifierPart c || c == '!' || c == '?') = true)
    (ends : EndsDatum rest) : symbolName (chars ++ rest) = chars := by
  have others : ∀ c ∈ [' ', ',', ']', '\x7d'],
      (isIdentifierPart c || c == '!' || c == '?') = false ∧ c ≠ '=' :=
    List.all_iff_forall_prop.mp (by decide +kernel)
  have apart : rest.head?.any (fun c => isIdentifierPart c || c == '!' || c == '?') = false := by
    cases rest with
    | nil => rfl
    | cons c rest => exact (others c (ends c rfl)).1
  unfold symbolName
  simp only [takeWhile_append_of_ends (List.all_eq_true.mp parts) apart, List.drop_left]
  split
  · exact absurd rfl (others '=' (ends '=' rfl)).2
  · rfl

/-- A name behind a colon is a symbol where no value touches the colon. -/
theorem read_symbol (name : SymbolName) (valueless : previous.any Kind.endsValue = false)
    (ends : EndsDatum rest) (spaced : Bool) (offset : Nat) (pending : Option Pending) :
    read ⟨previous, spaced⟩ offset pending (':' :: (name.chars ++ rest)) =
      .ok ((Atom.symbol name).lexeme, pending) := by
  have whole := symbolName_datum name.parts ends
  obtain ⟨chars, leads, parts⟩ := name
  cases chars with
  | nil => cases leads
  | cons c chars =>
    have start : isIdentifierStart c = true := leads
    have other (d : Char) (noStart : isIdentifierStart d = false) : c ≠ d := by
      rintro rfl
      rw [start] at noStart
      cases noStart
    have noColon := other ':' (by decide)
    have noQuote := other '"' (by decide)
    have noSingle := other '\'' (by decide)
    have noSigil := other '@' (by decide)
    have noDollar := other '$' (by decide)
    have whole : symbolName (c :: (chars ++ rest)) = c :: chars := whole
    have follows : symbolFollows ⟨previous, spaced⟩ (':' :: c :: (chars ++ rest)) = true := by
      simp [symbolFollows, Context.isGluedToValue, noColon, valueless, start]
    have symbol : symbol (':' :: c :: (chars ++ rest)) =
        .ok { kind := .literal .symbol, opening := [':'], body := c :: chars } := by
      simp [Lexeme.symbol, noQuote, noSingle, noSigil, noDollar, start, whole]
    rw [List.cons_append, read_first (by decide)]
    simp [readFrom, isDigit, follows, symbol, Atom.lexeme, Except.map]

/-- Where a datum may stand an atom is read whole. -/
theorem read_atom (atom : Atom) (opens : OpensDatum previous) (ends : EndsDatum rest)
    (spaced : Bool) (offset : Nat) (pending : Option Pending) :
    read ⟨previous, spaced⟩ offset pending (atom.chars ++ rest) =
      .ok (atom.lexeme, pending) := by
  have word {word : List Char} {keyword : Token.Keyword} (letters : word ⊆ smallLetters)
      (nonempty : word ≠ []) (spelled : Token.Keyword.ofSpelling? (String.ofList word) = some keyword) :
      read ⟨previous, spaced⟩ offset pending (word ++ rest) =
        .ok ({ kind := .keyword keyword, body := word }, pending) := by
    rw [read_name (isName_of_letters letters nonempty) (endsName_datum ends), nameKind, opens.noDot]
    simp [spelled]
  cases atom with
  | integer value within =>
    let text := Grammar.IntegerText.ofValue value within
    exact read_integer text.leads text.digits (endsNumber_datum ends) _ offset pending
  | string text =>
    have quoted := quoted_quotable text.quotable rest
    have split : (Atom.string text).chars ++ rest = '\'' :: (text.chars ++ '\'' :: rest) := by
      simp [Atom.chars]
    rw [split, read_first (by decide)]
    simp [readFrom, isDigit, quoted, Atom.lexeme, Except.map]
  | symbol name => exact read_symbol name opens.valueless ends spaced offset pending
  | boolean value =>
    cases value
    · exact word (by decide) (by decide) (by decide)
    · exact word (by decide) (by decide) (by decide)
  | null => exact word (by decide) (by decide) (by decide)

end Lexeme

namespace Lexer

open Grammar (Spells SpellsPair Listed)

/-- The lexer has not come to the end, and goes on with the text. -/
structure GoesOn (lexer : Lexer) (text : List Char) : Prop where
  running : lexer.halted = false
  awaits : lexer.Awaits lexer.last text

/-- Wherever a datum may stand the text is handed out as tokens that fit, whatever ends
the datum behind it. -/
structure Lexes (text : List Char) (fits : List Token → Prop) : Prop where
  hands {lexer : Lexer} {rest following : List Char} : OpensDatum lexer.last →
    lexer.GoesOn (text ++ rest) → EndsDatum rest → rest = following ∨ rest = ' ' :: following →
      ∃ tokens behind, Run lexer tokens behind ∧ fits tokens ∧ behind.GoesOn following

variable {lexer : Lexer} {p : Punct} {text rest following : List Char} {bound : Nat}

theorem Awaits.goesOn {kind : Kind} (awaits : lexer.Awaits (some kind) text)
    (going : kind.isTerminal = false) : lexer.GoesOn text :=
  ⟨(halted_of_last awaits.last).trans going, awaits.last ▸ awaits⟩

section Tokens

theorem stops_dataPunct (member : p ∈ dataPuncts) (rest : List Char) :
    Stops (p.spelling.toList ++ rest) := by
  refine stops_punct p ?_
  simp only [dataPuncts, List.mem_cons, List.not_mem_nil, or_false] at member
  rcases member with rfl | rfl | rfl | rfl | rfl | rfl
  all_goals rfl

/-- Punctuation of data is handed out, and the lexer goes on. -/
theorem GoesOn.punct (member : p ∈ dataPuncts) (goesOn : lexer.GoesOn (p.spelling.toList ++ rest))
    (follows : rest = following ∨ rest = ' ' :: following) :
    ∃ token behind, lexer.next = (some token, behind) ∧ token.kind = .punct p ∧
      behind.last = some (.punct p) ∧ behind.GoesOn following := by
  have reads (spaced : Bool) := Lexeme.read_dataPunct member ⟨lexer.last, spaced⟩
  obtain ⟨token, behind, hands, awaits⟩ := goesOn.awaits.next goesOn.running
    (stops_dataPunct member rest) (fun spaced offset pending => reads spaced offset pending rest) follows
  exact ⟨token, behind, hands.read, hands.kind, awaits.last, awaits.goesOn rfl⟩

theorem stops_atom (atom : Atom) (rest : List Char) : Stops (atom.chars ++ rest) := by
  cases atom with
  | integer value within => exact stops_integer (Grammar.IntegerText.ofValue value within).leads rest
  | string text => exact stops_cons (by decide) rfl (by decide) (by decide) rfl
  | symbol name => exact stops_cons (by decide) rfl (by decide) (by decide) rfl
  | boolean value =>
    cases value
    · exact stops_name ⟨by decide, by decide⟩ _
    · exact stops_name ⟨by decide, by decide⟩ _
  | null => exact stops_name ⟨by decide, by decide⟩ _

theorem lexes_atom (atom : Atom) : Lexes atom.chars (Spells atom.node 0) := by
  refine ⟨fun {lexer rest following} opens goesOn ends follows => ?_⟩
  have stops := stops_atom atom rest
  have reads := Lexeme.read_atom atom opens ends
  rw [← atom.chars_lexeme] at goesOn stops reads
  have going : atom.lexeme.kind.isTerminal = false := by
    cases atom with
    | boolean value => cases value <;> rfl
    | _ => rfl
  obtain ⟨token, behind, hands, awaits⟩ :=
    goesOn.awaits.lexeme goesOn.running stops reads follows
  exact ⟨[token], behind, .more hands.read .done, .atom ⟨hands.kind, hands.text⟩,
    awaits.goesOn going⟩

end Tokens

section Lists

variable {α : Type} {chars : α → List Char} {fits : α → List Token → Prop} {values : List α}

theorem Lexes.imp {fits kept : List Token → Prop} (lexes : Lexes text fits)
    (holds : ∀ tokens, fits tokens → kept tokens) : Lexes text kept := by
  refine ⟨fun opens goesOn ends follows => ?_⟩
  obtain ⟨tokens, behind, run, fit, goesOn⟩ := lexes.hands opens goesOn ends follows
  exact ⟨tokens, behind, run, holds tokens fit, goesOn⟩

theorem opensDatum_punct (member : p ∈ [.openBracket, .openBrace, .comma, .hashArrow]) :
    OpensDatum (some (.punct p)) := by
  simp only [List.mem_cons, List.not_mem_nil, or_false] at member
  rcases member with rfl | rfl | rfl | rfl
  all_goals exact ⟨rfl, fun _ => rfl⟩

/-- Behind one datum a comma, a blank and the next one are read. -/
theorem lexes_listed (each : ∀ value ∈ values, Lexes (chars value) (fits value))
    (nonempty : values ≠ []) : Lexes (Datum.listed (values.map chars)) (Listed fits values) := by
  induction values with
  | nil => exact absurd rfl nonempty
  | cons value values ih =>
    obtain ⟨first, others⟩ := List.forall_mem_cons.mp each
    cases values with
    | nil =>
      rw [List.map_singleton, Datum.listed_singleton]
      exact first.imp fun tokens fit => .last fit
    | cons next values =>
      refine ⟨fun {lexer rest following} opens goesOn ends follows => ?_⟩
      rw [List.map_cons, List.map_cons, Datum.listed_cons_cons, ← List.map_cons,
        List.append_assoc] at goesOn
      obtain ⟨tokens, middle, run, fit, goesOn⟩ :=
        first.hands opens goesOn (endsDatum_cons (by decide) _) (.inl rfl)
      obtain ⟨mark, behind, read, isComma, last, goesOn⟩ :=
        GoesOn.punct (p := .comma) (by decide) goesOn (.inr rfl)
      obtain ⟨more, final, run', listed, goesOn⟩ :=
        (ih others (List.cons_ne_nil next values)).hands (last ▸ opensDatum_punct (by decide))
          goesOn ends follows
      exact ⟨tokens ++ mark :: more, final, run.append (.more read run'), .more fit isComma listed,
        goesOn⟩

/-- Between an opening and a closing mark the values are read. -/
theorem lexes_enclosed {p q : Punct} (opens : p ∈ [.openBracket, .openBrace])
    (closes : q ∈ [.closeBracket, .closeBrace])
    (each : ∀ value ∈ values, Lexes (chars value) (fits value)) :
    Lexes (p.spelling.toList ++ (Datum.listed (values.map chars) ++ q.spelling.toList))
      fun tokens => ∃ opening inner closing, tokens = opening :: (inner ++ [closing]) ∧
        opening.kind = .punct p ∧ Listed fits values inner ∧ closing.kind = .punct q := by
  have marks : p ∈ dataPuncts ∧ p ∈ [.openBracket, .openBrace, .comma, .hashArrow] := by
    revert p
    decide
  have mark : q ∈ dataPuncts := by
    revert q
    decide
  have behindValue (rest : List Char) : EndsDatum (q.spelling.toList ++ rest) := by
    simp only [List.mem_cons, List.not_mem_nil, or_false] at closes
    rcases closes with rfl | rfl
    · exact endsDatum_cons (by decide) rest
    · exact endsDatum_cons (by decide) rest
  refine ⟨fun {lexer rest following} _ goesOn _ follows => ?_⟩
  rw [List.append_assoc, List.append_assoc] at goesOn
  obtain ⟨opening, start, readOpening, isOpener, last, goesOn⟩ := goesOn.punct marks.1 (.inl rfl)
  obtain ⟨inner, stop, run, listed, goesOn⟩ : ∃ inner stop, Run start inner stop ∧
      Listed fits values inner ∧ stop.GoesOn (q.spelling.toList ++ rest) := by
    -- With no values in between the closing mark is next.
    by_cases empty : values = []
    · subst empty
      exact ⟨[], start, .done, .none, goesOn⟩
    · exact (lexes_listed each empty).hands (last ▸ opensDatum_punct marks.2) goesOn
        (behindValue rest) (.inl rfl)
  obtain ⟨closing, behind, readClosing, isCloser, _, goesOn⟩ := goesOn.punct mark follows
  exact ⟨opening :: (inner ++ [closing]), behind,
    .more readOpening (run.append (.more readClosing .done)),
    ⟨opening, inner, closing, rfl, isOpener, listed, isCloser⟩, goesOn⟩

/-- Behind a key and a blank an arrow, a blank and the value are read. -/
theorem lexes_paired {key value : Tree.Node} {keyChars valueChars : List Char}
    (first : Lexes keyChars (Spells key bound)) (second : Lexes valueChars (Spells value bound)) :
    Lexes (Datum.paired ⟨keyChars, valueChars⟩) (SpellsPair bound ⟨key, value⟩) := by
  refine ⟨fun {lexer rest following} opens goesOn ends follows => ?_⟩
  have split : Datum.paired ⟨keyChars, valueChars⟩ ++ rest =
      keyChars ++ ' ' :: (Punct.hashArrow.spelling.toList ++ ' ' :: (valueChars ++ rest)) := by
    rw [Datum.paired, List.append_assoc, List.append_assoc]
    rfl
  rw [split] at goesOn
  obtain ⟨tokens, middle, run, spells, goesOn⟩ :=
    first.hands opens goesOn (endsDatum_cons (by decide) _) (.inr rfl)
  obtain ⟨mark, behind, read, isArrow, last, goesOn⟩ :=
    GoesOn.punct (p := .hashArrow) (by decide) goesOn (.inr rfl)
  obtain ⟨more, final, run', spells', goesOn⟩ :=
    second.hands (last ▸ opensDatum_punct (by decide)) goesOn ends follows
  exact ⟨tokens ++ mark :: more, final, run.append (.more read run'), .intro spells isArrow spells',
    goesOn⟩

end Lists

/-- The text of a datum is handed out as tokens that spell it. -/
theorem lexes_datum (datum : Datum) : Lexes datum.chars (Spells datum.node datum.height) := by
  induction datum using Datum.induction with
  | atom content => exact lexes_atom content
  | array elements ih =>
    have each (element : Datum) (member : element ∈ elements) : Lexes element.chars
        (Spells element.node ((elements.map Datum.height).foldr max 0)) := by
      refine (ih element member).imp fun tokens spells => spells.weaken ?_
      exact List.le_max_of_le' 0 (List.mem_map_of_mem member) le_rfl
    rw [Datum.chars_array, Datum.node_array, Datum.height_array]
    have enclosed := lexes_enclosed (p := .openBracket) (q := .closeBracket) (by decide) (by decide) each
    refine enclosed.imp ?_
    rintro _ ⟨opening, inner, closing, rfl, opens, listed, closes⟩
    exact .array opens listed.map closes
  | hash pairs ih =>
    let bound := (pairs.map fun pair => max pair.key.height pair.value.height).foldr max 0
    have each (pair : Tree.HashPair Datum) (member : pair ∈ pairs) :
        Lexes (Datum.paired ⟨pair.key.chars, pair.value.chars⟩)
          (SpellsPair bound ⟨pair.key.node, pair.value.node⟩) := by
      obtain ⟨key, value⟩ := ih pair member
      have within : max pair.key.height pair.value.height ≤ bound :=
        List.le_max_of_le' 0 (List.mem_map_of_mem member) le_rfl
      obtain ⟨first, second⟩ := max_le_iff.mp within
      exact lexes_paired (key.imp fun _ spells => spells.weaken first)
        (value.imp fun _ spells => spells.weaken second)
    rw [Datum.chars_hash, Datum.node_hash, Datum.height_hash]
    have enclosed := lexes_enclosed (p := .openBrace) (q := .closeBrace) (by decide) (by decide) each
    refine enclosed.imp ?_
    rintro _ ⟨opening, inner, closing, rfl, opens, listed, closes⟩
    exact .hash opens listed.map closes

end Lexer

end RubySyntax
