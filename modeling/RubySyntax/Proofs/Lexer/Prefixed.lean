import RubySyntax.Proofs.Lexeme.Word
import RubySyntax.Proofs.Lexer.Further
import RubySyntax.Proofs.Lexer.Taken
import RubySyntax.Proofs.Lexer.Word

namespace RubySyntax

open Lexeme (EndsName smallLetters)
open Text (byteLength isBlank)

namespace Lexer

/-- The lexer stands between two texts, behind a token of the kind `last` and white
space, and no bodies wait. -/
structure Stands (lexer : Lexer) (front back : List Char) (last : Option Token.Kind)
    (spacing : Token.Spacing) : Prop where
  place : lexer.At front back
  last : lexer.last = last
  spacing : lexer.spacing = spacing
  pending : lexer.pending = none

theorem ofSource_stands (source : String) :
    (ofSource source).Stands [] source.toList none .unspaced := ⟨rfl, rfl, rfl, rfl⟩

variable {lexer : Lexer} {front back word rest : List Char} {last : Option Token.Kind}
  {spacing : Token.Spacing}

/-- A blank is passed over and noted. -/
theorem Stands.blank (stands : lexer.Stands front (c :: rest) last spacing)
    (blank : isBlank c = true) (running : last.any Token.Kind.isTerminal = false) :
    ∃ here : Lexer, lexer.next = here.next ∧
      here.Stands (front ++ [c]) rest last { spacing with blankBefore := true } := by
  refine ⟨(lexer.skip 1).noteBlank, ?_, stands.place.skip 1, stands.last, ?_, stands.pending⟩
  · have halted : lexer.halted = false := by rw [Lexer.halted, stands.last, running]
    have still : (lexer.skip 1).noteBlank.halted = false := halted
    unfold next
    rw [skipTrivia_blank stands.place.ahead blank, halted, still]
    rfl
  · show { lexer.spacing with blankBefore := true } = _
    rw [stands.spacing]

/-- Blanks are passed over and noted. -/
theorem Stands.blanks {blanks : List Char} (stands : lexer.Stands front (blanks ++ rest) last spacing)
    (some : blanks ≠ []) (all : ∀ c ∈ blanks, isBlank c = true)
    (running : last.any Token.Kind.isTerminal = false) :
    ∃ here : Lexer, lexer.next = here.next ∧
      here.Stands (front ++ blanks) rest last { spacing with blankBefore := true } := by
  induction blanks generalizing lexer front spacing with
  | nil => exact absurd rfl some
  | cons c more ih =>
    obtain ⟨here, passed, noted⟩ := stands.blank (all c List.mem_cons_self) running
    cases more with
    | nil => exact ⟨here, passed, noted⟩
    | cons d more =>
      obtain ⟨final, further, reached⟩ := ih noted (List.cons_ne_nil _ _)
        fun e member => all e (List.mem_cons_of_mem _ member)
      rw [List.append_assoc] at reached
      exact ⟨final, passed.trans further, reached⟩

/-- The token that a lexeme is cut to behind `front` and in front of `rest`. -/
def tokenOf (front : List Char) (lexeme : Lexeme) (spacing : Token.Spacing) (rest : List Char) :
    Token where
  kind := lexeme.kind
  text := String.ofList lexeme.text
  span := .ofBounds (byteLength (front ++ lexeme.opening))
    (byteLength (front ++ lexeme.opening ++ lexeme.body))
  spacing := { spacing with spaceAfter := rest.head?.all Text.isSpace }
  suffix := String.ofList lexeme.options

/-- A lexeme that opens no heredoc is cut where it stands. -/
theorem Stands.lexeme {lexeme : Lexeme} (stands : lexer.Stands front (lexeme.chars ++ rest) last spacing)
    (running : last.any Token.Kind.isTerminal = false) (stops : Stops (lexeme.chars ++ rest))
    (reads : Lexeme.read ⟨last, spacing.isSpacedBefore⟩ (byteLength front) none
      (lexeme.chars ++ rest) = .ok (lexeme, none)) :
    ∃ behind, lexer.next = (some (tokenOf front lexeme spacing rest), behind) ∧
      behind.Stands (front ++ lexeme.chars) rest lexeme.kind .unspaced := by
  obtain ⟨place, here, white, pending⟩ := stands
  have skipped : lexer.skipTrivia false = (none, lexer) := stops lexer false place.ahead
  have halted : lexer.halted = false := by rw [Lexer.halted, here, running]
  have context : lexer.context = ⟨last, spacing.isSpacedBefore⟩ := by rw [Lexer.context, here, white]
  have read : lexer.readToken = { lexer with pending := none }.cut lexeme := by
    unfold Lexer.readToken
    rw [context, place.offset, pending, place.ahead, reads]
  let cutting := { lexer with pending := none }.cut lexeme
  have start : { lexer with pending := none }.At front (lexeme.chars ++ rest) := place
  have after : cutting.2.At (front ++ lexeme.chars) rest := start.cut
  have span : cutting.1.span = _ := start.cut_span
  have peeked : cutting.2.scanner.peek = rest.head? := by rw [Scanner.peek, after.ahead]
  have spacing' : cutting.2.spacing = spacing := white
  have token : (cutting.2.finish cutting.1).1 = tokenOf front lexeme spacing rest := by
    show Token.mk lexeme.kind _ cutting.1.span
      { cutting.2.spacing with spaceAfter := cutting.2.scanner.peek.all Text.isSpace } _ = _
    rw [span, peeked, spacing']
    rfl
  refine ⟨(cutting.2.finish cutting.1).2, ?_, after, rfl, rfl, rfl⟩
  rw [← token]
  simp [Lexer.next, halted, skipped, read, cutting]

/-- A word is read where it stands. -/
theorem Stands.name (stands : lexer.Stands front (word ++ rest) last spacing)
    (running : last.any Token.Kind.isTerminal = false) (named : Lexeme.IsName word)
    (ends : EndsName rest) :
    ∃ token behind, lexer.next = (some token, behind) ∧
      token.kind = Lexeme.nameKind ⟨last, spacing.isSpacedBefore⟩ word ∧
      token.text = String.ofList word ∧ token.spacing.blankBefore = spacing.blankBefore ∧
      behind.Stands (front ++ word) rest token.kind .unspaced := by
  let lexeme : Lexeme := { kind := Lexeme.nameKind ⟨last, spacing.isSpacedBefore⟩ word, body := word }
  have chars : lexeme.chars = word := by simp [Lexeme.chars, lexeme]
  rw [← chars] at stands
  obtain ⟨behind, read, after⟩ := stands.lexeme running (by rw [chars]; exact stops_name named rest)
    (by rw [chars]; exact Lexeme.read_name named ends _ _ _)
  rw [chars] at after
  exact ⟨_, behind, read, rfl, rfl, rfl, after⟩

end Lexer

def BeginsWithDef (source : String) : Prop :=
  ∃ rest, source.toList = "def".toList ++ rest ∧ EndsName rest

abbrev Token.IsDef (token : Token) : Prop := token.kind = .keyword .defKw

/-- The tokens of a source that begins with `def`, and those of the same source behind
a word and a blank. -/
structure ScansBehind (word source : String) (first : Token) (rest : List Token)
    (name first' : Token) : Prop where
  alone : (scan source).1 = first :: rest
  behind : (scan (word ++ " " ++ source)).1 =
    name :: first' :: rest.map (Token.moved (byteLength (word ++ " ").toList))
  kind : name.kind = .identifier
  text : name.text = word
  keyword : first.IsDef
  again : first'.IsDef
  blank : first'.spacing.blankBefore = true
  more : rest ≠ []

theorem scan_behind (begins : BeginsWithDef source) (letters : word.toList ⊆ smallLetters)
    (nonempty : word.toList ≠ []) (noKeyword : Token.Keyword.ofSpelling? word = none) :
    ∃ first rest name first', ScansBehind word source first rest name first' := by
  obtain ⟨rest, chars, ends⟩ := begins
  have source_stands := Lexer.ofSource_stands source
  rw [chars] at source_stands
  have keyword : Lexeme.IsName "def".toList := ⟨by decide, by decide⟩
  obtain ⟨first, behind, read, kind, _, _, stands⟩ := source_stands.name rfl keyword ends
  have whole : (word ++ " " ++ source).toList = word.toList ++ ' ' :: source.toList := by simp
  have start := Lexer.ofSource_stands (word ++ " " ++ source)
  rw [whole] at start
  obtain ⟨name, afterName, readName, nameKind, nameText, _, namedStands⟩ :=
    start.name rfl (Lexeme.isName_of_letters letters nonempty) (Lexeme.endsName_blank _)
  have identifier : name.kind = .identifier := by
    rw [nameKind]
    exact Lexeme.nameKind_word letters (by rwa [String.ofList_toList]) _
  obtain ⟨here, passed, hereStands⟩ := namedStands.blank rfl (by rw [identifier]; rfl)
  rw [chars] at hereStands
  obtain ⟨first', behind', read', kind', _, blank, stands'⟩ :=
    hereStands.name (by rw [identifier]; rfl) keyword ends
  have definition : first.IsDef := kind.trans (by decide)
  have definition' : first'.IsDef := kind'.trans (by rw [identifier]; decide)
  have further : Lexer.Further (word.toList ++ [' ']) behind behind' := by
    refine ⟨⟨_, _, fun none => ?_, stands.place, ?_⟩, ?_, ?_, ?_⟩
    · cases none
    · simpa using stands'.place
    · rw [stands.last, stands'.last, definition, definition']
    · rw [stands.spacing, stands'.spacing]
    · rw [stands.pending, stands'.pending]
      rfl
  obtain ⟨tokens, alone, prefixed, more⟩ := Lexer.scan_of_further (.more read .done)
    (.more readName (.more (passed.trans read') .done)) further
  have written : (word ++ " ").toList = word.toList ++ [' '] := by simp
  refine ⟨first, tokens, name, first', alone, ?_, identifier, ?_, definition, definition', blank, ?_⟩
  · rw [written]
    exact prefixed
  · rw [nameText, String.ofList_toList]
  · intro none
    have halted := more none
    rw [Lexer.halted, stands.last, definition] at halted
    cases halted

end RubySyntax
