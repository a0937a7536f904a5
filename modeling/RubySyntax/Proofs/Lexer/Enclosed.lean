import RubySyntax.Proofs.Lexeme.Body
import RubySyntax.Proofs.Lexer.Taken

namespace RubySyntax

namespace Lexeme

open Text

/-- How a literal opens, and the delimiters of its body: a quote, the quote of a symbol, or a
percent sign with its letter and a delimiter. -/
inductive Opens : List Char → Option Char → Char → Bool → Prop
  | quoted (quote : c ∈ quotes) : Opens [c] none c (c != '\'')
  | symbol (quote : c = '"' ∨ c = '\'') : Opens [':', c] none c (c != '\'')
  | percent {kind : Token.LiteralKind} (letter : Option Char)
      (known : percentKind letter = some (kind, interpolates))
      (closes : closingDelimiter opener = some closer) :
      Opens ('%' :: letter.toList ++ [opener]) (if opener = closer then none else some opener)
        closer interpolates

theorem Opens.proper (opens : Opens opened opener closer interpolates) :
    Proper opener closer interpolates := by
  cases opens with
  | quoted quote => exact .quoted quote
  | symbol quote => exact .quoted (by rcases quote with rfl | rfl <;> decide)
  | percent letter known closes => exact .percent closes interpolates

/-- The lexeme is a literal with delimiters at the front of the input, and its text is the body
between them. -/
def Encloses (input : List Char) (lexeme : Lexeme) : Prop :=
  ∃ opener closer interpolates rest, Opens lexeme.opening opener closer interpolates ∧
    Body opener closer interpolates lexeme.body ∧ lexeme.text = lexeme.body ∧
    lexeme.closing = [closer] ∧
    input = lexeme.opening ++ lexeme.body ++ closer :: (lexeme.options ++ rest)

/-- Whatever is read with a closing delimiter is such a literal, or a regular expression between
slashes. -/
def Reading.Enclosed (reading : Reading) (input : List Char) : Prop :=
  ∀ lexeme, reading = .ok lexeme →
    lexeme.closing = [] ∨ lexeme.opening = ['/'] ∨ lexeme.Encloses input

theorem Reading.Enclosed.ite {condition : Prop} [Decidable condition] {first second : Reading}
    (yes : condition → first.Enclosed input) (no : second.Enclosed input) :
    Reading.Enclosed (if condition then first else second) input := by
  split
  · exact yes ‹_›
  · exact no

/-- Option letters are read from what follows the closing delimiter. -/
theorem Reading.Enclosed.withOptions {reading : Reading} (enclosed : reading.Enclosed input)
    (plain : ∀ lexeme, reading = .ok lexeme → lexeme.options = []) :
    Reading.Enclosed (reading.map (withOptions input)) input := by
  intro lexeme read
  obtain ⟨first, found, rfl⟩ := ok_of_map read
  have bare := plain first found
  rcases enclosed first found with open? | slash | ⟨opener, closer, interpolates, rest, encloses⟩
  · exact .inl open?
  · exact .inr (.inl slash)
  · obtain ⟨opens, body, text, closing, same⟩ := encloses
    refine .inr (.inr ⟨opener, closer, interpolates,
      rest.dropWhile fun c => regexOptions.contains c, opens, body, text, closing, ?_⟩)
    have whole : input = first.chars ++ rest := by
      simpa [Lexeme.chars, bare, closing] using same
    have behind : input.drop first.chars.length = rest := by rw [whole, List.drop_left]
    show input = first.opening ++ first.body ++ closer ::
      ((input.drop first.chars.length).takeWhile (fun c => regexOptions.contains c) ++ _)
    rw [behind, List.takeWhile_append_dropWhile, same, bare, List.nil_append]

end Lexeme

namespace Lexer

open Lexeme

end Lexer

end RubySyntax
