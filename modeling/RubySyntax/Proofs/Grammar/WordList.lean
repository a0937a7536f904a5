import RubySyntax.Proofs.Grammar.Definition
import RubySyntax.Proofs.Lexeme.Division
import RubySyntax.Proofs.Lexeme.Operator
import RubySyntax.Proofs.Lexer.Alone

/-! Lists of words with interpolated regions. The lexer finds the end of such a list with the
regions in it; the grammar splits the text at all white space, so a region stays whole only
if there is none in it. -/
namespace RubySyntax

open RubySyntax.Tree (Node)
open Text (closingDelimiter words)

namespace Lexeme

open Text

variable {context : Context} {opener closer : Char} {body rest : List Char} {lexeme : Lexeme}

/-- The opening delimiter, where it nests in front of the closing one. -/
def nestedOpener (opener closer : Char) : Option Char :=
  if opener = closer then none else some opener

/-- A list of words with regions, behind its percent sign, letter and delimiter. -/
theorem percent_words (closes : closingDelimiter opener = some closer) (rest : List Char) :
    percent ('%' :: 'W' :: opener :: rest) =
      literal .wordList ['%', 'W', opener] (.body (nestedOpener opener closer) closer true 0)
        .unterminatedPercentLiteral [String.ofList [closer]] rest := by
  have letter : percentLetter ('%' :: 'W' :: opener :: rest) = some 'W' := rfl
  unfold percent
  simp only [letter, percentKind, Option.toList_some, List.length_cons, List.length_nil,
    List.drop_succ_cons, List.drop_zero, closes]
  rfl

theorem percent_undelimited (unknown : closingDelimiter opener = none) (rest : List Char) :
    ∃ fault, percent ('%' :: 'W' :: opener :: rest) = .error fault := by
  have letter : percentLetter ('%' :: 'W' :: opener :: rest) = some 'W' := rfl
  unfold percent
  simp [letter, percentKind, unknown]

/-- What is read as such a list is a body between delimiters. -/
theorem body_of_read_words {bodies : Option Pending}
    (found : read context offset pending ('%' :: 'W' :: opener :: rest) = .ok (lexeme, bodies))
    (list : lexeme.kind = .literal .wordList) :
    ∃ closer, closingDelimiter opener = some closer ∧
      Body (nestedOpener opener closer) closer true lexeme.text := by
  rw [read_first (by decide), readFrom_percent] at found
  split at found
  · cases closes : closingDelimiter opener with
    | none =>
      obtain ⟨fault, refused⟩ := percent_undelimited closes rest
      rw [refused] at found
      cases found
    | some closer =>
      rw [percent_words closes] at found
      unfold literal at found
      cases taken : delimited (.body (nestedOpener opener closer) closer true 0) rest with
      | none =>
        rw [taken] at found
        cases found
      | some result =>
        rw [taken] at found
        cases found
        exact ⟨closer, rfl, ((delimited_eq_some_iff (Proper.percent closes true)).mp taken).1⟩
  · cases sign : operator ('%' :: 'W' :: opener :: rest) with
    | error fault =>
      rw [sign] at found
      cases found
    | ok plain =>
      rw [sign] at found
      cases found
      obtain kind | ⟨p, kind⟩ := operator_kind sign
      all_goals cases kind.symm.trans list

/-- Where an operand may begin, a body between delimiters is read as such a list. -/
theorem read_words (closes : closingDelimiter opener = some closer)
    (accepted : Body (nestedOpener opener closer) closer true body) :
    read ⟨none, false⟩ 0 none ('%' :: 'W' :: opener :: (body ++ [closer])) =
      .ok ({ kind := .literal .wordList, opening := ['%', 'W', opener], body, closing := [closer] },
        none) := by
  have starts : percentFollows ⟨none, false⟩ ('%' :: 'W' :: opener :: (body ++ [closer])) = true := by
    simp [percentFollows, Context.startsOperand, Context.expectsOperand, closes]
  have taken : delimited (.body (nestedOpener opener closer) closer true 0) (body ++ [closer]) =
      some (body, [closer]) :=
    (delimited_eq_some_iff (Proper.percent closes true)).mpr ⟨accepted, rfl, List.prefix_rfl⟩
  rw [read_first (by decide), readFrom_percent, if_pos (by simp [starts, Context.namesMethod]),
    percent_words closes]
  unfold literal
  rw [taken]
  rfl

end Lexeme

def listOfWords (words : List (List Char)) : Node :=
  .array (words.map fun word => .string (String.ofList word))

theorem listOfWords_inj {first second : List (List Char)} :
    listOfWords first = listOfWords second ↔ first = second := by
  constructor
  · intro same
    have texts := Node.array.inj same
    refine List.map_injective_iff.mpr (fun word other same => ?_) texts
    exact String.ofList_injective (Node.string.inj same)
  · exact congrArg listOfWords

namespace Grammar

open Grammar.Parser

variable {token next : Token} {body : List Char}

/-- A list of words is split at all white space. -/
theorem primary_wordList (nest : Nest) (scope : Scope) (list : token.kind = .literal .wordList)
    (text : token.text = String.ofList body) (known : next.kind ≠ .unknown) (rest : List Token) :
    primary nest scope (.ofTokens token (next :: rest)) =
      .ok (listOfWords (words body), .ofTokens next rest) := by
  have split : wordList token.text = listOfWords (words body) := by
    unfold wordList listOfWords
    rw [text, String.toList_ofList]
  unfold primary
  rw [bind_ok _ (kind_eq ..), Cursor.token_ofTokens, list, ← split]
  exact bind_ok _ (advance_ofTokens known rest)

end Grammar

open Lexeme (Body Divides Part Unspaced nestedOpener wholeWords)

variable {opener closer : Char} {body : List Char} {parts : List Part}

/-- A body between delimiters is a program, the list of its words at all white space. -/
theorem parse_words (closes : closingDelimiter opener = some closer)
    (accepted : Body (nestedOpener opener closer) closer true body) (options : Options)
    (room : 0 < options.maxDepth) :
    parse (String.ofList ('%' :: 'W' :: opener :: (body ++ [closer]))) options =
      .ok [listOfWords (words body)] := by
  let lexeme : Lexeme :=
    { kind := .literal .wordList, opening := ['%', 'W', opener], body, closing := [closer] }
  have chars : lexeme.chars = '%' :: 'W' :: opener :: (body ++ [closer]) := by
    simp [lexeme, Lexeme.chars]
  have stops : Lexer.Stops ('%' :: 'W' :: opener :: (body ++ [closer])) :=
    Lexer.stops_cons (by decide) rfl (by decide) (by decide) rfl
  have reads := Lexeme.read_words closes accepted
  rw [← chars] at stops reads ⊢
  obtain ⟨last, scanned, ended⟩ :=
    @Lexer.scan_lexeme _ lexeme rfl stops reads String.toList_ofList
  have known : last.kind ≠ .unknown := by simp [ended]
  have read (nest) (scope) := @Grammar.primary_wordList (Lexer.tokenOf [] lexeme .unspaced []) last
    body nest scope rfl rfl known []
  exact parse_of_primary room scanned (Grammar.beginsPlain_literal .wordList) read ended

/-- A list of words with regions that the lexer takes anywhere has a body with interpolated
regions, in one way only. The list that the grammar makes of it, whatever it is a part of or
by itself, has the words that no white space outside of the regions separates, exactly if no
white space is in a region. -/
theorem listOfWords_whole_iff {context : Lexeme.Context} {opener : Char} {rest : List Char}
    {lexeme : Lexeme} {bodies : Option Lexeme.Pending}
    (found : Lexeme.read context offset pending ('%' :: 'W' :: opener :: rest) = .ok (lexeme, bodies))
    (list : lexeme.kind = .literal .wordList) (options : Options) (room : 0 < options.maxDepth) :
    ∃ closer parts, closingDelimiter opener = some closer ∧
      Divides (nestedOpener opener closer) closer lexeme.text parts ∧
      (∀ others, Divides (nestedOpener opener closer) closer lexeme.text others → others = parts) ∧
      (parse (String.ofList ('%' :: 'W' :: opener :: (lexeme.text ++ [closer]))) options =
        .ok [listOfWords (wholeWords parts)] ↔ Unspaced parts) ∧
      ∀ nest scope token next more, token.kind = lexeme.kind →
        token.text = String.ofList lexeme.text → next.kind ≠ .unknown →
        (Grammar.Parser.primary nest scope (.ofTokens token (next :: more)) =
          .ok (listOfWords (wholeWords parts), .ofTokens next more) ↔ Unspaced parts) := by
  obtain ⟨closer, closes, accepted⟩ := Lexeme.body_of_read_words found list
  obtain ⟨parts, divides⟩ := accepted.divides rfl
  have whole := (Lexeme.words_eq_wholeWords_iff divides).symm.trans listOfWords_inj.symm
  refine ⟨closer, parts, closes, divides, fun others again => ?_, ?_, ?_⟩
  · exact again.unique divides rfl (Lexeme.Proper.percent closes true)
  · rw [parse_words closes accepted options room, whole]
    simp
  · intro nest scope token next more kind text known
    rw [Grammar.primary_wordList nest scope (kind.trans list) text known, whole]
    simp

/-- Behind white space a region without any is a word. -/
theorem listOfWords_whole_iff_name :
    let parts := [Part.single 'a', .single ' ', .region ['b']]
    Divides (nestedOpener '(' ')') ')' ['a', ' ', '#', '{', 'b', '}'] parts ∧ Unspaced parts ∧
      parse "%W(a #\x7bb\x7d)" = .ok [.array [.string "a", .string "#\x7bb\x7d"]] := by
  intro parts
  have region : Lexeme.Region ['b'] := .plain (by decide) (by decide) (by decide) .nil
  have last : Divides (some '(') ')' ('#' :: '{' :: (['b'] ++ ['}'])) [.region ['b']] :=
    .region region .nil
  have divides : Divides (nestedOpener '(' ')') ')' ['a', ' ', '#', '{', 'b', '}'] parts :=
    .plain (by decide) (by decide) (by decide) (by decide)
      (.plain (by decide) (by decide) (by decide) (by decide) last)
  have unspaced : Unspaced parts := by
    intro inner member
    obtain rfl : inner = ['b'] := by simpa [parts] using member
    exact List.forall_mem_singleton.mpr (by decide)
  have found := Lexeme.read_words rfl divides.isBody
  obtain ⟨closer, others, closes, _, unique, alone, _⟩ :=
    listOfWords_whole_iff found rfl {} (by decide)
  obtain rfl : ')' = closer := Option.some.inj closes
  obtain rfl := unique parts divides
  have source : String.ofList ('%' :: 'W' :: '(' :: (['a', ' ', '#', '{', 'b', '}'] ++ [')'])) =
      "%W(a #\x7bb\x7d)" := by decide
  have meant : wholeWords parts = ["a".toList, "#\x7bb\x7d".toList] := by decide
  have read := alone.mpr unspaced
  rw [source, meant] at read
  exact ⟨divides, unspaced, read⟩

/-- White space in a region takes it apart. -/
theorem not_whole_of_spaced_region :
    let body := ['a', '#', '{', 'b', ' ', 'c', '}', 'd']
    let parts := [Part.single 'a', .region ['b', ' ', 'c'], .single 'd']
    Divides (nestedOpener '(' ')') ')' body parts ∧ wholeWords parts = [body] ∧
      parse "%W(a#\x7bb c\x7dd)" ≠ .ok [.array [.string "a#\x7bb c\x7dd"]] := by
  intro body parts
  have region : Lexeme.Region ['b', ' ', 'c'] :=
    .plain (by decide) (by decide) (by decide)
      (.plain (by decide) (by decide) (by decide) (.plain (by decide) (by decide) (by decide) .nil))
  have last : Divides (some '(') ')' ['d'] [.single 'd'] :=
    .plain (by decide) (by decide) (by decide) (by decide) .nil
  have middle : Divides (some '(') ')' ('#' :: '{' :: (['b', ' ', 'c'] ++ '}' :: ['d']))
      [.region ['b', ' ', 'c'], .single 'd'] := .region region last
  have divides : Divides (nestedOpener '(' ')') ')' body parts :=
    .plain (by decide) (by decide) (by decide) (by decide) middle
  refine ⟨divides, by decide, fun read => ?_⟩
  have source : String.ofList ('%' :: 'W' :: '(' :: (body ++ [')'])) = "%W(a#\x7bb c\x7dd)" := by
    decide
  have split := parse_words rfl divides.isBody {} (by decide)
  rw [source, read] at split
  have same : listOfWords [body] = listOfWords (words body) :=
    (List.cons.inj (Except.ok.inj split)).1
  exact absurd (listOfWords_inj.mp same) (by decide)

end RubySyntax
