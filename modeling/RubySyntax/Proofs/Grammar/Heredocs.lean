import RubySyntax.Proofs.Grammar.LineByLine
import RubySyntax.Proofs.Lexer.MidLine

namespace RubySyntax

open RubySyntax.Tree (Node)
open Lexer (IsHeredoc)

namespace Grammar

open Grammar.Parser

variable {heredoc : Heredoc} {heredocs : List Heredoc} {tokens : List Token}

theorem spells_heredoc (isHeredoc : IsHeredoc heredoc tokens) :
    Spells (.template (String.ofList heredoc.text)) 0 tokens := by
  obtain ⟨kind, text⟩ := isHeredoc
  rename_i token
  refine .of_primary (kind ▸ .literal .template) fun {depth scope next more} _ ends => ?_
  have moved : advance scope (.ofTokens token (next :: more)) = .ok (token, .ofTokens next more) :=
    advance_ofTokens ends.known more
  unfold primary
  rw [bind_ok _ (kind_eq _ _), Cursor.token_ofTokens, kind]
  refine (bind_ok _ moved).trans ?_
  rw [text]
  rfl

/-- The tokens of heredocs between brackets spell the array of their texts. -/
theorem spells_heredocs {opening closing : Token} (opens : opening.kind = .punct .openBracket)
    (listed : Listed IsHeredoc heredocs tokens) (closes : closing.kind = .punct .closeBracket) :
    Spells (.array (heredocs.map fun heredoc => .template (String.ofList heredoc.text))) 1
      (opening :: (tokens ++ [closing])) :=
  .array opens (listed.imp fun _ _ => spells_heredoc).map closes

end Grammar

/-- Heredocs that are opened on one line have their lines below it, each behind those of the
heredocs before it, whatever stands in them; the program goes on behind the terminator of the
last one. -/
theorem parse_heredocs {heredocs : List Heredoc} {more : String} {options : Options}
    {nodes : Tree.Program} (deep : 1 < options.maxDepth) (read : parse more options = .ok nodes) :
    parse (Heredoc.array heredocs ++ more) options =
      .ok (.array (heredocs.map fun heredoc => .template (String.ofList heredoc.text)) :: nodes) := by
  obtain ⟨begins, rest, scanned, _, _⟩ := scan_cons_of_parse read
  obtain ⟨opening, inner, closing, feed, spacing, joined, opens, listed, closes, running, isFeed⟩ :=
    scan_array heredocs scanned (leadingDotFollows_of_parse read)
  -- By itself the array would end with the input.
  obtain ⟨last, ends⟩ : ∃ last : Token, last.kind = .endOfFile :=
    ⟨{ feed with kind := .endOfFile }, rfl⟩
  obtain ⟨_, array⟩ := Grammar.program_of_spells (Grammar.spells_heredocs opens listed closes) deep
    ends { limit := options.maxDepth } startToken
  exact parse_of_joined read scanned joined running ends (.inr ⟨feed, rfl, isFeed⟩) array

private theorem behind_matches :
    parse "p 1" matches .ok [.call none "p" [.integer 1] none] := by decide +kernel

/-- The terminator of the second heredoc, a blank line and the opener of a third one stand
in the first, and nothing in the second. -/
theorem parse_heredocs_terminators :
    1 < ({} : Options).maxDepth ∧ parse "p 1" = .ok [.call none "p" [.integer 1] none] ∧
      parse "[<<TEXT, <<END]\nEND\n\n  it's <<MORE\nTEXT\nEND\np 1" =
        .ok [.array [.template "END\n\n  it's <<MORE", .template ""],
          .call none "p" [.integer 1] none] := by
  have behind : parse "p 1" = .ok [.call none "p" [.integer 1] none] := by
    have found := behind_matches
    split at found
    · assumption
    · cases found
  let text : Heredoc :=
    { name := "TEXT".toList, lines := ["END".toList, [], "  it's <<MORE".toList]
      leads := by decide, parts := by decide, inLines := by decide, goesOn := by decide }
  let empty : Heredoc :=
    { name := "END".toList, lines := []
      leads := by decide, parts := by decide, inLines := by decide, goesOn := by decide }
  have written : Heredoc.array [text, empty] ++ "p 1" =
      "[<<TEXT, <<END]\nEND\n\n  it's <<MORE\nTEXT\nEND\np 1" := by decide +kernel
  refine ⟨by decide, behind, ?_⟩
  rw [← written]
  exact parse_heredocs (by decide) behind

end RubySyntax
