import RubySyntax.Proofs.Bytes.Operator
import RubySyntax.Proofs.Lexeme.Reading

namespace RubySyntax

open Token (Punct)

/-- The input begins with the mark that is read. -/
theorem Token.Punct.prefix_of_read? {p : Punct} {input : List Char} (read : read? input = some p) :
    p.spelling.toList <+: input := by
  obtain ⟨front, _⟩ := List.find?_eq_some_iff_append.mp read
  exact List.isPrefixOf_iff_prefix.mp front

/-- No longer spelling than that of the mark that is read is at the front of the input. -/
theorem Token.Punct.length_le_of_read? {p q : Punct} {input : List Char}
    (read : read? input = some p) (front : q.spelling.toList <+: input) :
    q.spelling.toList.length ≤ p.spelling.toList.length := by
  obtain ⟨_, before, after, split, refused⟩ := List.find?_eq_some_iff_append.mp read
  have sorted := longestFirst_sorted
  have member := q.mem_longestFirst
  rw [split] at sorted member
  rcases List.mem_append.mp member with earlier | later
  · have none := refused q earlier
    rw [List.isPrefixOf_iff_prefix.mpr front] at none
    cases none
  · rcases List.mem_cons.mp later with rfl | later
    · exact Nat.le_refl _
    · exact List.rel_of_pairwise_cons (List.pairwise_append.mp sorted).2.1 later

namespace Lexeme

variable {context : Context} {offset : Nat} {pending : Option Pending} {input : List Char}
  {lexeme : Lexeme} {p : Punct}

theorem operator_eq_ok (found : operator input = .ok lexeme) :
    (input.head? = some ';' ∧ lexeme = { kind := .semicolon, body := [';'] }) ∨
      ∃ p, Punct.read? input = some p ∧ lexeme = { kind := .punct p, body := p.spelling.toList } := by
  unfold operator at found
  split at found
  · rename_i first
    exact .inl ⟨beq_iff_eq.mp first, (Except.ok.inj found).symm⟩
  · split at found
    · rename_i p read
      exact .inr ⟨p, read, (Except.ok.inj found).symm⟩
    · cases found

/-- A mark is read only where it is the longest one at the front of the input, and as what
it is spelled. -/
theorem read?_of_read {bodies : Option Pending}
    (found : read context offset pending input = .ok (lexeme, bodies))
    (sign : lexeme.kind = .punct p) :
    Punct.read? input = some p ∧ lexeme = { kind := .punct p, body := p.spelling.toList } := by
  obtain ⟨word, rfl⟩ | same := word_or_operator_of_read found (.inr (by rw [sign]; nofun))
  · exact absurd sign (nameKind_ne_punct _ _ p)
  · obtain ⟨_, rfl⟩ | ⟨q, read, rfl⟩ := operator_eq_ok same
    · cases sign
    · cases sign
      exact ⟨read, rfl⟩

end Lexeme

end RubySyntax
