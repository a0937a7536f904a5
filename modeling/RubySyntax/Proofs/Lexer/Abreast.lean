import RubySyntax.Proofs.Lexer.Joined

/-! The same text ahead in two sources. Where two lexers have the same text in front of
them and the same behind them as far as it counts, the tokens up to the end are the same
but for their places. -/
namespace RubySyntax.Lexer

open Text (byteLength)

/-- Two lexers that stand further on than a third one. -/
def Abreast (lexer other : Lexer) : Prop :=
  ∃ base more more', Further more base lexer ∧ Further more' base other

variable {lexer other behind final : Lexer} {front front' start back : List Char}
  {tokens : List Token} {token : Token}

/-- Behind the same text, and in front of some that opens no block comment if none is
behind them, nothing but the place matters. -/
theorem Abreast.of_at (here : lexer.At (front ++ start) back) (there : other.At (front' ++ start) back)
    (noBlock : start = [] → "=begin".toList.isPrefixOf back = false) (last : other.last = lexer.last)
    (spacing : other.spacing = lexer.spacing) (idle : lexer.pending = none)
    (idle' : other.pending = none) : Abreast lexer other := by
  let base : Lexer := { lexer with scanner := .between start back }
  refine ⟨base, front, front', ⟨?_, rfl, rfl, ?_⟩, ⟨?_, last, spacing, ?_⟩⟩
  · exact ⟨start, back, fun none => .inr (noBlock none), rfl, here⟩
  · rw [show base.pending = none from idle]
    rfl
  · exact ⟨start, back, fun none => .inr (noBlock none), rfl, there⟩
  · rw [show base.pending = none from idle, idle']
    rfl

/-- Both read the same token and stand side by side behind it. -/
theorem Abreast.next (abreast : Abreast lexer other) (read : lexer.next = (some token, behind)) :
    ∃ span behind', other.next = (some { token with span }, behind') ∧ Abreast behind behind' := by
  obtain ⟨base, more, more', here, there⟩ := abreast
  obtain ⟨first, beyond⟩ := here.next
  obtain ⟨second, beyond'⟩ := there.next
  rw [read] at first beyond
  obtain ⟨common, found, rfl⟩ := Option.map_eq_some_iff.mp first.symm
  rw [found] at second
  exact ⟨common.span.moved (byteLength more'), _, Prod.ext second rfl, _, _, _, beyond, beyond'⟩

/-- Where the lexers of two sources stand side by side, the tokens from there on are the same,
further on. -/
theorem scan_of_abreast {source source' : String} {tokens' : List Token}
    (run : Run (ofSource source) tokens lexer) (run' : Run (ofSource source') tokens' other)
    (abreast : Abreast lexer other) :
    ∃ (base : List Token) (bytes bytes' : Nat),
      (scan source).1 = tokens ++ base.map (Token.moved bytes) ∧
      (scan source').1 = tokens' ++ base.map (Token.moved bytes') ∧
      (base = [] → lexer.halted = true) := by
  obtain ⟨start, more, more', here, there⟩ := abreast
  have halts {more : List Char} {lexer other : Lexer} (further : Further more lexer other) :
      other.halted = lexer.halted := by rw [halted, halted, further.last]
  obtain ⟨front, back, _, place, _⟩ := here.place
  obtain ⟨base, stop, left, ended⟩ := run_to_end place
  obtain ⟨final, first, further⟩ := left.further here
  obtain ⟨final', second, further'⟩ := left.further there
  refine ⟨base, _, _, scan_of_run (run.append first) ((halts further).trans ended),
    scan_of_run (run'.append second) ((halts further').trans ended), ?_⟩
  rintro rfl
  cases left
  exact (halts here).trans ended

end RubySyntax.Lexer
