import RubySyntax.Proofs.Data.Writing

namespace RubySyntax

open Grammar (Spells)

/-- The tokens of what is written of a datum, and the end of the input behind them. -/
theorem scan_datum (datum : Datum) : ∃ tokens ended, (scan datum.render).1 = tokens ++ [ended] ∧
    Spells datum.node datum.height tokens ∧ ended.kind = .endOfFile := by
  have start : (Lexer.ofSource datum.render).GoesOn (datum.chars ++ []) := by
    rw [List.append_nil]
    exact ⟨rfl, Lexer.ofSource_awaits datum.chars⟩
  have opens : OpensDatum (Lexer.ofSource datum.render).last := ⟨rfl, fun _ => rfl⟩
  have ends : EndsDatum [] := nofun
  obtain ⟨tokens, behind, run, spells, goesOn⟩ :=
    (Lexer.lexes_datum datum).hands opens start ends (.inl rfl)
  obtain ⟨ended, final, hands, stopped⟩ := goesOn.awaits.ended goesOn.running
  have halted : final.halted = true := Lexer.halted_of_last stopped.last
  have whole := run.append (.more hands.read .done)
  exact ⟨tokens, ended, Lexer.scan_of_run whole halted, spells, hands.kind⟩

/-- With the limit that is the default a datum of no more than 255 levels is read back,
its elements and pairs in their order and every key as often as it is written. -/
theorem parse_render (datum : Datum) (shallow : datum.height ≤ 255) :
    parse datum.render = .ok [datum.node] := by
  obtain ⟨tokens, ended, scanned, spells, last⟩ := scan_datum datum
  have reads := Grammar.parseTokens_spells spells last (scan datum.render).2
    (show datum.height < 256 from Nat.lt_succ_of_le shallow)
  unfold parse
  simp only [scanned, reads]
  rfl

theorem parse_render_repeatedKey :
    (Datum.array [.hash [⟨.atom .null, .atom (.symbol ⟨['a'], by decide, by decide⟩)⟩,
      ⟨.atom .null, .array []⟩], .atom (.integer 12 (by decide))]).height ≤ 255 ∧
    parse "[\x7bnil => :a, nil => []\x7d, 12]" =
      .ok [.array [.hash [⟨.null, .symbol "a"⟩, ⟨.null, .array []⟩], .integer 12]] := by
  let datum : Datum := .array [.hash [⟨.atom .null, .atom (.symbol ⟨['a'], by decide, by decide⟩)⟩,
    ⟨.atom .null, .array []⟩], .atom (.integer 12 (by decide))]
  have shallow : datum.height ≤ 255 := by decide
  have written : datum.render = "[\x7bnil => :a, nil => []\x7d, 12]" := by decide +kernel
  refine ⟨shallow, ?_⟩
  rw [← written]
  exact parse_render datum shallow

end RubySyntax
