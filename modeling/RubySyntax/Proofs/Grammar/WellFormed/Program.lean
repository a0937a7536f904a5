import RubySyntax.Grammar.Program
import RubySyntax.Proofs.Grammar.WellFormed.Expression
import RubySyntax.Proofs.Lexer.Faithful

namespace RubySyntax

open RubySyntax.Tree (Node AllSound)

namespace Grammar.WellFormed

/-- Every level of nesting is sound: where none is left nothing is read. -/
theorem nested (depth : Nat) : SoundNest (Parser.nested depth) := by
  induction depth with
  | zero =>
    intro level scope cursor node final named done
    cases done
  | succ depth ih => exact fun level => atLevel ih level

theorem program (depth : Nat) : Yields AllSound (Parser.program depth) :=
  .seq .advance (statements (nested depth) [])

theorem allSound_parseTokens {tokens : List Token} (named : ∀ token ∈ tokens, token.kind = .constant →
    Tree.NamesConstant token.text) {fault : Option Diagnostic.Report} {maxDepth : Nat}
    (parsed : parseTokens tokens fault maxDepth = .ok nodes) : AllSound nodes := by
  let start : Cursor :=
    { token := { kind := .endOfFile, text := "", span := .emptyAt 0 }, rest := tokens }
  have begun : start.Named := List.forall_mem_cons.mpr ⟨nofun, named⟩
  change (Parser.program maxDepth { limit := maxDepth, fault } start).map Prod.fst = _ at parsed
  cases done : Parser.program maxDepth { limit := maxDepth, fault } start with
  | error error =>
    rw [done] at parsed
    cases parsed
  | ok result =>
    obtain ⟨read, final⟩ := result
    rw [done] at parsed
    cases parsed
    exact (program maxDepth _ start read final begun done).1

theorem allSound_parse {source : String} {options : Options} {program : Tree.Program}
    (parsed : parse source options = .ok program) : AllSound program := by
  unfold parse at parsed
  dsimp only at parsed
  cases read : parseTokens (scan source).1 (scan source).2 options.maxDepth with
  | error error =>
    rw [read] at parsed
    cases parsed
  | ok nodes =>
    rw [read] at parsed
    cases parsed
    exact allSound_parseTokens (scan_constant source) read

end Grammar.WellFormed

/-- Every node that occurs in an accepted program is well formed. -/
theorem parse_wellFormed {source : String} {options : Options} {program : Tree.Program}
    (parsed : parse source options = .ok program) :
    ∀ statement ∈ program, ∀ node, Node.Occurs node statement → node.WellFormed :=
  fun statement member node occurs =>
    (Grammar.WellFormed.allSound_parse parsed statement member node occurs).wellFormed

private theorem rescue_matches :
    (parse "begin\n1\nrescue A::B\nend" matches
      .ok [.guarded [.integer 1] [⟨[⟨["A"], "B", false⟩], none, []⟩] []]) := by
  decide +kernel

theorem parse_wellFormed_rescue :
    parse "begin\n1\nrescue A::B\nend" =
        .ok [.guarded [.integer 1] [⟨[⟨["A"], "B", false⟩], none, []⟩] []] ∧
      ∀ statement ∈ [Node.guarded [.integer 1] [⟨[⟨["A"], "B", false⟩], none, []⟩] []], ∀ node,
        Node.Occurs node statement → node.WellFormed := by
  have found := rescue_matches
  split at found
  · rename_i parsed
    exact ⟨parsed, parse_wellFormed parsed⟩
  · cases found

end RubySyntax
