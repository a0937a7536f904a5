import RubySyntax.Proofs.Grammar.Definition
import RubySyntax.Proofs.Grammar.FirstToken
import RubySyntax.Proofs.Lexer.Behind

/-! The value of `return`. A table of kinds of tokens decides whether one follows, and the
table does not hold every kind that an expression begins with. -/
namespace RubySyntax

open RubySyntax.Tree (Node)
open Diagnostic (Message ParseError)
open Token (Kind)

namespace Grammar

open Grammar.Parser

/-- Kinds that an expression and a modifier of a statement begin with. -/
def modifierKinds : List Kind :=
  [.keyword .ifKw, .keyword .unlessKw, .keyword .whileKw, .keyword .untilKw]

/-- Other kinds that an expression begins with and that begin no value of `return`. -/
def missedKinds : List Kind :=
  [.keyword .aliasKw, .keyword .breakKw, .keyword .classKw, .keyword .moduleKw,
    .keyword .nextKw, .keyword .retryKw, .keyword .returnKw, .keyword .yieldKw]

variable {nest : Nest} {level : Level} {scope : Scope} {cursor final : Cursor} {node : Node}
  {word first : Token} {rest : List Token} {kind : Kind}

/-- Nothing goes on with an expression in front of a kind that is missed. -/
theorem endsExpression_of_missed : ∀ kind ∈ missedKinds, EndsExpression kind := by
  simp only [missedKinds, List.forall_mem_cons, List.not_mem_nil, false_imp_iff, implies_true,
    and_true]
  exact ⟨.aliasKw, .breakKw, .classKw, .moduleKw, .nextKw, .retryKw, .returnKw, .yieldKw⟩

theorem not_startsValue_of_missed : ∀ kind ∈ missedKinds, startsValue kind = false := by decide

/-- The first token of a primary expression is in the table, or it is a modifier or missed. -/
theorem startsValue_of_primary (read : primary nest scope cursor = .ok (node, final)) :
    startsValue cursor.token.kind = true ∨ cursor.token.kind ∈ modifierKinds ∨
      cursor.token.kind ∈ missedKinds := by
  unfold primary at read
  rw [bind_ok _ (kind_eq ..)] at read
  cases kind : cursor.token.kind with
  | keyword k =>
    rw [kind] at read
    have read : worded nest k scope cursor = .ok (node, final) := read
    unfold worded at read
    split at read
    all_goals first | decide | cases read
  | punct p =>
    rw [kind] at read
    have read : punctuated nest p scope cursor = .ok (node, final) := read
    unfold punctuated at read
    split at read
    all_goals first | decide | cases read
  | literal _ | identifier | constant | instanceVariable | classVariable | globalVariable | label =>
    exact .inl rfl
  | _ =>
    rw [kind] at read
    cases read

/-- So is the first token of an expression. -/
theorem startsValue_of_atLevel (read : atLevel nest level scope cursor = .ok (node, final)) :
    startsValue cursor.token.kind = true ∨ cursor.token.kind ∈ modifierKinds ∨
      cursor.token.kind ∈ missedKinds := by
  by_cases plain : unaryOp? cursor.token.kind = none ∧ cursor.token.kind ≠ .keyword .notKw
  · obtain ⟨made, stop, primary⟩ := primary_of_atLevel plain.1 plain.2 read
    exact startsValue_of_primary primary
  · refine .inl ?_
    obtain signed | negated := not_and_or.mp plain
    · unfold unaryOp? at signed
      split at signed
      iterate 4
        rename_i here
        rw [here]
        rfl
      exact absurd rfl signed
    · rw [not_ne_iff.mp negated]
      rfl

theorem atLevel_of_nested (read : nested depth level scope cursor = .ok (node, final)) :
    ∃ below, depth = below + 1 ∧ atLevel (nested below) level scope cursor = .ok (node, final) := by
  cases depth with
  | zero => cases read
  | succ below => exact ⟨below, rfl, read⟩

/-- An expression is read as it is further on and behind other white space. -/
theorem expression_elsewhere
    (read : nested depth .expression scope (.ofTokens first rest) = .ok (node, final))
    (closes : Closes final.token final.rest) (same : scope'.noDo = scope.noDo) (bytes : Nat)
    (spacing : Token.Spacing) :
    ∃ final', nested depth .expression scope' (.ofTokens { first.moved bytes with spacing }
        (rest.map (Token.moved bytes))) = .ok (node, final') ∧ Closes final'.token final'.rest := by
  have like : (Cursor.ofTokens first rest).Like
      (.ofTokens (first.moved bytes) (rest.map (Token.moved bytes))) :=
    .of_like first (first.span.moved bytes) (likes_moved rest bytes)
  obtain ⟨final', read', like', _⟩ := nested_carries (Nat.le_refl depth) _ like (.inl same) read
  refine ⟨final', ?_, closes.of_kinds like'.kinds⟩
  cases rest with
  | nil =>
    obtain ⟨_, _, here⟩ := atLevel_of_nested read
    have other : final.token ≠ first := fun ended =>
      (beginsStatement_of_atLevel here).begins (ended ▸ closes.endsStatement)
    exact absurd ((nested_moves depth _).remaining_lt read other) (Nat.not_lt_zero _)
  | cons next rest =>
    have blind : Blind (fun _ => True) (nested depth .expression) := .nested depth .expression
    exact (blind scope' (first.moved bytes) (next.moved bytes) spacing _ trivial).trans read'

section HandBack

/-- Behind `return` an expression is the value if the table holds its first token. -/
theorem handBack_value (starts : startsValue first.kind = true) (begins : BeginsStatement first.kind)
    (read : nest .expression scope (.ofTokens first rest) = .ok (node, final))
    (ends : EndsStatement final.token.kind) :
    handBack nest scope (.ofTokens word (first :: rest)) =
      .ok (.handBack (some (.single node)), final) := by
  have value : splatOrExpression nest scope (.ofTokens first rest) = .ok (node, final) :=
    (splatOrExpression_eq begins.single).trans read
  have values : jumpValues nest scope (.ofTokens first rest) = .ok ([node], final) := by
    unfold jumpValues
    rw [bind_ok _ (kind_eq ..), Cursor.token_ofTokens, if_pos starts]
    exact (commaSeparated_singleton_iff ends).mpr value
  unfold handBack
  rw [bind_ok _ (discard_ok (advance_ofTokens begins.known rest)), bind_ok _ values]
  rfl

/-- Behind `return` every other token is left. -/
theorem handBack_nothing (other : startsValue first.kind = false) (known : first.kind ≠ .unknown) :
    handBack nest scope (.ofTokens word (first :: rest)) =
      .ok (.handBack none, .ofTokens first rest) := by
  have values : jumpValues nest scope (.ofTokens first rest) = .ok ([], .ofTokens first rest) := by
    unfold jumpValues
    rw [bind_ok _ (kind_eq ..), Cursor.token_ofTokens, other]
    rfl
  unfold handBack
  rw [bind_ok _ (discard_ok (advance_ofTokens known rest)), bind_ok _ values]
  rfl

theorem beginsPlain_return : BeginsPlain (.keyword .returnKw) :=
  ⟨by decide, by decide, rfl, by decide, by decide⟩

/-- What `return` and its value make is the whole expression where an expression ends. -/
theorem expression_of_handBack (here : cursor.token.kind = .keyword .returnKw)
    (ends : EndsExpression final.token.kind)
    (read : handBack (nested depth) scope cursor = .ok (node, final)) :
    nested (depth + 1) .expression scope cursor = .ok (node, final) := by
  refine expression_of_primary ends (here ▸ beginsPlain_return) ?_
  unfold primary
  rw [bind_ok _ (kind_eq ..), here]
  exact read

theorem program_return (here : word.kind = .keyword .returnKw)
    (starts : startsValue first.kind = true)
    (read : nested depth .expression scope (.ofTokens first rest) = .ok (node, final))
    (closes : Closes final.token final.rest) (dummy : Token) :
    ∃ stop, program (depth + 1) scope (.ofTokens dummy (word :: first :: rest)) =
      .ok ([.handBack (some (.single node))], stop) := by
  obtain ⟨_, _, expression⟩ := atLevel_of_nested read
  have ends := closes.endsStatement
  have value : handBack (nested depth) scope (.ofTokens word (first :: rest)) = _ :=
    handBack_value starts (beginsStatement_of_atLevel expression) read ends
  exact program_of_closed (here ▸ beginsPlain_return.beginsStatement)
    (expression_of_handBack here ends.endsExpression value) closes dummy

theorem program_return_missed (here : word.kind = .keyword .returnKw)
    (missed : first.kind ∈ missedKinds) (dummy : Token) :
    program (depth + 1) scope (.ofTokens dummy (word :: first :: rest)) =
      unexpected scope (.ofTokens first rest) := by
  have apart : ∀ kind ∈ missedKinds, kind ≠ .unknown ∧ kind ≠ .punct .comma ∧ ¬ EndsStatement kind := by
    decide
  obtain ⟨known, single, further⟩ := apart _ missed
  have ends := endsExpression_of_missed _ missed
  have nothing : handBack (nested depth) scope (.ofTokens word (first :: rest)) = _ :=
    handBack_nothing (not_startsValue_of_missed _ missed) known
  exact program_of_unfinished (here ▸ beginsPlain_return.beginsStatement)
    (expression_of_handBack here ends nothing) ends single further dummy

end HandBack

end Grammar

open Grammar (Cursor modifierKinds missedKinds)
open Grammar.Parser (nested startsValue)

/-- The source is one expression, under a nesting limit: behind the expression that is read
from its first token on only separators are left. -/
def IsExpression (source : String) (depth : Nat) (first : Token) (node : Node) : Prop :=
  ∃ rest final, (scan source).1 = first :: rest ∧
    nested depth .expression { limit := depth, fault := (scan source).2 } (.ofTokens first rest) =
      .ok (node, final) ∧
    Grammar.Closes final.token final.rest

variable {source fileName : String} {depth : Nat} {first : Token} {node : Node}

/-- Such a source is a program of the one expression. -/
theorem IsExpression.parse (alone : IsExpression source depth first node) :
    RubySyntax.parse source { fileName, maxDepth := depth } = .ok [node] := by
  obtain ⟨rest, final, scanned, read, closes⟩ := alone
  obtain ⟨_, _, expression⟩ := Grammar.atLevel_of_nested read
  rw [parse_eq_ok_iff, scanned]
  exact Grammar.program_of_closed (Grammar.beginsStatement_of_atLevel expression) read closes _

theorem IsExpression.startsValue_iff (alone : IsExpression source depth first node)
    (plain : first.kind ∉ modifierKinds) :
    startsValue first.kind = true ↔ first.kind ∉ missedKinds := by
  obtain ⟨rest, final, _, read, _⟩ := alone
  obtain ⟨_, _, expression⟩ := Grammar.atLevel_of_nested read
  constructor
  · intro starts missed
    rw [Grammar.not_startsValue_of_missed _ missed] at starts
    cases starts
  · intro listed
    obtain starts | modifier | missed := Grammar.startsValue_of_atLevel expression
    · exact starts
    · exact absurd modifier plain
    · exact absurd missed listed

/-- The tokens of a source behind `return`. -/
theorem scan_behindReturn (begins : Lexer.AtToken (.ofSource source))
    (scanned : (scan source).1 = first :: rest) :
    ∃ word spacing, (scan ("return " ++ source)).1 =
        word :: { first.moved 7 with spacing } :: rest.map (Token.moved 7) ∧
      word.kind = .keyword .returnKw := by
  have named : Lexeme.IsName "return".toList := ⟨by decide, by decide⟩
  have worded : Lexeme.nameKind ⟨none, false⟩ "return".toList = .keyword .returnKw := by decide
  obtain ⟨word, _, _, spacing, alone, behind, here⟩ :=
    Lexer.scan_behindWord begins named worded rfl fun _ _ _ => rfl
  obtain ⟨rfl, rfl⟩ := List.cons.inj (scanned.symm.trans alone)
  exact ⟨word, spacing, behind, here⟩

/-- `return` in front of a source that is one expression hands it back, unless the table of
tokens that begin a value misses the first token of the source. The reading fails at that
token then. -/
theorem parse_return (alone : IsExpression source depth first node)
    (begins : Lexer.AtToken (.ofSource source)) (plain : first.kind ∉ modifierKinds) :
    parse source { fileName, maxDepth := depth } = .ok [node] ∧
      (startsValue first.kind = true ↔ first.kind ∉ missedKinds) ∧
      (first.kind ∉ missedKinds →
        parse ("return " ++ source) { fileName, maxDepth := depth + 1 } =
          .ok [.handBack (some (.single node))]) ∧
      (first.kind ∈ missedKinds → ∃ error,
        parse ("return " ++ source) { fileName, maxDepth := depth + 1 } = .error error ∧
          error.report.code = Message.unexpectedToken.code ∧
          error.report.span = some (first.span.moved 7)) := by
  have starts := alone.startsValue_iff plain
  refine ⟨alone.parse, starts, fun listed => ?_, fun missed => ?_⟩
  · obtain ⟨rest, final, scanned, read, closes⟩ := alone
    obtain ⟨word, spacing, behind, here⟩ := scan_behindReturn begins scanned
    let scope : Grammar.Scope := { limit := depth + 1, fault := (scan ("return " ++ source)).2 }
    have same : scope.noDo = false := rfl
    obtain ⟨_, read', closes'⟩ := Grammar.expression_elsewhere read closes same 7 spacing
    rw [parse_eq_ok_iff, behind]
    have starts : startsValue ({ first.moved 7 with spacing } : Token).kind = true := starts.mpr listed
    exact Grammar.program_return here starts read' closes' _
  · obtain ⟨rest, _, scanned, _, _⟩ := alone
    obtain ⟨word, spacing, behind, here⟩ := scan_behindReturn begins scanned
    let first' : Token := { first.moved 7 with spacing }
    let error : ParseError := .grammatical (.raiseAt first'.span .unexpectedToken [first'.display])
    have missed' : first'.kind ∈ missedKinds := missed
    refine ⟨error.inFile fileName (.ofSource ("return " ++ source)), parse_of_refused ?_, rfl, rfl⟩
    rw [behind]
    exact Grammar.program_return_missed here missed' _

private theorem assignment_matches :
    (match (scan "x = 1").1 with
      | first :: rest =>
        ((first.kind, nested 255 .expression { limit := 255, fault := (scan "x = 1").2 }
          (.ofTokens first rest)) matches
            (.identifier, .ok (.assignment (.reference "x") (.integer 1),
              { token := { kind := .endOfFile, .. }, .. })))
      | [] => false) = true := by
  decide +kernel

/-- An assignment behind `return`. -/
theorem parse_return_assignment :
    ∃ first, IsExpression "x = 1" 255 first (.assignment (.reference "x") (.integer 1)) ∧
      Lexer.AtToken (.ofSource "x = 1") ∧ first.kind ∉ modifierKinds ∧
      parse ("return " ++ "x = 1") =
        .ok [.handBack (some (.single (.assignment (.reference "x") (.integer 1))))] := by
  have name : Lexeme.IsName "x".toList := ⟨by decide, by decide⟩
  have begins : Lexer.AtToken (.ofSource "x = 1") :=
    Lexer.Stops.atToken (Lexer.stops_name name " = 1".toList)
  have found := assignment_matches
  split at found
  · rename_i first rest scanned
    split at found
    · rename_i result read
      obtain ⟨kind, read⟩ := Prod.mk.inj read
      have alone : IsExpression "x = 1" 255 first (.assignment (.reference "x") (.integer 1)) :=
        ⟨rest, _, scanned, read, .ended rfl⟩
      have plain : first.kind ∉ modifierKinds := by rw [kind]; decide
      have listed : first.kind ∉ missedKinds := by rw [kind]; decide
      exact ⟨first, alone, begins, plain, (parse_return alone begins plain).2.2.1 listed⟩
    · cases found
  · cases found

private theorem yield_matches :
    (match (scan "yield 1").1 with
      | first :: rest =>
        ((first.kind, nested 255 .expression { limit := 255, fault := (scan "yield 1").2 }
          (.ofTokens first rest)) matches
            (.keyword .yieldKw, .ok (.handOver (some (.single (.integer 1))),
              { token := { kind := .endOfFile, .. }, .. })))
      | [] => false) = true := by
  decide +kernel

/-- The table misses `yield`. -/
theorem not_parse_return_of_yield :
    ∃ first, IsExpression "yield 1" 255 first (.handOver (some (.single (.integer 1)))) ∧
      Lexer.AtToken (.ofSource "yield 1") ∧ first.kind ∉ modifierKinds ∧
      parse ("return " ++ "yield 1") ≠
        .ok [.handBack (some (.single (.handOver (some (.single (.integer 1))))))] := by
  have name : Lexeme.IsName "yield".toList := ⟨by decide, by decide⟩
  have begins : Lexer.AtToken (.ofSource "yield 1") :=
    Lexer.Stops.atToken (Lexer.stops_name name " 1".toList)
  have failed : (parse ("return " ++ "yield 1")).isOk = false := by decide +kernel
  have found := yield_matches
  split at found
  · rename_i first rest scanned
    split at found
    · rename_i result read
      obtain ⟨kind, read⟩ := Prod.mk.inj read
      refine ⟨first, ⟨rest, _, scanned, read, .ended rfl⟩, begins, by rw [kind]; decide, fun read => ?_⟩
      rw [read] at failed
      cases failed
    · cases found
  · cases found

end RubySyntax
