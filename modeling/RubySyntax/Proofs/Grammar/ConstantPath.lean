import RubySyntax.Proofs.Grammar.Definition
import RubySyntax.Proofs.Lexer.Spelling
import RubySyntax.Proofs.Tree.Scope

namespace RubySyntax

open RubySyntax.Tree (ConstantPath)
open Lexeme (EndsName)
open Token (Kind Keyword Punct)

/-- No reserved word begins with a capital. -/
theorem Token.Keyword.uncapitalized (keyword : Keyword) :
    keyword.spelling.toList.head?.any Text.isConstantStart = false := by
  cases keyword <;> decide

theorem Lexeme.nameKind_capital {word : List Char}
    (capital : word.head?.any Text.isConstantStart = true) (context : Context) :
    nameKind context word = .constant := by
  have noKeyword : Keyword.ofSpelling? (String.ofList word) = none := by
    refine Option.eq_none_iff_forall_ne_some.mpr fun keyword found => ?_
    have small := keyword.uncapitalized
    rw [Keyword.spelling_of_ofSpelling? found, String.toList_ofList, capital] at small
    cases small
  unfold nameKind
  rw [noKeyword, ite_self]
  exact if_pos capital

namespace ConstantName

structure IsToken (name : ConstantName) (token : Token) : Prop where
  kind : token.kind = .constant
  text : token.text = name.text

/-- Names as they are written behind another one. -/
def behindAnother (names : List ConstantName) : List Char :=
  names.flatMap fun name => "::".toList ++ name.text.toList

/-- The tokens of names behind another one and of the end of the input. Nothing stands in
front of the double colons. -/
inductive Follow : List ConstantName → Token → List Token → Prop where
  | ended (last : token.kind = .endOfFile) : Follow [] token []
  | name (colons : token.kind = .punct .scope) (glued : token.spacing.isSpacedBefore = false)
      (spelled : name.IsToken second) (rest : Follow names next tokens) :
      Follow (name :: names) token (second :: next :: tokens)

inductive Spell (first : ConstantName) (names : List ConstantName) : Bool → List Token → Prop where
  | relative (spelled : first.IsToken token) (rest : Follow names next tokens) :
      Spell first names false (token :: next :: tokens)
  | absolute (colons : token.kind = .punct .scope) (spelled : first.IsToken second)
      (rest : Follow names next tokens) :
      Spell first names true (token :: second :: next :: tokens)

theorem Follow.known (follow : Follow names token tokens) :
    token.kind ≠ .unknown := by
  cases follow with
  | ended last => simp [last]
  | name colons _ _ _ => simp [colons]

theorem endsName_behindAnother (names : List ConstantName) : EndsName (behindAnother names) := by
  cases names with
  | nil => exact ⟨rfl, rfl, rfl⟩
  | cons name names => exact ⟨rfl, rfl, rfl⟩

theorem toList_intercalate (first : ConstantName) (names : List ConstantName) :
    ("::".intercalate ((first :: names).map text)).toList =
      first.text.toList ++ behindAnother names := by
  induction names generalizing first with
  | nil => simp [behindAnother]
  | cons next names ih =>
    have tail : ("::".intercalate (next.text :: names.map text)).toList = _ := ih next
    rw [List.map_cons, List.map_cons, String.intercalate_cons_cons, String.toList_append,
      String.toList_append, tail, List.append_assoc]
    rfl

end ConstantName

namespace Lexer

variable {lexer : Lexer} {front rest : List Char} {last : Option Kind} {spacing : Token.Spacing}

/-- The token of a double colon has the white space in front of it. -/
theorem Stands.doubleColon (stands : lexer.Stands front ("::".toList ++ rest) last spacing)
    (running : last.any Kind.isTerminal = false) :
    ∃ token behind, lexer.next = (some token, behind) ∧ token.kind = .punct .scope ∧
      token.spacing.isSpacedBefore = spacing.isSpacedBefore ∧
      behind.Stands (front ++ "::".toList) rest (some (.punct .scope)) .unspaced := by
  let lexeme : Lexeme := { kind := .punct .scope, body := "::".toList }
  have longest : Punct.read? (Punct.scope.spelling.toList ++ rest) = some .scope := rfl
  have stands : lexer.Stands front (lexeme.chars ++ rest) last spacing := stands
  obtain ⟨behind, read, after⟩ := stands.lexeme running (stops_punct .scope rfl)
    (Lexeme.read_mark rfl longest (absurd · (by decide)) (absurd · (by decide)) _ _)
  exact ⟨_, behind, read, rfl, rfl, after⟩

theorem Stands.constant (name : ConstantName)
    (stands : lexer.Stands front (name.text.toList ++ rest) last spacing)
    (running : last.any Kind.isTerminal = false) (ends : EndsName rest) :
    ∃ token behind, lexer.next = (some token, behind) ∧ name.IsToken token ∧
      behind.Stands (front ++ name.text.toList) rest (some .constant) .unspaced := by
  obtain ⟨token, behind, read, kind, text, _, after⟩ := stands.name running name.named ends
  rw [Lexeme.nameKind_capital name.capital] at kind
  rw [kind] at after
  exact ⟨token, behind, read, ⟨kind, text.trans String.ofList_toList⟩, after⟩

open ConstantName (behindAnother endsName_behindAnother)

/-- Behind a constant the lexer hands out the names that follow it, then the end. -/
theorem Stands.run_names {names : List ConstantName}
    (stands : lexer.Stands front (behindAnother names) (some .constant) .unspaced) :
    ∃ token tokens final, Run lexer (token :: tokens) final ∧ final.halted = true ∧
      ConstantName.Follow names token tokens := by
  induction names generalizing lexer front with
  | nil =>
    have awaits : lexer.Awaits (some .constant) [] := ⟨.inl stands.place.ahead, stands.last⟩
    obtain ⟨token, behind, ends, stopped⟩ := awaits.ended rfl
    exact ⟨token, [], behind, .more ends.read .done, halted_of_last stopped.last, .ended ends.kind⟩
  | cons name names ih =>
    have written : behindAnother (name :: names) =
        "::".toList ++ (name.text.toList ++ behindAnother names) := by
      simp [behindAnother]
    rw [written] at stands
    obtain ⟨colons, middle, readColons, kind, glued, between⟩ := stands.doubleColon rfl
    obtain ⟨second, behind, readName, spelled, after⟩ :=
      between.constant name rfl (endsName_behindAnother names)
    obtain ⟨next, tokens, final, run, halted, follow⟩ := ih after
    exact ⟨colons, second :: next :: tokens, final, .more readColons (.more readName run), halted,
      .name kind glued spelled follow⟩

end Lexer

/-- A path has the tokens of its names. -/
theorem scan_constantPath (first : ConstantName) (names : List ConstantName) (isGlobal : Bool)
    {source : String}
    (written : source.toList = (if isGlobal then "::" else "").toList ++
      (first.text.toList ++ ConstantName.behindAnother names)) :
    ConstantName.Spell first names isGlobal (scan source).1 := by
  have ends := ConstantName.endsName_behindAnother names
  have stands := Lexer.ofSource_stands source
  rw [written] at stands
  cases isGlobal with
  | false =>
    obtain ⟨token, behind, read, spelled, after⟩ := stands.constant first rfl ends
    obtain ⟨next, tokens, final, run, halted, follow⟩ := after.run_names
    rw [Lexer.scan_of_run (.more read run) halted]
    exact .relative spelled follow
  | true =>
    obtain ⟨colons, middle, readColons, kind, _, between⟩ := stands.doubleColon rfl
    obtain ⟨token, behind, read, spelled, after⟩ := between.constant first rfl ends
    obtain ⟨next, tokens, final, run, halted, follow⟩ := after.run_names
    rw [Lexer.scan_of_run (.more readColons (.more read run)) halted]
    exact .absolute kind spelled follow

namespace Grammar

open Grammar.Parser
open RubySyntax.Tree (Node)
open ConstantName (Follow Spell)

variable {scope : Scope} {token next : Token} {rest tokens : List Token}
  {names : List ConstantName}

theorem isAtGlued_here {kind : Kind} (here : token.kind = kind)
    (glued : token.spacing.isSpacedBefore = false) :
    isAtGlued kind scope (.ofTokens token rest) = .ok (true, .ofTokens token rest) := by
  rw [isAtGlued_eq, Cursor.token_ofTokens, beq_iff_eq.mpr here, glued]
  rfl

theorem isAtGlued_other {kind : Kind} {cursor : Cursor} (other : cursor.token.kind ≠ kind) :
    isAtGlued kind scope cursor = .ok (false, cursor) := by
  rw [isAtGlued_eq, beq_false_of_ne other, Bool.false_and]

theorem eatGlued_other {kind : Kind} {cursor : Cursor} (other : cursor.token.kind ≠ kind) :
    eatGlued kind scope cursor = .ok (false, cursor) := by
  unfold eatGlued
  rw [bind_ok _ (isAtGlued_other other)]
  rfl

/-- One name further in, where a double colon and a constant follow. -/
def Parser.pathStep (path : ConstantPath) : Parser (Option ConstantPath) := do
  if (← isAtGlued Punct.scope) && (← nextKind) == some .constant then
    discard advance
    return some (path.push (← advance).text)
  return none

theorem pathStep_ofTokens {name : ConstantName} {second : Token}
    (colons : token.kind = .punct .scope) (glued : token.spacing.isSpacedBefore = false)
    (spelled : name.IsToken second) (known : next.kind ≠ .unknown) (path : ConstantPath) :
    pathStep path scope (.ofTokens token (second :: next :: rest)) =
      .ok (some (path.push name.text), .ofTokens next rest) := by
  have follows : nextKind scope (.ofTokens token (second :: next :: rest)) =
      .ok (some .constant, .ofTokens token (second :: next :: rest)) := by
    rw [← spelled.kind]
    rfl
  have constant : (true && some Kind.constant == some Kind.constant) = true := by decide
  have passed : Functor.discard advance scope (.ofTokens token (second :: next :: rest)) =
      .ok ((), .ofTokens second (next :: rest)) :=
    discard_ok (advance_ofTokens (by simp [spelled.kind]) _)
  unfold pathStep
  rw [bind_ok _ (isAtGlued_here colons glued), bind_ok _ follows, if_pos constant,
    bind_ok _ passed, bind_ok _ (advance_ofTokens known rest), spelled.text]
  rfl

/-- Each name that follows is taken, up to the end of the input. -/
theorem chain_pathStep (scope : Scope) (follow : Follow names token tokens) (path : ConstantPath) :
    ∃ final, chain pathStep path scope (.ofTokens token tokens) =
        .ok (path.within (names.map ConstantName.text), final) ∧
      final.token.kind = .endOfFile := by
  induction follow generalizing path with
  | ended last =>
    refine ⟨.ofTokens _ [], chain_none ?_, last⟩
    unfold pathStep
    rw [bind_ok _ (isAtGlued_other (by simp [last]))]
    rfl
  | @name names next tokens name token second colons glued spelled rest ih =>
    obtain ⟨final, read, last⟩ := ih (path.push name.text)
    have step : pathStep path scope (.ofTokens token (second :: next :: tokens)) = _ :=
      pathStep_ofTokens colons glued spelled rest.known path
    have moved : tokens.length < (second :: next :: tokens).length := by
      rw [List.length_cons, List.length_cons]
      omega
    exact ⟨final, (chain_some step moved).trans read, last⟩

theorem constantName_ofTokens {name : ConstantName} (spelled : name.IsToken token)
    (known : next.kind ≠ .unknown) :
    constantName scope (.ofTokens token (next :: rest)) = .ok (name.text, .ofTokens next rest) := by
  unfold constantName
  rw [bind_ok _ (isAt_here spelled.kind), if_pos rfl]
  refine (bind_ok _ (advance_ofTokens known rest)).trans ?_
  rw [spelled.text]
  rfl

/-- The first name of a path is read. -/
theorem leadingConstant_ofTokens (scope : Scope) {first : ConstantName}
    (spell : Spell first names isGlobal (token :: tokens)) :
    ∃ next rest, leadingConstant scope (.ofTokens token tokens) =
        .ok ({ name := first.text, isGlobal }, .ofTokens next rest) ∧ Follow names next rest := by
  unfold leadingConstant
  cases spell with
  | relative spelled follow =>
    refine ⟨_, _, ?_, follow⟩
    rw [bind_ok _ (eat_other (by simp [spelled.kind])),
      bind_ok _ (constantName_ofTokens spelled follow.known)]
    rfl
  | absolute colons spelled follow =>
    refine ⟨_, _, ?_, follow⟩
    rw [bind_ok _ (eat_ofTokens colons (by simp [spelled.kind])),
      bind_ok _ (constantName_ofTokens spelled follow.known)]
    rfl

theorem constant_eq (nest : Nest) : constant nest = (do
    let path ← chain pathStep (← leadingConstant)
    if ← eatGlued Punct.scope then return ← methodCall nest (constantReference path)
    if path.isLone && (← isAtGlued Punct.openParen) then return ← callRest nest none path.name
    return constantReference path) := rfl

/-- A path is referred to with all its names. -/
theorem constant_ofTokens (scope : Scope) {first : ConstantName} (nest : Nest)
    (spell : Spell first names isGlobal (token :: tokens)) :
    ∃ final, constant nest scope (.ofTokens token tokens) =
        .ok (constantReference (ConstantPath.within { name := first.text, isGlobal }
          (names.map ConstantName.text)), final) ∧
      final.token.kind = .endOfFile := by
  obtain ⟨next, rest, leading, follow⟩ := leadingConstant_ofTokens scope spell
  obtain ⟨final, read, last⟩ := chain_pathStep scope follow { name := first.text, isGlobal }
  refine ⟨final, ?_, last⟩
  rw [constant_eq, bind_ok _ leading, bind_ok _ read, bind_ok _ (eatGlued_other (by simp [last])),
    if_neg Bool.false_ne_true, bind_ok _ (isAtGlued_other (by simp [last])), Bool.and_false]
  rfl

theorem beginsPlain_of_spell {first : ConstantName}
    (spell : Spell first names isGlobal (token :: tokens)) : BeginsPlain token.kind := by
  cases spell with
  | relative spelled _ =>
    rw [spelled.kind]
    exact ⟨by decide, by decide, rfl, by decide, by decide⟩
  | absolute colons _ _ =>
    rw [colons]
    exact ⟨by decide, by decide, rfl, by decide, by decide⟩

theorem primary_of_spell {first : ConstantName} (nest : Nest)
    (spell : Spell first names isGlobal (token :: tokens)) :
    primary nest scope (.ofTokens token tokens) = constant nest scope (.ofTokens token tokens) := by
  unfold primary
  rw [bind_ok _ (kind_eq ..), Cursor.token_ofTokens]
  cases spell with
  | relative spelled _ => rw [spelled.kind]
  | absolute colons _ _ =>
    rw [colons]
    rfl

/-- A program of one path refers to it. -/
theorem program_of_spell (scope : Scope) {first : ConstantName} {tokens : List Token} (depth : Nat)
    (dummy : Token) (spell : Spell first names isGlobal tokens) :
    ∃ final, program (depth + 1) scope (.ofTokens dummy tokens) =
      .ok ([constantReference (ConstantPath.within { name := first.text, isGlobal }
        (names.map ConstantName.text))], final) := by
  cases tokens with
  | nil => cases spell
  | cons token rest =>
    obtain ⟨final, read, last⟩ := constant_ofTokens scope (nested depth) spell
    have begins := beginsPlain_of_spell spell
    have primary := (primary_of_spell (nested depth) spell).trans read
    have expression : atLevel (nested depth) .expression scope (.ofTokens token rest) = _ :=
      expression_of_primary (last ▸ .endOfFile) begins primary
    exact ⟨final, program_of_expression begins.beginsStatement last expression⟩

end Grammar

/-- A path is its first name, further in by the others, and is written so. -/
theorem within_first (outer : List ConstantName) (name : ConstantName) (isGlobal : Bool) :
    let path : ConstantPath := { outer := outer.map ConstantName.text, name := name.text, isGlobal }
    ∃ (first : ConstantName) (names : List ConstantName),
      path = ConstantPath.within { name := first.text, isGlobal } (names.map ConstantName.text) ∧
      path.written.toList = (if isGlobal then "::" else "").toList ++
        (first.text.toList ++ ConstantName.behindAnother names) := by
  intro path
  obtain ⟨first, names, split⟩ : ∃ first names, outer ++ [name] = first :: names := by
    cases outer with
    | nil => exact ⟨name, [], rfl⟩
    | cons first more => exact ⟨first, more ++ [name], rfl⟩
  have texts : path.names = (first :: names).map ConstantName.text := by
    rw [← split, List.map_append]
    rfl
  refine ⟨first, names, ConstantPath.eq_of_names ?_ ?_, ?_⟩
  · rw [ConstantPath.names_within, texts]
    rfl
  · rw [ConstantPath.isGlobal_within]
  · unfold ConstantPath.written
    rw [String.toList_append, texts, ConstantName.toList_intercalate]

/-- A path is read as it is written: as a reference if it is one name that no double colon
leads, else as the constant, whose scope splits into the names in front of the last. -/
theorem parse_constantPath (outer : List ConstantName) (name : ConstantName) (isGlobal : Bool)
    (options : Options) (room : 0 < options.maxDepth) :
    let path : ConstantPath := { outer := outer.map ConstantName.text, name := name.text, isGlobal }
    parse path.written options =
        .ok [if outer.isEmpty && !isGlobal then .reference name.text else .constant path] ∧
      path.segments = outer.map ConstantName.text := by
  intro path
  refine ⟨?_, path.segments_of_names outer rfl⟩
  obtain ⟨first, names, whole, written⟩ := within_first outer name isGlobal
  obtain ⟨depth, depth_eq⟩ := Nat.exists_eq_succ_of_ne_zero room.ne'
  obtain ⟨final, program⟩ := Grammar.program_of_spell
    { limit := options.maxDepth, fault := (scan path.written).2 } depth startToken
    (scan_constantPath first names isGlobal written)
  rw [← whole, ← Nat.succ_eq_add_one, ← depth_eq] at program
  have lone : path.isLone = (outer.isEmpty && !isGlobal) := by simp [path, ConstantPath.isLone]
  unfold Grammar.Parser.constantReference at program
  rw [lone] at program
  exact parse_eq_ok_iff.mpr ⟨final, program⟩

/-- Capitals outside of ASCII begin names of constants as well. -/
theorem parse_constantPath_absolute : 0 < Options.maxDepth {} ∧
    parse "::Ab::Ä2_::Ab" =
      .ok [.constant { outer := ["Ab", "Ä2_"], name := "Ab", isGlobal := true }] ∧
    ConstantPath.segments { outer := ["Ab", "Ä2_"], name := "Ab", isGlobal := true } =
      ["Ab", "Ä2_"] :=
  let plain : ConstantName := ⟨"Ab", ⟨by decide, by decide⟩, by decide⟩
  let umlaut : ConstantName := ⟨"Ä2_", ⟨by decide, by decide⟩, by decide⟩
  ⟨by decide, parse_constantPath [plain, umlaut] plain true {} (by decide)⟩

end RubySyntax
