import RubySyntax.Proofs.Grammar.Definition
import RubySyntax.Proofs.Grammar.FirstToken
import RubySyntax.Proofs.Grammar.Standalone
import RubySyntax.Proofs.Lexer.Abreast
import RubySyntax.Proofs.Lexer.Prefixed
import RubySyntax.Proofs.Lexer.Spelling

namespace RubySyntax

open Lexeme (IsVariable)
open Text (byteLength isBlank)
open Token (Kind Spacing)

namespace Grammar

open RubySyntax.Tree (Node)
open Grammar.Parser

variable {scope : Scope} {nest : Nest} {cursor : Cursor} {token bracket next : Token}
  {rest : List Token} {receiver : Node}

def variableKinds : List Kind := [.instanceVariable, .classVariable, .globalVariable]

theorem beginsPlain_of_variable {kind : Kind} (sigil : kind ∈ variableKinds) : BeginsPlain kind := by
  have plain : ∀ kind ∈ variableKinds, ¬ EndsStatement kind ∧ kind ≠ .unknown ∧
      unaryOp? kind = none ∧ kind ≠ .keyword .notKw ∧ kind ≠ .punct .asterisk := by decide
  obtain ⟨begins, known, unsigned, positive, single⟩ := plain kind sigil
  exact ⟨begins, known, unsigned, positive, single⟩

/-- A variable is read by itself. -/
theorem primary_variable (nest : Nest) (scope : Scope) (sigil : token.kind ∈ variableKinds) :
    ∃ node, isVariable node = true ∧ ∀ (next : Token) (rest : List Token), next.kind ≠ .unknown →
      primary nest scope (.ofTokens token (next :: rest)) = .ok (node, .ofTokens next rest) := by
  unfold primary
  obtain here | here | here : token.kind = .instanceVariable ∨ token.kind = .classVariable ∨
      token.kind = .globalVariable := by simpa [variableKinds] using sigil
  · refine ⟨.instanceVariable (withoutSigil '@' token.text), rfl, fun next rest known => ?_⟩
    rw [bind_ok _ (kind_eq _ _), Cursor.token_ofTokens, here]
    exact bind_ok _ (advance_ofTokens known rest)
  · refine ⟨.classVariable (withoutSigil '@' token.text), rfl, fun next rest known => ?_⟩
    rw [bind_ok _ (kind_eq _ _), Cursor.token_ofTokens, here]
    exact bind_ok _ (advance_ofTokens known rest)
  · refine ⟨.globalVariable (String.ofList (token.text.toList.drop 1)), rfl, fun next rest known => ?_⟩
    rw [bind_ok _ (kind_eq _ _), Cursor.token_ofTokens, here]
    exact bind_ok _ (advance_ofTokens known rest)

/-- Behind a variable an index is opened, whatever white space is in front of the bracket. -/
theorem postfixStep_variable (receives : isVariable receiver = true)
    (index : cursor.token.kind = .punct .openBracket) :
    postfixStep nest receiver scope cursor =
      (discard advance >>= fun _ => do
        return some (Node.methodCall receiver "[]" (← closedArguments nest .closeBracket)))
        scope cursor := by
  unfold postfixStep
  rw [bind_ok _ (current_eq _ _)]
  simp only [index, receives, Bool.true_or, if_true]

theorem Blind.chain {α : Type} {step : α → Parser (Option α)} {here : Kind → Prop} {value : α}
    (blind : Blind here (step value)) : Blind here (chain step value) := by
  intro scope token next spacing rest fits
  rw [Parser.chain, Parser.chain, blind scope token next spacing rest fits]
  rfl

theorem postfixStep_blind (receives : isVariable receiver = true) :
    Blind (· = .punct .openBracket) (postfixStep nest receiver) := by
  intro scope token next spacing rest index
  rw [postfixStep_variable receives index, postfixStep_variable receives index]
  exact @Blind.step _ (· = .punct .openBracket) _ scope token next spacing rest index

/-- A receiver with its index is read the same behind a variable. -/
theorem postfixed_spaced (sigil : token.kind ∈ variableKinds)
    (index : bracket.kind = .punct .openBracket) (spacing : Spacing) :
    postfixed nest scope (.ofTokens token ({ bracket with spacing } :: next :: rest)) =
      postfixed nest scope (.ofTokens token (bracket :: next :: rest)) := by
  have known : bracket.kind ≠ .unknown := by
    rw [index]
    nofun
  obtain ⟨node, receives, reads⟩ := primary_variable nest scope sigil
  unfold postfixed
  rw [bind_ok _ (reads _ _ known), bind_ok _ (reads { bracket with spacing } _ known)]
  exact (postfixStep_blind receives).chain scope bracket next spacing rest index

/-- What begins with a variable and an index is read the same. -/
theorem nested_spaced (sigil : token.kind ∈ variableKinds)
    (index : bracket.kind = .punct .openBracket) (spacing : Spacing) (depth : Nat) (level : Level) :
    nested depth level scope (.ofTokens token ({ bracket with spacing } :: next :: rest)) =
      nested depth level scope (.ofTokens token (bracket :: next :: rest)) := by
  cases depth with
  | zero => rfl
  | succ depth =>
    have plain := beginsPlain_of_variable sigil
    obtain ⟨further, same⟩ := BeginsPostfixed.atLevel (nested depth) level
    have begins (bracket : Token) := same scope (.ofTokens token (bracket :: next :: rest))
      plain.unsigned plain.positive
    show atLevel (nested depth) level scope _ = atLevel (nested depth) level scope _
    rw [begins, begins]
    exact bind_alike further (postfixed_spaced sigil index spacing)

theorem programStep_spaced (sigil : token.kind ∈ variableKinds)
    (index : bracket.kind = .punct .openBracket) (spacing : Spacing) (depth : Nat) :
    programStep (nested depth) scope (.ofTokens token ({ bracket with spacing } :: next :: rest)) =
      programStep (nested depth) scope (.ofTokens token (bracket :: next :: rest)) := by
  have plain := beginsPlain_of_variable sigil
  have single (bracket : Token) : eat Token.Punct.asterisk scope
      (.ofTokens token (bracket :: next :: rest)) = .ok (false, _) := eat_other plain.single
  have statement : statement (nested depth) scope
      (.ofTokens token ({ bracket with spacing } :: next :: rest)) =
        statement (nested depth) scope (.ofTokens token (bracket :: next :: rest)) := by
    refine bind_alike _ ?_
    unfold plainStatement
    rw [bind_ok _ (single _), bind_ok _ (single _)]
    exact bind_alike _ (nested_spaced sigil index spacing depth .expression)
  rw [programStep_eq plain.begins, programStep_eq plain.begins]
  exact bind_alike _ statement

/-- A program that begins with a variable and a bracket is the same with other white space
between the two. -/
theorem program_spaced {dummy : Token} {final : Cursor} (sigil : token.kind ∈ variableKinds)
    (index : bracket.kind = .punct .openBracket) (spacing spacing' : Spacing)
    (read : program depth scope (.ofTokens dummy (token :: bracket :: next :: rest)) =
      .ok (nodes, final)) :
    program depth scope (.ofTokens dummy
      ({ token with spacing } :: { bracket with spacing := spacing' } :: next :: rest)) =
        .ok (nodes, final) := by
  have plain := beginsPlain_of_variable sigil
  have known : ({ token with spacing } : Token).kind ≠ .unknown := plain.known
  rw [program_ofTokens plain.known] at read
  rw [program_ofTokens known]
  have going : token.kind ≠ .endOfFile := fun last => plain.begins (.inl last)
  have first := Blind.programStep depth scope token { bracket with spacing := spacing' } spacing
    (next :: rest) going
  exact list_of_step (first.trans (programStep_spaced sigil index spacing' depth)) (Nat.le_refl _) read

theorem program_spaced_iff {dummy : Token} {final : Cursor} (sigil : token.kind ∈ variableKinds)
    (index : bracket.kind = .punct .openBracket) (spacing spacing' : Spacing) :
    program depth scope (.ofTokens dummy
        ({ token with spacing } :: { bracket with spacing := spacing' } :: next :: rest)) =
          .ok (nodes, final) ↔
      program depth scope (.ofTokens dummy (token :: bracket :: next :: rest)) =
        .ok (nodes, final) := by
  refine ⟨fun read => ?_, program_spaced sigil index spacing spacing'⟩
  have sigil' : ({ token with spacing } : Token).kind ∈ variableKinds := sigil
  have index' : ({ bracket with spacing := spacing' } : Token).kind = .punct .openBracket := index
  exact program_spaced sigil' index' token.spacing bracket.spacing read

end Grammar

theorem Lexeme.IsVariable.kind_mem {kind : Kind} {word : List Char} (shape : IsVariable kind word) :
    kind ∈ Grammar.variableKinds := by
  cases shape <;> decide

theorem Lexeme.isVariable_of_read {lexeme : Lexeme} {bodies : Option Pending}
    (found : read context offset pending input = .ok (lexeme, bodies))
    (sigil : lexeme.kind ∈ Grammar.variableKinds) : IsVariable lexeme.kind lexeme.text := by
  have other {kind : Kind} (same : lexeme.kind = kind) (apart : kind ∉ Grammar.variableKinds) :
      IsVariable lexeme.kind lexeme.text := absurd (same ▸ sigil) apart
  cases readAs_of_read found with
  | endOfInput same => exact other (congrArg Lexeme.kind same) (by decide)
  | number _ same => exact other (congrArg Lexeme.kind same) (by simp [number, Grammar.variableKinds])
  | literal kind same _ => exact other same (by simp [Grammar.variableKinds])
  | sigil same => exact isVariable_of_sigilVariable same
  | name _ same =>
    obtain label | word := name_cases context input
    · exact other (congrArg Lexeme.kind (same.trans label)) (by simp [Grammar.variableKinds])
    · refine other (congrArg Lexeme.kind (same.trans word)) ?_
      unfold nameKind
      split
      · simp [Grammar.variableKinds]
      · split <;> simp [Grammar.variableKinds]
  | operator same =>
    obtain kind | ⟨p, kind⟩ := operator_kind same
    · exact other kind (by decide)
    · exact other kind (by simp [Grammar.variableKinds])

namespace Lexer

def openBracket : Lexeme := { kind := .punct .openBracket, body := ['['] }

theorem Stands.openBracket {lexer : Lexer} {front rest : List Char} {last : Option Kind}
    {spacing : Spacing} (stands : lexer.Stands front ('[' :: rest) last spacing)
    (running : last.any Kind.isTerminal = false) :
    ∃ behind, lexer.next = (some (tokenOf front Lexer.openBracket spacing rest), behind) ∧
      behind.Stands (front ++ ['[']) rest (some (.punct .openBracket)) .unspaced := by
  have longest : Token.Punct.read? (Token.Punct.openBracket.spelling.toList ++ rest) =
      some .openBracket := rfl
  exact stands.lexeme running (stops_punct .openBracket rfl)
    (Lexeme.read_mark rfl longest nofun nofun _ _)

/-- A variable and a bracket behind it, whatever blanks are between them. -/
theorem next_index {kind : Kind} {word blanks : List Char} (shape : IsVariable kind word)
    (all : ∀ c ∈ blanks, isBlank c = true) (rest : List Char) :
    ∃ spacing middle behind,
      (ofSource (String.ofList (word ++ (blanks ++ '[' :: rest)))).next =
        (some (tokenOf [] { kind, body := word } .unspaced (blanks ++ '[' :: rest)), middle) ∧
      middle.next = (some (tokenOf (word ++ blanks) openBracket spacing rest), behind) ∧
      behind.Stands (word ++ blanks ++ ['[']) rest (some (.punct .openBracket)) .unspaced := by
  have ends : (blanks ++ '[' :: rest).head?.any Text.isIdentifierPart = false := by
    cases blanks with
    | nil => exact show Text.isIdentifierPart '[' = false by decide
    | cons c more =>
      have blank := Text.isSpace_of_isBlank (all c List.mem_cons_self)
      exact Lexeme.isIdentifierPart_stop (Text.isStop_of_isSpace blank)
  let lexeme : Lexeme := { kind, body := word }
  have chars : lexeme.chars = word := by simp [Lexeme.chars, lexeme]
  have running : (some kind).any Kind.isTerminal = false := by cases shape <;> rfl
  have start := ofSource_stands (String.ofList (lexeme.chars ++ (blanks ++ '[' :: rest)))
  rw [String.toList_ofList] at start
  obtain ⟨middle, read, named⟩ := start.lexeme rfl (by rw [chars]; exact stops_variable shape _)
    (by rw [chars]; exact Lexeme.read_variable shape ends _ _ _)
  rw [chars] at read
  rw [List.nil_append, chars] at named
  cases blanks with
  | nil =>
    obtain ⟨behind, index, stands⟩ := named.openBracket running
    rw [← List.append_nil word] at index stands
    exact ⟨_, middle, behind, read, index, stands⟩
  | cons c more =>
    obtain ⟨here, passed, spaced⟩ := named.blanks (List.cons_ne_nil c more) all running
    obtain ⟨behind, index, stands⟩ := spaced.openBracket running
    exact ⟨_, middle, behind, read, passed.trans index, stands⟩

end Lexer

/-- Behind a variable the tokens are the same but for their places, whatever blanks stand in
front of a bracket. -/
theorem scan_spacedIndex {kind : Kind} {name : List Char} (shape : IsVariable kind name)
    {blanks : List Char} (all : ∀ c ∈ blanks, isBlank c = true) (rest : List Char) :
    ∃ (token bracket next : Token) (tokens : List Token) (spacing spacing' : Spacing)
      (span : Text.Span) (bytes bytes' : Nat),
      (scan (String.ofList (name ++ '[' :: rest))).1 =
        token :: bracket :: (next :: tokens).map (Token.moved bytes) ∧
      (scan (String.ofList (name ++ (blanks ++ '[' :: rest)))).1 =
        { token with spacing } :: { bracket with spacing := spacing', span } ::
          (next :: tokens).map (Token.moved bytes') ∧
      token.kind ∈ Grammar.variableKinds ∧ bracket.kind = .punct .openBracket := by
  have none : ∀ c ∈ ([] : List Char), isBlank c = true := nofun
  obtain ⟨_, middle, behind, read, index, stands⟩ := Lexer.next_index shape none rest
  obtain ⟨_, middle', behind', read', index', stands'⟩ := Lexer.next_index shape all rest
  have abreast : Lexer.Abreast behind behind' :=
    .of_at stands.place stands'.place nofun (stands'.last.trans stands.last.symm)
      (stands'.spacing.trans stands.spacing.symm) stands.pending stands'.pending
  obtain ⟨base, bytes, bytes', near, far, more⟩ := Lexer.scan_of_abreast
    (.more read (.more index .done)) (.more read' (.more index' .done)) abreast
  cases base with
  | nil =>
    have halted := more rfl
    rw [Lexer.halted, stands.last] at halted
    cases halted
  | cons next tokens =>
    exact ⟨_, _, next, tokens, _, _, _, bytes, bytes', near, far, shape.kind_mem, rfl⟩

/-- Every variable of a source is its sigil and its name. -/
theorem isVariable_of_scan (member : token ∈ (scan source).1)
    (sigil : token.kind ∈ Grammar.variableKinds) : IsVariable token.kind token.text.toList := by
  have plain : ∀ kind ∈ Grammar.variableKinds, kind.isMark = false := by decide
  obtain ⟨_, _, _, _, _, _, read, kind, text⟩ := scan_reads member (plain _ sigil)
  rw [text, kind]
  exact Lexeme.isVariable_of_read read (kind ▸ sigil)

/-- A source that begins with a variable and an index has the program that it has with blanks
between the two, whatever else is in it. -/
theorem parse_spacedIndex {kind : Kind} (name blanks rest : String) (options : Options)
    (shape : IsVariable kind name.toList) (blank : blanks.toList.all isBlank = true)
    (program : Tree.Program) :
    parse (name ++ blanks ++ "[" ++ rest) options = .ok program ↔
      parse (name ++ "[" ++ rest) options = .ok program := by
  have glued : name ++ "[" ++ rest = String.ofList (name.toList ++ '[' :: rest.toList) := by
    rw [← String.toList_inj, String.toList_ofList]
    simp
  have spaced : name ++ blanks ++ "[" ++ rest =
      String.ofList (name.toList ++ (blanks.toList ++ '[' :: rest.toList)) := by
    rw [← String.toList_inj, String.toList_ofList]
    simp
  obtain ⟨token, bracket, next, tokens, spacing, spacing', span, bytes, bytes', near, far, sigil,
    index⟩ := scan_spacedIndex shape (List.all_eq_true.mp blank) rest.toList
  rw [glued, spaced, parse_eq_ok_iff, parse_eq_ok_iff, near, far]
  have like : (Grammar.Cursor.ofTokens startToken ({ token with spacing } ::
      { bracket with spacing := spacing' } :: (next :: tokens).map (Token.moved bytes))).Like
        (.ofTokens startToken ({ token with spacing } :: { bracket with spacing := spacing', span } ::
          (next :: tokens).map (Token.moved bytes'))) :=
    .of_like startToken startToken.span
      (.cons ⟨token.span, rfl⟩ (.cons ⟨span, rfl⟩ (Grammar.likes_of_moved _ bytes bytes')))
  refine (Grammar.program_iff_of_like like ?_).symm.trans
    (exists_congr fun final => Grammar.program_spaced_iff sigil index spacing spacing')
  rfl

/-- The index of a variable of an instance behind a blank and a tab, and an assignment to it. -/
theorem parse_spacedIndex_instance :
    IsVariable .instanceVariable "@table".toList ∧ " \t".toList.all isBlank = true ∧
      ∀ program, parse ("@table" ++ " \t" ++ "[" ++ "key] ||= 1") = .ok program ↔
        parse ("@table" ++ "[" ++ "key] ||= 1") = .ok program := by
  have shape : IsVariable .instanceVariable "@table".toList :=
    .ofInstance ⟨by decide, by decide⟩
  exact ⟨shape, by decide, parse_spacedIndex "@table" " \t" "key] ||= 1" {} shape (by decide)⟩

end RubySyntax
