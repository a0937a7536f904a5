import RubySyntax.Proofs.Grammar.Command
import RubySyntax.Proofs.Grammar.Surroundings
import RubySyntax.Proofs.Lexer.Prefixed

/-! Definitions of methods as arguments of commands. Such a definition is read as it
is read by itself where no `do` opens a block outside of brackets: the arguments of a
command take every other `do` for the command, those in the body of a definition
included. -/
namespace RubySyntax

open RubySyntax.Tree (Node)
open Diagnostic (ParseError)
open Text (byteLength)

namespace Grammar

open Grammar.Parser

def isMethod : Node → Bool
  | .method .. => true
  | _ => false

theorem isPlain_of_isMethod {node : Node} (definition : isMethod node = true) :
    isPlain node = true := by
  cases node with
  | method => rfl
  | _ => cases definition

variable {node : Node} {scope : Scope} {dummy first other next : Token} {rest : List Token}

/-- Nothing is left of a token that is passed over. -/
theorem discard_advance_ofTokens (scope : Scope) (first other next : Token) (rest : List Token) :
    Functor.discard advance scope (.ofTokens first (next :: rest)) =
      Functor.discard advance scope (.ofTokens other (next :: rest)) := by
  have discard (token : Token) : Functor.discard advance scope (.ofTokens token (next :: rest)) =
      (advance scope (.ofTokens token (next :: rest))).map fun read => ((), read.2) := rfl
  rw [discard, discard, advance_some (Cursor.next?_ofTokens first next rest),
    advance_some (Cursor.next?_ofTokens other next rest)]
  split
  · rfl
  · rfl

/-- A definition begins with its keyword, whatever stands around the keyword. -/
theorem primary_definition (nest : Nest) (definition : first.IsDef) (again : other.IsDef) :
    primary nest scope (.ofTokens first (next :: rest)) =
      primary nest scope (.ofTokens other (next :: rest)) := by
  have method (token : Token) (keyword : token.IsDef) :
      primary nest scope (.ofTokens token (next :: rest)) =
        method nest scope (.ofTokens token (next :: rest)) := by
    unfold primary
    rw [bind_ok _ (kind_eq _ _), Cursor.token_ofTokens, keyword]
    rfl
  rw [method first definition, method other again]
  have passed := discard_advance_ofTokens scope first other next rest
  unfold Parser.method
  show Except.bind (Functor.discard advance scope (.ofTokens first (next :: rest))) _ = _
  rw [passed]
  rfl

theorem beginsPlain_of_isDef (definition : first.IsDef) : BeginsPlain first.kind := by
  rw [definition]
  exact ⟨by decide, by decide, rfl, by decide, by decide⟩

theorem program_definition (plain : isPlain node = true) (definition : first.IsDef)
    (again : other.IsDef) :
    (∃ final, program depth scope (.ofTokens dummy (first :: next :: rest)) = .ok ([node], final)) ↔
      ∃ final, program depth scope (.ofTokens dummy (other :: next :: rest)) =
        .ok ([node], final) := by
  cases depth with
  | zero =>
    rw [program_iff plain (beginsPlain_of_isDef definition),
      program_iff plain (beginsPlain_of_isDef again)]
    constructor
    · rintro ⟨_, absurd, _⟩
      cases absurd
    · rintro ⟨_, absurd, _⟩
      cases absurd
  | succ depth =>
    rw [program_succ_iff plain (beginsPlain_of_isDef definition),
      program_succ_iff plain (beginsPlain_of_isDef again),
      primary_definition (nested depth) definition again]

theorem likes_moved (tokens : List Token) (bytes : Nat) :
    List.Forall₂ Token.Like tokens (tokens.map (Token.moved bytes)) :=
  List.forall₂_map_right_iff.mpr
    (List.forall₂_same.mpr fun token _ => ⟨token.span.moved bytes, rfl⟩)

/-- The same tokens, further on by two amounts. -/
theorem likes_of_moved (tokens : List Token) (bytes bytes' : Nat) :
    List.Forall₂ Token.Like (tokens.map (Token.moved bytes)) (tokens.map (Token.moved bytes')) := by
  rw [List.forall₂_map_left_iff, List.forall₂_map_right_iff]
  exact List.forall₂_same.mpr fun token _ => ⟨token.span.moved bytes', rfl⟩

theorem like_moved (token first : Token) (rest : List Token) (bytes : Nat) :
    (Cursor.ofTokens token (first :: rest)).Like
      (.ofTokens token (first :: rest.map (Token.moved bytes))) :=
  .of_like token token.span (.cons ⟨first.span, rfl⟩ (likes_moved rest bytes))

theorem beginsArgument_of_isDef (definition : first.IsDef)
    (blank : first.spacing.blankBefore = true) : BeginsArgument first := by
  refine ⟨?_, beginsPlain_of_isDef definition, ?_, ?_⟩
  · rw [startsCommandArgument, blank, definition]
    rfl
  · rw [definition]
    decide
  · rw [definition]
    decide

end Grammar

/-- What stands in front of the first token. -/
def startToken : Token := { kind := .endOfFile, text := "", span := .emptyAt 0 }

/-- The program of a source in which every `do` outside of brackets belongs to an
enclosing command. -/
def parseWithoutDo (source : String) (maxDepth : Nat) : Except ParseError Tree.Program :=
  (Grammar.Parser.program maxDepth { limit := maxDepth, fault := (scan source).2, noDo := true }
    (.ofTokens startToken (scan source).1)).map Prod.fst

open Grammar (Scope Cursor)

theorem map_fst_eq_ok_iff {result : Except ParseError (Tree.Program × Cursor)} :
    result.map Prod.fst = .ok program ↔ ∃ final, result = .ok (program, final) := by
  cases result with
  | error error => exact ⟨nofun, fun ⟨_, absurd⟩ => nomatch absurd⟩
  | ok read =>
    constructor
    · intro same
      cases same
      exact ⟨read.2, rfl⟩
    · rintro ⟨final, same⟩
      cases same
      rfl

/-- A reading is that of the program of the tokens; what it fails with is told in the file. -/
theorem parse_eq (source : String) (options : Options) :
    parse source options =
      ((Grammar.Parser.program options.maxDepth
        { limit := options.maxDepth, fault := (scan source).2 }
        (.ofTokens startToken (scan source).1)).map Prod.fst).mapError fun error =>
          error.inFile options.fileName (.ofSource source) := rfl

theorem parse_eq_ok_iff {source fileName : String} {maxDepth : Nat} :
    parse source { fileName, maxDepth } = .ok program ↔
      ∃ final, Grammar.Parser.program maxDepth { limit := maxDepth, fault := (scan source).2 }
        (.ofTokens startToken (scan source).1) = .ok (program, final) := by
  rw [← map_fst_eq_ok_iff, parse_eq]
  cases Except.map Prod.fst _ with
  | error error => exact ⟨nofun, nofun⟩
  | ok program => exact Iff.rfl

theorem parse_of_refused {source : String} {options : Options} {error : ParseError}
    (failed : Grammar.Parser.program options.maxDepth
      { limit := options.maxDepth, fault := (scan source).2 }
      (.ofTokens startToken (scan source).1) = .error error) :
    parse source options = .error (error.inFile options.fileName (.ofSource source)) := by
  rw [parse_eq, failed]
  rfl

section primary

variable {source : String} {options : Options} {token : Token} {rest : List Token}

/-- A source is one primary expression, if that is read from its tokens up to their end. -/
theorem parse_of_primary {node : Node} {final : Cursor} (room : 0 < options.maxDepth)
    (scanned : (scan source).1 = token :: rest) (begins : Grammar.BeginsPlain token.kind)
    (read : ∀ nest scope, Grammar.Parser.primary nest scope (.ofTokens token rest) =
      .ok (node, final))
    (ended : final.token.kind = .endOfFile) : parse source options = .ok [node] := by
  obtain ⟨depth, same⟩ := Nat.exists_eq_succ_of_ne_zero room.ne'
  let scope : Scope := { limit := options.maxDepth, fault := (scan source).2 }
  have expression := Grammar.expression_of_primary (ended ▸ .endOfFile) begins
    (read (Grammar.Parser.nested depth) scope)
  have whole : Grammar.Parser.program options.maxDepth scope
      (.ofTokens startToken (scan source).1) = .ok ([node], final) := by
    rw [scanned, same]
    exact Grammar.program_of_expression begins.beginsStatement ended expression
  exact parse_eq_ok_iff.mpr ⟨final, whole⟩

/-- A source that begins with a primary expression that cannot be read is no program. -/
theorem parse_of_primaryRefused (room : 0 < options.maxDepth)
    (scanned : (scan source).1 = token :: rest) (begins : Grammar.BeginsPlain token.kind)
    (refused : ∀ nest scope, ∃ error,
      Grammar.Parser.primary nest scope (.ofTokens token rest) = .error error) :
    ∃ error, parse source options = .error error := by
  obtain ⟨depth, same⟩ := Nat.exists_eq_succ_of_ne_zero room.ne'
  let scope : Scope := { limit := options.maxDepth, fault := (scan source).2 }
  obtain ⟨error, refused⟩ := refused (Grammar.Parser.nested depth) scope
  have expression := Grammar.atLevel_of_refused begins.unsigned begins.positive refused .expression
  have failed : Grammar.Parser.program options.maxDepth scope
      (.ofTokens startToken (scan source).1) = .error error := by
    rw [scanned, same]
    exact Grammar.program_of_refused begins.beginsStatement expression
  exact ⟨_, parse_of_refused failed⟩

end primary

/-- A definition behind the name of a command is its argument exactly where it is read
by itself without the `do`s outside of brackets. -/
theorem program_behind {word source : String} {rest : List Token} {name first first' : Token}
    (scans : ScansBehind word source first rest name first') (command : Grammar.IsCommandName name)
    {definition : Node} (method : Grammar.isMethod definition = true)
    (withheld : scope'.noDo = true) :
    (∃ final, Grammar.Parser.program (depth + 1) scope
        (.ofTokens startToken (scan (word ++ " " ++ source)).1) =
          .ok ([.functionCall word [definition]], final)) ↔
      ∃ final, Grammar.Parser.program depth scope'
        (.ofTokens startToken (scan source).1) = .ok ([definition], final) := by
  have plain := Grammar.isPlain_of_isMethod method
  have begins := Grammar.beginsArgument_of_isDef scans.again scans.blank
  have more := scans.more
  rw [scans.alone, scans.behind, ← scans.text, Grammar.program_command_iff command plain begins]
  cases rest with
  | nil => exact absurd rfl more
  | cons next rest =>
    rw [Grammar.program_definition plain scans.keyword scans.again]
    have like := Grammar.like_moved startToken first' (next :: rest)
    exact (Grammar.program_iff_of_like (like _) withheld.symm).symm

/-- A definition as the argument of `private` is read as it is read by itself where no
`do` opens a block outside of brackets, and as it is read by itself anywhere if no
`do` is in it. -/
theorem parse_private {source : String} (begins : BeginsWithDef source)
    {definition : Node} (method : Grammar.isMethod definition = true) (fileName : String)
    (maxDepth : Nat) :
    (parse ("private " ++ source) { fileName, maxDepth := maxDepth + 1 } =
        .ok [.functionCall "private" [definition]] ↔
      parseWithoutDo source maxDepth = .ok [definition]) ∧
    ((∀ token ∈ (scan source).1, token.kind ≠ .keyword .doKw) →
      parse source { fileName, maxDepth } = .ok [definition] →
      parse ("private " ++ source) { fileName, maxDepth := maxDepth + 1 } =
        .ok [.functionCall "private" [definition]]) := by
  obtain ⟨first, rest, name, first', scans⟩ := scan_behind begins
    (show "private".toList ⊆ Lexeme.smallLetters by decide) (by decide) (by decide)
  have command : Grammar.IsCommandName name :=
    ⟨scans.kind, by rw [scans.text]; decide, by rw [scans.text]; decide⟩
  have written : "private " ++ source = "private" ++ " " ++ source := rfl
  have argument : parse ("private " ++ source) { fileName, maxDepth := maxDepth + 1 } =
        .ok [.functionCall "private" [definition]] ↔
      parseWithoutDo source maxDepth = .ok [definition] := by
    rw [parse_eq_ok_iff, parseWithoutDo, map_fst_eq_ok_iff, written]
    exact program_behind scans command method rfl
  refine ⟨argument, fun without alone => argument.mpr ?_⟩
  obtain ⟨final, read⟩ := parse_eq_ok_iff.mp alone
  have without : (Cursor.ofTokens startToken (scan source).1).WithoutDo :=
    List.forall_mem_cons.mpr ⟨show startToken.kind ≠ _ by decide, without⟩
  exact map_fst_eq_ok_iff.mpr (Grammar.program_of_withoutDo without read _)

private theorem empty_matches :
    (parse "def f\nend" { maxDepth := 255 } matches .ok [.method none "f" [] [] []]) := by
  decide +kernel

theorem parse_private_empty :
    BeginsWithDef "def f\nend" ∧ Grammar.isMethod (.method none "f" [] [] []) = true ∧
      parse ("private " ++ "def f\nend") =
        .ok [.functionCall "private" [.method none "f" [] [] []]] := by
  have begins : BeginsWithDef "def f\nend" := ⟨" f\nend".toList, by decide, Lexeme.endsName_blank _⟩
  have without : ∀ token ∈ (scan "def f\nend").1, token.kind ≠ .keyword .doKw := by decide +kernel
  have alone : parse "def f\nend" { maxDepth := 255 } = .ok [.method none "f" [] [] []] := by
    have found := empty_matches
    split at found
    · assumption
    · cases found
  exact ⟨begins, rfl, (parse_private begins rfl "<input>" 255).2 without alone⟩

private theorem block_matches :
    (parse "def f\n  foo do\n  end\nend" { maxDepth := 255 } matches
      .ok [.method none "f" [] [.call none "foo" [] (some ⟨[], []⟩)] []]) := by
  decide +kernel

/-- With a block between `do` and `end` in its body a definition is read by itself,
but not as an argument. -/
theorem not_parse_private_of_block :
    let source := "def f\n  foo do\n  end\nend"
    let definition : Node := .method none "f" [] [.call none "foo" [] (some ⟨[], []⟩)] []
    BeginsWithDef source ∧ parse source { maxDepth := 255 } = .ok [definition] ∧
      parse ("private " ++ source) ≠ .ok [.functionCall "private" [definition]] := by
  intro source definition
  refine ⟨⟨" f\n  foo do\n  end\nend".toList, by decide, Lexeme.endsName_blank _⟩, ?_, ?_⟩
  · have found := block_matches
    split at found
    · assumption
    · cases found
  · have failed : (parse ("private " ++ source)).isOk = false := by decide +kernel
    intro read
    rw [read] at failed
    cases failed

end RubySyntax
