import RubySyntax.Proofs.Grammar.FirstToken

namespace RubySyntax

open RubySyntax.Tree (Node)
open Text (byteLength)
open Token (Kind Spacing)

namespace Grammar

open Grammar.Parser

/-- A program in front of another one that a separator ends in any case. -/
def Seam.atSeparator (separator last : Token) (more : List Token)
    (separates : separator.kind.isSeparator = true) (ends : last.kind = .endOfFile) : Seam where
  last := separator
  rest := [last]
  first := separator
  more := more
  ends := by
    intro token member
    rcases List.mem_cons.mp member with rfl | member
    · exact .inr separates
    · exact .inl (List.mem_singleton.mp member ▸ ends)
  separates := separates
  alike := .inl rfl

/-- A program in front of another one, with a line break in between. -/
def Seam.atLineBreak (newLine last : Token) (more : List Token) (breaks : newLine.kind = .newLine)
    (ends : last.kind = .endOfFile) : Seam where
  last := last
  rest := []
  first := newLine
  more := more
  ends := by
    intro token member
    exact .inl (List.mem_singleton.mp member ▸ ends)
  separates := by
    rw [breaks]
    rfl
  alike := .inr ⟨ends, breaks⟩

variable {scope : Scope} {dummy first last : Token} {front behind rest : List Token}
  {final stop : Cursor} {nodes others : Tree.Program}

/-- The program of the tokens in front of a seam, and of those behind it. -/
theorem Seam.program (seam : Seam) (running : ∀ token ∈ front, token.isTerminal = false)
    (follows : seam.more = first :: behind) (known : first.kind ≠ .unknown)
    (done : program depth scope (.ofTokens dummy (front ++ seam.last :: seam.rest)) =
      .ok (nodes, final))
    (more : statements (nested depth) [] scope (.ofTokens first behind) = .ok (others, stop)) :
    ∃ stop, program depth scope (.ofTokens dummy (front ++ seam.first :: seam.more)) =
      .ok (nodes ++ others, stop) := by
  have alike : seam.Needs Anywhere (statement (nested depth)) :=
    seam.discipline.statement (seam.discipline.nested depth)
  have moves : Moves (statement (nested depth)) :=
    @Congruence.statement _ Moves.laws (nested depth) (nested depth) (nested_moves depth)
  have joined {cursor other : Cursor} (cut : seam.Cut cursor other)
      (read : statements (nested depth) [] scope cursor = .ok (nodes, final)) :
      statements (nested depth) [] scope other = .ok (nodes ++ others, stop) :=
    cut.statements follows known alike moves read more
  cases front with
  | nil =>
    have outside : ¬ EndsStatement .unknown := by decide
    rw [List.nil_append, program_ofTokens (seam.last_ends.ne outside)] at done
    rw [List.nil_append, program_ofTokens (seam.first_ends.ne outside)]
    exact ⟨stop, joined ⟨[], running, rfl, rfl⟩ done⟩
  | cons token front =>
    have known := Lexer.known_of_running (running token List.mem_cons_self)
    rw [List.cons_append, program_ofTokens known] at done
    rw [List.cons_append, program_ofTokens known]
    exact ⟨stop, joined ⟨token :: front, running, rfl, rfl⟩ done⟩

/-- A program has the same statements further on and behind other white space. -/
theorem statements_of_program (known : first.kind ≠ .unknown)
    (bounded : rest = [] → first.kind = .endOfFile) (bytes : Nat) (spacing : Spacing)
    (done : program depth scope (.ofTokens dummy (first :: rest)) = .ok (nodes, final)) :
    ∃ stop, statements (nested depth) [] scope (.ofTokens { first.moved bytes with spacing }
      (rest.map (Token.moved bytes))) = .ok (nodes, stop) := by
  have like : (Cursor.ofTokens dummy (first :: rest)).Like
      (.ofTokens dummy (first.moved bytes :: rest.map (Token.moved bytes))) :=
    .of_like dummy dummy.span (likes_moved (first :: rest) bytes)
  obtain ⟨stop, more⟩ := (program_iff_of_like like (Eq.refl scope.noDo)).mp ⟨final, done⟩
  rw [program_ofTokens (show (first.moved bytes).kind ≠ _ from known)] at more
  have bounded' (empty : rest.map (Token.moved bytes) = []) :
      (first.moved bytes).kind = .endOfFile := bounded (List.map_eq_nil_iff.mp empty)
  exact statements_respaced bounded' more spacing

/-- The program of a list of tokens in front of that of another one. A line break stands
between the lists unless a separator ends the first one, or nothing is in it. -/
theorem program_joined {breaks : List Token}
    (running : ∀ token ∈ front, token.isTerminal = false) (ends : last.kind = .endOfFile)
    (known : first.kind ≠ .unknown)
    (between : breaks = [] ∧ Lexeme.startsAfresh (front.getLast?.map Token.kind) = true ∨
      ∃ token, breaks = [token] ∧ token.kind = .newLine)
    (done : program depth scope (.ofTokens dummy (front ++ [last])) = .ok (nodes, final))
    (more : statements (nested depth) [] scope (.ofTokens first rest) = .ok (others, stop)) :
    ∃ stop, program depth scope (.ofTokens dummy (front ++ breaks ++ first :: rest)) =
      .ok (nodes ++ others, stop) := by
  obtain ⟨rfl, afresh⟩ | ⟨newLine, rfl, feed⟩ := between
  · rw [List.append_nil]
    rcases List.eq_nil_or_concat front with rfl | ⟨before, separator, rfl⟩
    · rw [List.nil_append, program_ofTokens (by rw [ends]; decide), statements_ended ends] at done
      cases done
      exact ⟨stop, (program_ofTokens known).trans more⟩
    · rw [List.concat_eq_append] at running done afresh ⊢
      rw [List.append_assoc] at done ⊢
      rw [List.getLast?_concat] at afresh
      exact (Seam.atSeparator separator last (first :: rest) afresh ends).program
        (List.forall_mem_append.mp running).1 rfl known done more
  · rw [List.append_assoc]
    exact (Seam.atLineBreak newLine last (first :: rest) feed ends).program running rfl known done more

end Grammar

/-- The first line of a source that has a program does not begin with a dot. -/
theorem leadingDotFollows_of_parse {source : String} {options : Options}
    (read : parse source options = .ok nodes) :
    Lexer.leadingDotFollows source.toList = false := by
  refine Bool.eq_false_iff.mpr fun follows => ?_
  obtain ⟨first, behind, p, next, here, dots⟩ :=
    Lexer.next_leadingDot (show (Lexer.ofSource source).halted = false from rfl) follows
  have known : first.kind ≠ .unknown := by
    rw [here]
    exact nofun
  obtain ⟨final, run, halted⟩ := Lexer.run_of_scan (Eq.refl (scan source).1)
  obtain ⟨_, read⟩ := parse_eq_ok_iff.mp read
  generalize (scan source).1 = tokens at run read
  cases run with
  | done => cases halted
  | more again _ =>
    cases next.symm.trans again
    rw [Grammar.program_ofTokens known] at read
    exact Grammar.statements_dots here dots read

/-- The tokens of a source that has a program, from the first one on. -/
theorem scan_cons_of_parse {source : String} {options : Options}
    (read : parse source options = .ok nodes) :
    ∃ first rest, (scan source).1 = first :: rest ∧
      (∀ token ∈ first :: rest, token.kind ≠ .unknown) ∧ (rest = [] → first.kind = .endOfFile) := by
  obtain ⟨front, last, tokens, running, ends, _⟩ := scan_of_parse read
  have known (token : Token) (member : token ∈ front ++ [last]) : token.kind ≠ .unknown := by
    rcases List.mem_append.mp member with inside | here
    · exact Lexer.known_of_running (running token inside)
    · rw [List.mem_singleton.mp here, ends]
      exact nofun
  cases front with
  | nil => exact ⟨last, [], tokens, known, fun _ => ends⟩
  | cons first front => exact ⟨first, front ++ [last], tokens, known, fun empty => by simp at empty⟩

/-- Where the tokens of a source are those of a program and, behind a line break or a
separator, those of another source further on, it has both programs behind each other. -/
theorem parse_of_joined {source more : String} {options : Options} {nodes others : Tree.Program}
    {front breaks rest : List Token} {last begins : Token} {bytes : Nat} {spacing : Spacing}
    {final : Grammar.Cursor} (second : parse more options = .ok others)
    (scanned : (scan more).1 = begins :: rest)
    (joined : (scan source).1 = front ++ breaks ++
      { begins.moved bytes with spacing } :: rest.map (Token.moved bytes))
    (running : ∀ token ∈ front, token.isTerminal = false) (ends : last.kind = .endOfFile)
    (between : breaks = [] ∧ Lexeme.startsAfresh (front.getLast?.map Token.kind) = true ∨
      ∃ token, breaks = [token] ∧ token.kind = .newLine)
    (first : Grammar.Parser.program options.maxDepth { limit := options.maxDepth, fault := none }
      (.ofTokens startToken (front ++ [last])) = .ok (nodes, final)) :
    parse source options = .ok (nodes ++ others) := by
  obtain ⟨_, _, _, _, _, noFault⟩ := scan_of_parse second
  obtain ⟨_, _, same, known, bounded⟩ := scan_cons_of_parse second
  obtain ⟨rfl, rfl⟩ := List.cons.inj (same.symm.trans scanned)
  obtain ⟨here, later⟩ := List.forall_mem_cons.mp known
  have faultless : (scan source).2 = none := by
    refine fault_of_known ?_
    rw [joined, List.forall_mem_append, List.forall_mem_append, List.forall_mem_cons,
      List.forall_mem_map]
    refine ⟨⟨fun token inside => Lexer.known_of_running (running token inside), ?_⟩, here, later⟩
    rintro token member
    obtain ⟨rfl, _⟩ | ⟨newLine, rfl, feed⟩ := between
    · cases member
    · rw [List.mem_singleton.mp member, feed]
      exact nofun
  obtain ⟨_, second⟩ := parse_eq_ok_iff.mp second
  rw [scanned, noFault] at second
  obtain ⟨_, second⟩ := Grammar.statements_of_program here bounded bytes spacing second
  refine parse_eq_ok_iff.mpr ?_
  rw [joined, faultless]
  exact Grammar.program_joined running ends here between first second

/-- Programs compose line by line: behind a source whose lines are closed another one has
the program that it has by itself. -/
theorem parse_lineByLine {a b : String} {options : Options} {nodes others : Tree.Program}
    (closes : ClosesLines a) (first : parse a options = .ok nodes)
    (second : parse b options = .ok others) :
    parse (a ++ "\n" ++ b) options = .ok (nodes ++ others) := by
  obtain ⟨front, last, tokens, running, ends, noFault⟩ := scan_of_parse first
  obtain ⟨begins, rest, tokens', _, _⟩ := scan_cons_of_parse second
  obtain ⟨breaks, spacing, joined, between⟩ :=
    scan_joined closes tokens running ends tokens' (leadingDotFollows_of_parse second)
  obtain ⟨_, first⟩ := parse_eq_ok_iff.mp first
  rw [tokens, noFault] at first
  exact parse_of_joined second tokens' joined running ends between first

private theorem lines_match :
    (parse "p 1 # one" matches .ok [.call none "p" [.integer 1] none]) ∧
      (parse "q [2,\n  3]" matches .ok [.call none "q" [.array [.integer 2, .integer 3]] none]) := by
  decide +kernel

/-- A call with a comment behind it, and one with an array over two lines. -/
theorem parse_lineByLine_calls :
    ClosesLines "p 1 # one" ∧ parse "p 1 # one" = .ok [.call none "p" [.integer 1] none] ∧
      parse "q [2,\n  3]" = .ok [.call none "q" [.array [.integer 2, .integer 3]] none] ∧
      parse ("p 1 # one" ++ "\n" ++ "q [2,\n  3]") =
        .ok ([.call none "p" [.integer 1] none] ++
          [.call none "q" [.array [.integer 2, .integer 3]] none]) := by
  have closes : ClosesLines "p 1 # one" :=
    ⟨by decide +kernel, not_continuesLine (by decide), by decide⟩
  have first : parse "p 1 # one" = .ok [.call none "p" [.integer 1] none] := by
    have found := lines_match.1
    split at found
    · assumption
    · cases found
  have second : parse "q [2,\n  3]" =
      .ok [.call none "q" [.array [.integer 2, .integer 3]] none] := by
    have found := lines_match.2
    split at found
    · assumption
    · cases found
  exact ⟨closes, first, second, parse_lineByLine closes first second⟩

end RubySyntax
