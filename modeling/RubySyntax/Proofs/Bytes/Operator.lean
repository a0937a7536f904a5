import RubySyntax.Proofs.Bytes.Recognise
import RubySyntax.Proofs.Lexeme.Operator

/-! Operators, read by steps of the cursor. Characters are accepted one by one, and what
is read is the longest operator at the front of the input. -/
namespace RubySyntax

open Token (Punct)

namespace Bytes

/-- Which operator is read, by the characters that follow. -/
inductive Choice
  | done (p : Punct)
  | accept (c : Char) (yes no : Choice)

namespace Choice

open Scan

def run : Choice → Scan Punct
  | done p => pure p
  | accept c yes no => do if ← Scan.accept [c] then yes.run else no.run

/-- An operator that may be followed by an equals sign. -/
def assignable (plain assigned : Punct) : Choice := .accept '=' (.done assigned) (.done plain)

/-- What an operator goes on with, by its first character. -/
def of? : Char → Option Choice
  | '(' => some (.done .openParen)
  | ')' => some (.done .closeParen)
  | '[' => some (.done .openBracket)
  | ']' => some (.done .closeBracket)
  | '{' => some (.done .openBrace)
  | '}' => some (.done .closeBrace)
  | ',' => some (.done .comma)
  | '~' => some (.done .tilde)
  | '?' => some (.done .question)
  | ':' => some (.accept ':' (.done .scope) (.done .colon))
  | '.' => some (.accept '.' (.accept '.' (.done .exclusiveRange) (.done .range)) (.done .dot))
  | '=' =>
    some (.accept '=' (assignable .equal .caseEqual)
      (.accept '~' (.done .matching) (.accept '>' (.done .hashArrow) (.done .assign))))
  | '!' => some (.accept '=' (.done .notEqual) (.accept '~' (.done .notMatching) (.done .bang)))
  | '<' =>
    some (.accept '=' (.accept '>' (.done .compare) (.done .lessEqual))
      (.accept '<' (assignable .shiftLeft .shiftLeftAssign) (.done .less)))
  | '>' =>
    some (.accept '=' (.done .greaterEqual)
      (.accept '>' (assignable .shiftRight .shiftRightAssign) (.done .greater)))
  | '+' => some (assignable .plus .plusAssign)
  | '-' => some (.accept '=' (.done .minusAssign) (.accept '>' (.done .lambdaArrow) (.done .minus)))
  | '*' => some (.accept '*' (assignable .power .powerAssign) (assignable .asterisk .timesAssign))
  | '/' => some (assignable .slash .divideAssign)
  | '%' => some (assignable .percent .moduloAssign)
  | '&' =>
    some (.accept '&' (assignable .andAnd .andAssign)
      (.accept '=' (.done .ampersandAssign) (.accept '.' (.done .safeDot) (.done .ampersand))))
  | '|' => some (.accept '|' (assignable .orOr .orAssign) (assignable .bar .barAssign))
  | '^' => some (assignable .caret .caretAssign)
  | _ => none

/-- Behind `read`, where none of the characters in `refused` follows, the choice ends with
the longest operator. -/
def Complete (read refused : List Char) : Choice → Bool
  | done p => p.spelling.toList == read &&
      Punct.all.all fun q => !read.isPrefixOf q.spelling.toList || q == p ||
        (q.spelling.toList[read.length]?).any refused.contains
  | accept c yes no => yes.Complete (read ++ [c]) [] && no.Complete read (c :: refused)

/-- Every operator begins with a character that begins a choice. -/
theorem of?_isSome (p : Punct) : (p.spelling.toList.head?.bind of?).isSome = true := by
  have known : ∀ p ∈ Punct.all, (p.spelling.toList.head?.bind of?).isSome = true := by
    decide +kernel
  exact known p p.mem_all

theorem complete_of? {choice : Choice} (found : of? c = some choice) :
    choice.Complete [c] [] = true := by
  unfold of? at found
  split at found
  all_goals first | cases found; decide +kernel | cases found

/-- An operator that goes on behind what is read goes on with the next character. -/
theorem longest_of_complete {p q : Punct} {read refused ahead : List Char}
    (complete : (Choice.done p).Complete read refused = true)
    (free : ∀ c ∈ ahead.head?, c ∉ refused) (front : q.spelling.toList <+: read ++ ahead) :
    q.spelling.toList.length ≤ p.spelling.toList.length := by
  obtain ⟨spelled, others⟩ := Bool.and_eq_true_iff.mp complete
  rw [eq_of_beq spelled]
  by_contra longer
  obtain ⟨more, goes⟩ : read <+: q.spelling.toList :=
    List.prefix_of_prefix_length_le (List.prefix_append _ _) front (by omega)
  cases more with
  | nil =>
    rw [List.append_nil] at goes
    exact longer (by rw [goes])
  | cons c more =>
    rw [← goes] at front
    obtain ⟨rest, split⟩ := (List.prefix_append_right_inj read).mp front
    have other : q ≠ p := by
      rintro rfl
      exact longer (by rw [eq_of_beq spelled])
    have next : q.spelling.toList[read.length]? = some c := by
      rw [← goes]
      simp
    have refuses := List.all_eq_true.mp others q q.mem_all
    rw [List.isPrefixOf_iff_prefix.mpr ⟨_, goes⟩, beq_false_of_ne other, next] at refuses
    exact free c (by simp [← split]) (by simpa using refuses)

theorem run_longest (choice : Choice) {read refused : List Char} (ahead : List Char)
    (complete : choice.Complete read refused = true) (free : ∀ c ∈ ahead.head?, c ∉ refused) :
    ∃ p rest, Consumes choice.run ahead p rest ∧ read ++ ahead = p.spelling.toList ++ rest ∧
      ∀ q : Punct, q.spelling.toList <+: read ++ ahead →
        q.spelling.toList.length ≤ p.spelling.toList.length := by
  induction choice generalizing read refused ahead with
  | done p =>
    obtain ⟨spelled, _⟩ := Bool.and_eq_true_iff.mp complete
    exact ⟨p, ahead, .pure _ _, by rw [eq_of_beq spelled],
      fun q front => longest_of_complete complete free front⟩
  | accept c yes no ihYes ihNo =>
    obtain ⟨fits, others⟩ := Bool.and_eq_true_iff.mp complete
    by_cases wanted : ahead.head? = some c
    · obtain ⟨rest, rfl⟩ := List.head?_eq_some_iff.mp wanted
      obtain ⟨p, rest', reads, spelled, longest⟩ := ihYes rest fits (by simp)
      rw [List.append_assoc] at spelled longest
      exact ⟨p, rest', (Consumes.accept (by simp) rest).bind reads, spelled, longest⟩
    · have refuses : ahead.head?.any [c].contains = false := by
        cases ahead with
        | nil => rfl
        | cons d rest => simpa [eq_comm] using wanted
      obtain ⟨p, rest', reads, found⟩ := ihNo ahead others fun d here => by
        rw [List.mem_cons, not_or]
        refine ⟨?_, free d here⟩
        rintro rfl
        exact wanted here
      exact ⟨p, rest', (Consumes.accept_not refuses).bind reads, found⟩

end Choice

namespace Scan

def operator : Scan Emitted := do
  match ← next with
  | none => emitted .endOfFile
  | some c =>
    if c = ';' then emitted .semicolon
    else
      match Choice.of? c with
      | some choice => emitted (.punct (← choice.run))
      | none => fail .unexpectedCharacter [.ofList [c]]

end Scan

end Bytes

namespace Token.Punct

theorem longestFirst_sorted : longestFirst.Pairwise fun p q =>
    q.spelling.toList.length ≤ p.spelling.toList.length := by
  decide +kernel

theorem mem_longestFirst (p : Punct) : p ∈ longestFirst := by
  have known : ∀ p ∈ all, p ∈ longestFirst := by decide +kernel
  exact known p p.mem_all

/-- What is read is the longest operator at the front of the input. -/
theorem read?_of_longest {p : Punct} {input : List Char} (front : p.spelling.toList <+: input)
    (longest : ∀ q : Punct, q.spelling.toList <+: input →
      q.spelling.toList.length ≤ p.spelling.toList.length) : read? input = some p := by
  have fits : p.spelling.toList.isPrefixOf input = true := List.isPrefixOf_iff_prefix.mpr front
  cases found : read? input with
  | none =>
    have refused := List.find?_eq_none.mp found p p.mem_longestFirst
    exact absurd fits refused
  | some q =>
    obtain ⟨here, before, after, split, others⟩ := List.find?_eq_some_iff_append.mp found
    have front' : q.spelling.toList <+: input := List.isPrefixOf_iff_prefix.mp here
    have member : p ∈ q :: after := by
      have member := p.mem_longestFirst
      rw [split, List.mem_append] at member
      refine member.resolve_left fun earlier => ?_
      have refused := others p earlier
      rw [fits] at refused
      cases refused
    have sorted := longestFirst_sorted
    rw [split] at sorted
    have shorter : p.spelling.toList.length ≤ q.spelling.toList.length := by
      rcases List.mem_cons.mp member with rfl | later
      · exact Nat.le_refl _
      · exact List.rel_of_pairwise_cons (List.pairwise_append.mp sorted).2.1 later
    have same : p.spelling.toList = q.spelling.toList :=
      (List.prefix_of_prefix_length_le front front' shorter).eq_of_length_le (longest q front')
    have read := p.read?_self
    rw [same, q.read?_self] at read
    exact read

end Token.Punct

namespace Bytes

theorem recognises_operator (c : Char) (rest : List Char) :
    Recognises Scan.operator [] [] (c :: rest) (Lexeme.operator (c :: rest)) := by
  refine .consume [c] (.next c rest) rfl ?_
  rw [Lexeme.operator]
  by_cases semicolon : c = ';'
  · subst semicolon
    exact .emitted _ _ _ _
  · dsimp only
    rw [if_neg semicolon, if_neg (by simpa using semicolon)]
    cases found : Choice.of? c with
    | none =>
      have none : Punct.read? (c :: rest) = none := by
        refine List.find?_eq_none.mpr fun p _ => ?_
        intro front
        obtain ⟨more, spelled⟩ := List.isPrefixOf_iff_prefix.mp front
        have begins := Choice.of?_isSome p
        cases same : p.spelling.toList with
        | nil =>
          rw [same] at begins
          cases begins
        | cons d tail =>
          rw [same] at spelled begins
          obtain rfl := (List.cons.inj spelled).1
          rw [List.head?_cons, Option.bind_some, found] at begins
          cases begins
      rw [none]
      exact .fail _ _ (.inl (List.cons_ne_nil _ _))
    | some choice =>
      obtain ⟨p, left, reads, spelled, longest⟩ := choice.run_longest rest
        (Choice.complete_of? found) (by simp)
      have front : p.spelling.toList <+: c :: rest := ⟨left, spelled.symm⟩
      have split := reads
      obtain ⟨taken, rfl, _⟩ := split
      have same : [c] ++ taken = p.spelling.toList :=
        List.append_cancel_right (by rw [List.append_assoc, spelled])
      rw [Punct.read?_of_longest front longest]
      refine .consume taken reads rfl ?_
      dsimp only
      rw [List.nil_append, same]
      exact .emitted _ _ _ _

end Bytes

end RubySyntax
