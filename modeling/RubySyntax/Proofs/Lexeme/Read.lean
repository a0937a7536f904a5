import RubySyntax.Proofs.Lexeme.Literal

namespace RubySyntax.Lexeme

open Text

/-- A punctuation mark is spelled without white space and backslashes. -/
theorem spelling_visible (p : Token.Punct) :
    p.spelling.toList ≠ [] ∧ ∀ c ∈ p.spelling.toList, isSpace c = false ∧ c ≠ '\\' := by
  have clean : ∀ p ∈ Token.Punct.all, (!p.spelling.toList.isEmpty &&
      p.spelling.toList.all fun c => !isSpace c && c != '\\') = true := by
    decide +kernel
  have visible := clean p p.mem_all
  simpa using visible

theorem spelling_ne_nil (p : Token.Punct) : p.spelling.toList ≠ [] := (spelling_visible p).1

theorem space_not_mem_spelling (space : isSpace c = true) (p : Token.Punct) :
    c ∉ p.spelling.toList := by
  intro member
  rw [((spelling_visible p).2 c member).1] at space
  cases space

theorem lineFeed_not_mem_spelling (p : Token.Punct) : '\n' ∉ p.spelling.toList :=
  space_not_mem_spelling (by decide) p

theorem operator_sound (visible : c ≠ '\n') (rest : List Char) :
    (operator (c :: rest)).Sound (c :: rest) := by
  unfold operator
  split
  · rename_i semicolon
    obtain rfl : c = ';' := by simpa using semicolon
    exact Sound.of_clean (by simp [Lexeme.chars]) (by simp [Lexeme.chars]) (by simp [Lexeme.chars])
      (by simp)
  · split
    · rename_i p found
      refine Sound.of_clean ?_ ?_ ?_ (by simp)
      · simpa [Lexeme.chars] using List.find?_some found
      · simpa [Lexeme.chars] using spelling_ne_nil p
      · simpa [Lexeme.chars] using lineFeed_not_mem_spelling p
    · refine .of_clean ?_ ?_
      · simp [Fault.chars]
      · simpa [Fault.chars] using visible.symm

theorem Reading.Sound.ite {condition : Prop} [Decidable condition] {first second : Reading}
    (yes : condition → first.Sound input) (no : ¬ condition → second.Sound input) :
    Reading.Sound input (if condition then first else second) := by
  by_cases holds : condition
  · rw [if_pos holds]
    exact yes holds
  · rw [if_neg holds]
    exact no holds

theorem symbolFollows_colon (follows : symbolFollows context (c :: rest) = true) : c = ':' := by
  unfold symbolFollows at follows
  split at follows
  · rename_i same
    exact (List.cons.inj same).1
  · cases follows

theorem readFrom_sound (context : Context) (visible : c ≠ '\n') (rest : List Char) :
    (readFrom context c (c :: rest)).Sound (c :: rest) := by
  unfold readFrom
  apply Reading.Sound.ite
  · exact fun digit => number_sound digit rest
  intro _
  apply Reading.Sound.ite
  · exact fun _ => quoted_sound visible _ rest
  intro _
  apply Reading.Sound.ite
  · exact fun _ => quoted_sound visible _ rest
  intro _
  apply Reading.Sound.ite
  · exact fun _ => quoted_sound visible _ rest
  intro _
  apply Reading.Sound.ite
  · exact fun sigil => sigilVariable_sound (by simpa using sigil) rest
  intro _
  apply Reading.Sound.ite
  · intro follows
    obtain rfl := symbolFollows_colon follows
    exact symbol_sound rest
  intro _
  apply Reading.Sound.ite
  · intro question
    simp only [Bool.and_eq_true, decide_eq_true_eq] at question
    obtain ⟨⟨rfl, _⟩, follows⟩ := question
    exact character_sound follows
  intro _
  apply Reading.Sound.ite
  · intro percent
    simp only [Bool.and_eq_true, decide_eq_true_eq] at percent
    obtain ⟨⟨rfl, _⟩, follows⟩ := percent
    exact percent_sound follows
  intro _
  apply Reading.Sound.ite
  · intro slash
    simp only [Bool.and_eq_true, decide_eq_true_eq] at slash
    obtain ⟨⟨rfl, _⟩, _⟩ := slash
    exact regex_sound rest
  intro _
  apply Reading.Sound.ite
  · exact fun start => name_sound context start rest
  · exact fun _ => operator_sound visible rest

/-- The opener of a heredoc stands on one line at the front of the input. -/
structure HeredocOpener.Sound (input : List Char) (opener : HeredocOpener) : Prop where
  front : opener.chars <+: input
  advances : opener.chars ≠ []
  clean : '\n' ∉ opener.chars

theorem heredocFollows_front (follows : heredocFollows context input = true) :
    ['<', '<'] <+: input := by
  unfold heredocFollows at follows
  split at follows
  · exact ⟨_, rfl⟩
  · cases follows

/-- The first character decides where it opens no heredoc. -/
theorem read_first (other : c ≠ '<') (context : Context) (offset : Nat) (pending : Option Pending)
    (rest : List Char) : read context offset pending (c :: rest) =
      (readFrom context c (c :: rest)).map fun lexeme => (lexeme, pending) := by
  have none : heredocFollows context (c :: rest) = false := by
    refine Bool.eq_false_iff.mpr fun follows => ?_
    exact other (List.cons_prefix_cons.mp (heredocFollows_front follows)).1.symm
  unfold read
  rw [none, Bool.and_false, if_neg Bool.false_ne_true]

theorem heredocOpener_sound (signs : ['<', '<'] <+: input) :
    Reads input (HeredocOpener.Sound input) (heredocOpener input) := by
  let mark := (input.drop 2).take 1 |>.filter isHeredocMark
  have front : ['<', '<'] ++ mark <+: input := isPrefix_append signs (filter_take_one _ _)
  have clean : '\n' ∉ ['<', '<'] ++ mark := by
    refine List.not_mem_append (by decide) fun member => ?_
    have marked := (List.mem_filter.mp member).2
    revert marked
    decide
  have bare (name : List Char) (after : name <+: input.drop (['<', '<'] ++ mark).length)
      (line : '\n' ∉ name) (opener : HeredocOpener) (same : opener.chars = ['<', '<'] ++ mark ++ name) :
      opener.Sound input := by
    refine ⟨?_, ?_, ?_⟩
    · rw [same]
      exact isPrefix_append front after
    · simp [same]
    · rw [same]
      exact List.not_mem_append clean line
  unfold heredocOpener
  dsimp only
  split
  · rename_i quote tail split
    split
    · rename_i quoted
      have visible : '\n' ≠ quote := by
        rintro rfl
        simp at quoted
      let name := tail.takeWhile fun c => c != quote && !isLineBreak c
      have line : '\n' ∉ quote :: name := by
        refine List.not_mem_cons_of_ne_of_not_mem visible (not_mem_takeWhile ?_ _)
        simp [isLineBreak]
      have after : quote :: name <+: input.drop (['<', '<'] ++ mark).length := by
        rw [split]
        exact List.cons_prefix_cons.mpr ⟨rfl, List.takeWhile_prefix _⟩
      split
      · rename_i closed
        refine bare (quote :: name ++ [quote]) (isPrefix_append after ?_) ?_ _ (by simp [mark, name])
        · rw [split, List.length_cons, List.drop_succ_cons]
          obtain ⟨rest, same⟩ := List.head?_eq_some_iff.mp (beq_iff_eq.mp closed)
          exact ⟨rest, same.symm⟩
        · exact List.not_mem_append line (by simpa using visible)
      · refine .of_clean ?_ ?_
        · simpa [Fault.chars] using isPrefix_append front after
        · show '\n' ∉ ['<', '<'] ++ mark ++ quote :: name
          exact List.not_mem_append clean line
    · refine bare _ (List.takeWhile_prefix _) ?_ _ rfl
      exact not_mem_takeWhile isIdentifierPart_lineFeed _
  · exact bare [] List.nil_prefix List.not_mem_nil _ (by simp [mark])

theorem heredoc_sound (offset : Nat) (pending : Option Pending) (signs : ['<', '<'] <+: input) :
    Reads input (fun result => result.1.Sound input) (heredoc offset pending input) := by
  have opened := heredocOpener_sound signs
  unfold heredoc
  cases found : heredocOpener input with
  | error fault =>
    rw [found] at opened
    exact opened
  | ok opener =>
    rw [found] at opened
    obtain ⟨front, advances, clean⟩ := opened
    simp only [Except.bind]
    split
    · exact .of_clean (by simpa [Fault.chars] using front) (by simpa [Fault.chars] using clean)
    · exact Sound.of_clean (by simpa [Lexeme.chars] using front)
        (by simpa [Lexeme.chars] using advances) (by simpa [Lexeme.chars] using clean) (by simp)

/-- Where the input has not ended and no line break is next, a token of its own
is read, or a fault. -/
theorem read_sound (context : Context) (offset : Nat) (pending : Option Pending)
    (visible : c ≠ '\n') (rest : List Char) :
    Reads (c :: rest) (fun result => result.1.Sound (c :: rest))
      (read context offset pending (c :: rest)) := by
  unfold read
  split
  · rename_i follows
    have sound := heredoc_sound offset pending
      (heredocFollows_front (Bool.and_eq_true_iff.mp follows).2)
    refine sound.map fun result read => ?_
    rw [read] at sound
    exact sound
  · have sound := readFrom_sound context visible rest
    refine Reads.map sound fun lexeme read => ?_
    rw [read] at sound
    exact sound

theorem read_nil (context : Context) (offset : Nat) (pending : Option Pending) :
    read context offset pending [] = .ok ({ kind := .endOfFile, body := [] }, pending) := by
  simp [read, heredocFollows]

end RubySyntax.Lexeme
