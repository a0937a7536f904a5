import RubySyntax.Proofs.Lexer.Followed

/-! Trivia turn by turn. The loop that passes what belongs to no token knows whether a
continued line led to where it stands; every turn leads to a place in front of which the
lexer looks for a token. -/
namespace RubySyntax

open Text (isBlank isLineBreak)

namespace Lexer

/-- One turn of the loop that passes trivia. With the lexer goes whether a continued line
has led to it. -/
inductive Turn : Bool → Lexer → Bool → Lexer → Prop where
  | blank (ahead : lexer.scanner.ahead = c :: rest) (blank : isBlank c = true) :
      Turn continued lexer continued (lexer.skip 1).noteBlank
  | lineBreak (ahead : lexer.scanner.ahead = '\n' :: rest)
      (joins : lexer.crossLineFeed.separates = false) :
      Turn continued lexer false lexer.crossLineFeed.noteBreak
  | comment (ahead : lexer.scanner.ahead = '#' :: rest) :
      Turn continued lexer continued (lexer.skipComment continued)
  | continuation (ahead : lexer.scanner.ahead = c :: rest)
      (follows : Lexer.continuation (c :: rest) ≠ 0) : Turn continued lexer true lexer.continueLine
  | blockComment (ahead : lexer.scanner.ahead = c :: rest) (start : lexer.atLineStart = true)
      (opens : "=begin".toList.isPrefixOf (c :: rest) = true) :
      Turn continued lexer false (lexer.skipTo (afterBlockComment rest))

/-- The loop comes from one place to another. -/
inductive Reaches : Bool → Lexer → Bool → Lexer → Prop where
  | here : Reaches continued lexer continued lexer
  | turn (first : Turn continued lexer continued' behind)
      (rest : Reaches continued' behind continued'' stop) :
      Reaches continued lexer continued'' stop

variable {lexer behind stop : Lexer} {continued continued' : Bool} {front passed rest : List Char}

theorem Turn.piece (turn : Turn continued lexer continued' behind) : Piece lexer behind := by
  cases turn with
  | blank ahead blank => exact .blank ahead blank
  | lineBreak ahead joins => exact .lineBreak ahead joins
  | comment ahead => exact .comment continued ahead
  | continuation ahead follows => exact .continuation (ahead ▸ follows)
  | blockComment ahead start opens => exact .blockComment ahead start opens

theorem Reaches.passes (reaches : Reaches continued lexer continued' stop) : Passes lexer stop := by
  induction reaches with
  | here => exact .refl
  | turn first _ ih => exact .head first.piece ih

theorem Reaches.append (reaches : Reaches continued lexer continued' behind)
    (more : Reaches continued' behind continued'' stop) :
    Reaches continued lexer continued'' stop := by
  induction reaches with
  | here => exact more
  | turn first _ ih => exact .turn first (ih more)

theorem Turn.length_lt (turn : Turn continued lexer continued' behind) :
    behind.scanner.ahead.length < lexer.scanner.ahead.length := by
  cases turn with
  | blank ahead _ =>
    show (lexer.skip 1).scanner.ahead.length < _
    rw [length_skip, ahead, List.length_cons]
    omega
  | lineBreak ahead _ =>
    have crossed := length_crossLineFeed lexer
    show lexer.crossLineFeed.scanner.ahead.length < _
    rw [ahead, List.length_cons] at crossed ⊢
    omega
  | comment ahead => exact length_skipComment continued ahead
  | continuation ahead _ => exact length_continueLine (by simp [ahead])
  | blockComment ahead _ _ =>
    refine length_skipTo ?_
    rw [ahead, List.length_cons]
    exact Nat.lt_succ_of_le (length_afterBlockComment _)

/-- The last turn is one from somewhere else. -/
theorem Reaches.unsnoc (reaches : Reaches continued lexer continued' stop) :
    stop = lexer ∧ continued' = continued ∨
      ∃ before here, Reaches continued lexer before here ∧ Turn before here continued' stop := by
  induction reaches with
  | here => exact .inl ⟨rfl, rfl⟩
  | turn first rest ih =>
    obtain ⟨rfl, rfl⟩ | ⟨before, here, reaches, last⟩ := ih
    · exact .inr ⟨_, _, .here, first⟩
    · exact .inr ⟨before, here, .turn first reaches, last⟩

/-- Without a continued line on the way the loop never is behind one. -/
theorem Reaches.continued_eq (reaches : Reaches continued lexer continued' stop)
    (whole : ∀ behind, Passes lexer behind → continuation behind.scanner.ahead = 0)
    (none : continued = false) : continued' = false := by
  induction reaches with
  | here => exact none
  | @turn _ lexer _ behind _ _ first rest ih =>
    refine ih (fun stop passes => whole stop (.head first.piece passes)) ?_
    cases first with
    | blank _ _ => exact none
    | lineBreak _ _ => rfl
    | comment _ => exact none
    | continuation ahead follows =>
      rw [← ahead] at follows
      exact absurd (whole lexer .refl) follows
    | blockComment _ _ _ => rfl

theorem fromLineEnd_cases (cs : List Char) :
    fromLineEnd cs = [] ∨ ∃ rest, fromLineEnd cs = '\n' :: rest := by
  unfold fromLineEnd
  induction cs with
  | nil => exact .inl rfl
  | cons c rest ih =>
    cases feed : isLineBreak c with
    | false => simpa [feed] using ih
    | true =>
      obtain rfl : c = '\n' := by simpa [isLineBreak] using feed
      exact .inr ⟨rest, rfl⟩

theorem afterBlockComment_suffix (cs : List Char) : afterBlockComment cs <:+ cs := by
  induction cs with
  | nil => exact List.suffix_rfl
  | cons c rest ih =>
    rw [afterBlockComment]
    split
    · exact (List.dropWhile_suffix _).trans (List.suffix_cons c rest)
    · exact ih.trans (List.suffix_cons c rest)

theorem skipLine_eq (lexer : Lexer) :
    lexer.skipLine = lexer.skipTo (fromLineEnd lexer.scanner.ahead) := by
  have parts := congrArg List.length
    (List.takeWhile_append_dropWhile (p := fun c => !isLineBreak c) (l := lexer.scanner.ahead))
  rw [List.length_append] at parts
  unfold skipLine skipTo fromLineEnd
  congr 1
  omega

theorem At.skipTo (place : lexer.At front (passed ++ rest)) :
    (lexer.skipTo rest).At (front ++ passed) rest := by
  have count : lexer.scanner.ahead.length - rest.length = passed.length := by
    simp [place.ahead]
  rw [Lexer.skipTo, count]
  exact place.skip_append

theorem continuation_backslash (follows : continuation (c :: rest) ≠ 0) : c = '\\' := by
  by_contra other
  exact follows (by simp [continuation, List.isPrefixOf, Ne.symm other])

theorem begin_equals (opens : "=begin".toList.isPrefixOf (c :: rest) = true) : c = '=' :=
  (List.cons_prefix_cons.mp (List.isPrefixOf_iff_prefix.mp opens)).1.symm

/-- A turn decides nothing about what the loop comes to. -/
theorem Turn.skipTrivia (turn : Turn continued lexer continued' behind) :
    lexer.skipTrivia continued = behind.skipTrivia continued' := by
  cases turn with
  | blank ahead blank => rw [skipTrivia_cons ahead, if_pos blank]
  | lineBreak ahead joins =>
    rw [skipTrivia_lineFeed ahead, joins, if_neg Bool.false_ne_true]
  | comment ahead =>
    rw [skipTrivia_cons ahead, if_neg (by decide), if_neg (by decide), if_pos rfl]
  | continuation ahead follows =>
    obtain rfl := continuation_backslash follows
    rw [skipTrivia_cons ahead, if_neg (by decide), if_neg (by decide), if_neg (by decide),
      if_pos follows]
  | blockComment ahead start opens =>
    obtain rfl := begin_equals opens
    rw [skipTrivia_cons ahead, if_neg (by decide), if_neg (by decide), if_neg (by decide),
      if_neg (by simp [Lexer.continuation, List.isPrefixOf]), start, opens, Bool.and_true, if_pos rfl]

theorem Reaches.skipTrivia (reaches : Reaches continued lexer continued' stop) :
    lexer.skipTrivia continued = stop.skipTrivia continued' := by
  induction reaches with
  | here => rfl
  | turn first _ ih => exact first.skipTrivia.trans ih

/-- The loop comes to a token or to a line feed that is one itself. -/
theorem reaches_stop (continued : Bool) (lexer : Lexer) :
    ∃ continued' stop, Reaches continued lexer continued' stop ∧
      (AtToken stop ∧ lexer.skipTrivia continued = (none, stop) ∨
        AtSeparator stop ∧
          lexer.skipTrivia continued = (some stop.newLine, stop.crossLineFeed)) := by
  fun_induction Lexer.skipTrivia continued lexer with
  | case1 continued lexer ahead =>
    obtain ⟨stop, passes, stops⟩ := skipTrivia_cases continued lexer
    rw [skipTrivia_nil ahead] at stops
    obtain ⟨token, same⟩ | ⟨_, same⟩ := stops
    · obtain ⟨_, rfl⟩ := Prod.mk.inj same
      exact ⟨continued, lexer, .here, .inl ⟨token, rfl⟩⟩
    · cases same
  | case2 continued lexer c rest ahead blank ih =>
    obtain ⟨continued', stop, reaches, stops⟩ := ih
    exact ⟨continued', stop, .turn (.blank ahead blank) reaches, stops⟩
  | case3 continued lexer c rest ahead _ feed separates =>
    obtain rfl : c = '\n' := by simpa [isLineBreak] using feed
    exact ⟨continued, lexer, .here, .inr ⟨⟨⟨rest, ahead⟩, separates⟩, rfl⟩⟩
  | case4 continued lexer c rest ahead _ feed joins ih =>
    obtain rfl : c = '\n' := by simpa [isLineBreak] using feed
    obtain ⟨continued', stop, reaches, stops⟩ := ih
    exact ⟨continued', stop, .turn (.lineBreak ahead (Bool.eq_false_iff.mpr joins)) reaches, stops⟩
  | case5 continued lexer rest ahead _ _ ih =>
    obtain ⟨continued', stop, reaches, stops⟩ := ih
    exact ⟨continued', stop, .turn (.comment ahead) reaches, stops⟩
  | case6 continued lexer c rest ahead _ _ _ follows ih =>
    obtain ⟨continued', stop, reaches, stops⟩ := ih
    exact ⟨continued', stop, .turn (.continuation ahead follows) reaches, stops⟩
  | case7 continued lexer c rest ahead _ _ _ _ block ih =>
    obtain ⟨start, opens⟩ := Bool.and_eq_true_iff.mp block
    obtain ⟨continued', stop, reaches, stops⟩ := ih
    exact ⟨continued', stop, .turn (.blockComment ahead start opens) reaches, stops⟩
  | case8 continued lexer c rest ahead notBlank notFeed notComment notContinued notBlock =>
    obtain ⟨stop, passes, stops⟩ := skipTrivia_cases continued lexer
    rw [skipTrivia_cons ahead, if_neg notBlank, if_neg notFeed, if_neg notComment,
      if_neg notContinued, if_neg notBlock] at stops
    obtain ⟨token, same⟩ | ⟨_, same⟩ := stops
    · obtain ⟨_, rfl⟩ := Prod.mk.inj same
      exact ⟨continued, lexer, .here, .inl ⟨token, rfl⟩⟩
    · cases same

end Lexer

/-- Between two tokens the loop that passes trivia comes to the place between two parts of
the source. -/
def Dispatches (source : String) (front back : List Char) : Prop :=
  ∃ tokens lexer continued here, Lexer.Run (.ofSource source) tokens lexer ∧
    lexer.halted = false ∧ Lexer.Reaches false lexer continued here ∧ here.At front back

end RubySyntax
