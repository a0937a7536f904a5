import RubySyntax.Proofs.Lexeme.Literal

/-! The language of delimited bodies. A body and an interpolated region are told by a grammar
that counts nothing, and what the lexer takes between two delimiters is exactly a body. -/
namespace RubySyntax.Lexeme

open Text

/-- The characters that quote a text, inside an interpolated region as well. -/
def quotes : List Char := ['"', '\'', '`']

mutual

/-- A text that can stand between delimiters. -/
inductive Body : Option Char → Char → Bool → List Char → Prop
  | nil : Body opener closer interpolates []
  | escape (c : Char) (rest : Body opener closer interpolates w) :
      Body opener closer interpolates ('\\' :: c :: w)
  | region (inner : Region i) (rest : Body opener closer true w) :
      Body opener closer true ('#' :: '{' :: (i ++ '}' :: w))
  | nested (inner : Body (some opener) closer interpolates b)
      (rest : Body (some opener) closer interpolates w) :
      Body (some opener) closer interpolates (opener :: (b ++ closer :: w))
  | plain (stays : c ≠ closer) (deepens : some c ≠ opener) (alone : c ≠ '\\')
      (outside : interpolates = true → c = '#' → w.head? ≠ some '{')
      (rest : Body opener closer interpolates w) : Body opener closer interpolates (c :: w)

/-- A text that can stand between the braces of an interpolated region. -/
inductive Region : List Char → Prop
  | nil : Region []
  | braces (inner : Region i) (rest : Region w) : Region ('{' :: (i ++ '}' :: w))
  | escape (c : Char) (rest : Region w) : Region ('\\' :: c :: w)
  | quoted (quote : c ∈ quotes) (inner : Body none c (c != '\'') b) (rest : Region w) :
      Region (c :: (b ++ c :: w))
  | plain (brace : c ≠ '{' ∧ c ≠ '}') (quote : c ∉ quotes) (alone : c ≠ '\\') (rest : Region w) :
      Region (c :: w)

end

/-- Delimiters that are told from each other, from an escape, and from the beginning of an
interpolated region. -/
structure Proper (opener : Option Char) (closer : Char) (interpolates : Bool) : Prop where
  closes : closer ≠ '\\'
  apart : opener ≠ some closer
  opens : opener ≠ some '\\'
  outside : interpolates = true → closer ≠ '#' ∧ closer ≠ '{' ∧ opener ≠ some '#'

theorem Proper.quoted (quote : c ∈ quotes) : Proper none c (c != '\'') := by
  simp only [quotes, List.mem_cons, List.not_mem_nil, or_false] at quote
  rcases quote with rfl | rfl | rfl <;> constructor <;> decide

theorem Proper.percent (closes : closingDelimiter opener = some closer) (interpolates : Bool) :
    Proper (if opener = closer then none else some opener) closer interpolates := by
  unfold closingDelimiter at closes
  split at closes
  all_goals cases closes
  all_goals constructor <;> simp

section scanning

variable {frame next : Frame} {outer : List Frame}

theorem bodyWidth_escape : bodyWidth frame outer width ('\\' :: c :: rest) =
    bodyWidth frame outer (width + 2) rest := by
  rw [bodyWidth.eq_def]
  simp

theorem bodyWidth_region (interpolates : frame.interpolates = true) :
    bodyWidth frame outer width ('#' :: '{' :: rest) =
      bodyWidth (.region 0) (frame :: outer) (width + 2) rest := by
  rw [bodyWidth.eq_def]
  simp [interpolates]

/-- Any other character moves the innermost frame. -/
theorem bodyWidth_move (alone : c ≠ '\\')
    (outside : frame.interpolates = true → c = '#' → rest.head? ≠ some '{') :
    bodyWidth frame outer width (c :: rest) =
      match frame.move c with
      | .stay next => bodyWidth next outer (width + 1) rest
      | .enter inner => bodyWidth inner (frame :: outer) (width + 1) rest
      | .leave =>
        match outer with
        | [] => some width
        | next :: outer => bodyWidth next outer (width + 1) rest := by
  rw [bodyWidth.eq_def]
  simp only
  rewrite [if_neg alone, if_neg (by simpa using outside)]
  cases frame.move c with
  | stay _ | enter _ => rfl
  | leave => cases outer <;> rfl

theorem bodyWidth_stay (alone : c ≠ '\\')
    (outside : frame.interpolates = true → c = '#' → rest.head? ≠ some '{')
    (stays : frame.move c = .stay next) :
    bodyWidth frame outer width (c :: rest) = bodyWidth next outer (width + 1) rest := by
  rw [bodyWidth_move alone outside, stays]

theorem bodyWidth_leave (alone : c ≠ '\\')
    (outside : frame.interpolates = true → c = '#' → rest.head? ≠ some '{')
    (leaves : frame.move c = .leave) :
    bodyWidth frame (next :: outer) width (c :: rest) = bodyWidth next outer (width + 1) rest := by
  rw [bodyWidth_move alone outside, leaves]

theorem bodyWidth_enter (alone : c ≠ '\\')
    (outside : frame.interpolates = true → c = '#' → rest.head? ≠ some '{')
    (enters : frame.move c = .enter next) :
    bodyWidth frame outer width (c :: rest) =
      bodyWidth next (frame :: outer) (width + 1) rest := by
  rw [bodyWidth_move alone outside, enters]

end scanning

/-- Proper delimiters begin no region. -/
theorem Proper.closer_outside (proper : Proper opener closer interpolates) (rest : List Char) :
    interpolates = true → closer = '#' → rest.head? ≠ some '{' :=
  fun holds same => absurd same (proper.outside holds).1

theorem Proper.opener_outside (proper : Proper (some opener) closer interpolates)
    (rest : List Char) : interpolates = true → opener = '#' → rest.head? ≠ some '{' :=
  fun holds same => absurd (congrArg some same) (proper.outside holds).2.2

section moves

variable {outer : List Frame} {next : Frame}

theorem bodyWidth_closer (proper : Proper opener closer interpolates) :
    bodyWidth (.body opener closer interpolates (depth + 1)) outer width (closer :: rest) =
      bodyWidth (.body opener closer interpolates depth) outer (width + 1) rest :=
  bodyWidth_stay proper.closes (proper.closer_outside rest) (by simp [Frame.move])

theorem bodyWidth_close (proper : Proper opener closer interpolates) :
    bodyWidth (.body opener closer interpolates 0) (next :: outer) width (closer :: rest) =
      bodyWidth next outer (width + 1) rest :=
  bodyWidth_leave proper.closes (proper.closer_outside rest) (by simp [Frame.move])

theorem bodyWidth_end (proper : Proper opener closer interpolates) :
    bodyWidth (.body opener closer interpolates 0) [] width (closer :: rest) = some width := by
  have outside : (Frame.body opener closer interpolates 0).interpolates = true →
      closer = '#' → rest.head? ≠ some '{' := proper.closer_outside rest
  rw [bodyWidth_move proper.closes outside]
  simp [Frame.move]

theorem bodyWidth_opener {opener : Char} (proper : Proper (some opener) closer interpolates) :
    bodyWidth (.body (some opener) closer interpolates depth) outer width (opener :: rest) =
      bodyWidth (.body (some opener) closer interpolates (depth + 1)) outer (width + 1) rest := by
  have different : opener ≠ closer := fun same => proper.apart (congrArg some same)
  have alone : opener ≠ '\\' := fun same => proper.opens (congrArg some same)
  exact bodyWidth_stay alone (proper.opener_outside rest) (by simp [Frame.move, different])

theorem bodyWidth_plain (stays : c ≠ closer) (deepens : some c ≠ opener) (alone : c ≠ '\\')
    (outside : interpolates = true → c = '#' → rest.head? ≠ some '{') :
    bodyWidth (.body opener closer interpolates depth) outer width (c :: rest) =
      bodyWidth (.body opener closer interpolates depth) outer (width + 1) rest :=
  bodyWidth_stay alone outside (by simp [Frame.move, stays, deepens])

theorem bodyWidth_openBrace : bodyWidth (.region depth) outer width ('{' :: rest) =
    bodyWidth (.region (depth + 1)) outer (width + 1) rest :=
  bodyWidth_stay (by decide) (nomatch ·) rfl

theorem bodyWidth_closeBrace : bodyWidth (.region (depth + 1)) outer width ('}' :: rest) =
    bodyWidth (.region depth) outer (width + 1) rest :=
  bodyWidth_stay (by decide) (nomatch ·) rfl

theorem bodyWidth_endRegion : bodyWidth (.region 0) (next :: outer) width ('}' :: rest) =
    bodyWidth next outer (width + 1) rest :=
  bodyWidth_leave (by decide) (nomatch ·) rfl

theorem bodyWidth_quote (quote : c ∈ quotes) :
    bodyWidth (.region depth) outer width (c :: rest) =
      bodyWidth (.body none c (c != '\'') 0) (.region depth :: outer) (width + 1) rest := by
  have enters : (Frame.region depth).move c = .enter (.quoted c) := by
    simp only [quotes, List.mem_cons, List.not_mem_nil, or_false] at quote
    rcases quote with rfl | rfl | rfl <;> rfl
  exact bodyWidth_enter (Proper.quoted quote).closes (nomatch ·) enters

theorem bodyWidth_inRegion (brace : c ≠ '{' ∧ c ≠ '}') (quote : c ∉ quotes) (alone : c ≠ '\\') :
    bodyWidth (.region depth) outer width (c :: rest) =
      bodyWidth (.region depth) outer (width + 1) rest := by
  have stays : (Frame.region depth).move c = .stay (.region depth) := by
    simp only [quotes, List.mem_cons, List.not_mem_nil, or_false, not_or] at quote
    simp [Frame.move, brace, quote]
  exact bodyWidth_stay alone (nomatch ·) stays

end moves

mutual

/-- A body is passed over, whatever frames are open around it. -/
theorem Body.passes (proper : Proper opener closer interpolates) :
    Body opener closer interpolates w → ∀ depth outer width rest,
      bodyWidth (.body opener closer interpolates depth) outer width (w ++ closer :: rest) =
        bodyWidth (.body opener closer interpolates depth) outer (width + w.length)
          (closer :: rest)
  | .nil, depth, outer, width, rest => rfl
  | .escape c more, depth, outer, width, rest => by
    rw [List.cons_append, List.cons_append, bodyWidth_escape, more.passes proper]
    congr 1
    simp only [List.length_cons]
    omega
  | .region inner more, depth, outer, width, rest => by
    simp only [List.cons_append, List.append_assoc]
    rw [bodyWidth_region rfl, inner.passes, bodyWidth_endRegion, more.passes proper]
    congr 1
    simp only [List.length_cons, List.length_append]
    omega
  | .nested inner more, depth, outer, width, rest => by
    simp only [List.cons_append, List.append_assoc]
    rw [bodyWidth_opener proper, inner.passes proper, bodyWidth_closer proper, more.passes proper]
    congr 1
    simp only [List.length_cons, List.length_append]
    omega
  | .plain (c := c) (w := w) stays deepens alone outside more, depth, outer, width, rest => by
    have outside (holds : interpolates = true) (same : c = '#') :
        (w ++ closer :: rest).head? ≠ some '{' := by
      cases w with
      | nil => simpa using (proper.outside holds).2.1
      | cons next w => exact outside holds same
    rw [List.cons_append, bodyWidth_plain stays deepens alone outside, more.passes proper]
    congr 1
    simp only [List.length_cons]
    omega

/-- So is what stands between the braces of a region. -/
theorem Region.passes : Region w → ∀ depth outer width rest,
    bodyWidth (.region depth) outer width (w ++ '}' :: rest) =
      bodyWidth (.region depth) outer (width + w.length) ('}' :: rest)
  | .nil, depth, outer, width, rest => rfl
  | .braces inner more, depth, outer, width, rest => by
    simp only [List.cons_append, List.append_assoc]
    rw [bodyWidth_openBrace, inner.passes, bodyWidth_closeBrace, more.passes]
    congr 1
    simp only [List.length_cons, List.length_append]
    omega
  | .escape c more, depth, outer, width, rest => by
    rw [List.cons_append, List.cons_append, bodyWidth_escape, more.passes]
    congr 1
    simp only [List.length_cons]
    omega
  | .quoted quote inner more, depth, outer, width, rest => by
    simp only [List.cons_append, List.append_assoc]
    rw [bodyWidth_quote quote, inner.passes (.quoted quote), bodyWidth_close (.quoted quote),
      more.passes]
    congr 1
    simp only [List.length_cons, List.length_append]
    omega
  | .plain brace quote alone more, depth, outer, width, rest => by
    rw [List.cons_append, bodyWidth_inRegion brace quote alone, more.passes]
    congr 1
    simp only [List.length_cons]
    omega

end

theorem bodyWidth_nil : bodyWidth frame outer width [] = none := by rw [bodyWidth.eq_def]

theorem bodyWidth_loneEscape : bodyWidth frame outer width ['\\'] = none := by
  rw [bodyWidth.eq_def]
  exact bodyWidth_nil

mutual

private theorem body_within (proper : Proper opener closer interpolates) :
    ∀ bound, input.length < bound →
      bodyWidth (.body opener closer interpolates depth) outer width input = some last →
      ∃ w rest, Body opener closer interpolates w ∧ input = w ++ closer :: rest
  | bound + 1, within, found => by
    rcases input with _ | ⟨c, input⟩
    · rw [bodyWidth_nil] at found
      cases found
    rw [List.length_cons, Nat.add_lt_add_iff_right] at within
    by_cases closes : c = closer
    · subst closes
      exact ⟨[], input, .nil, rfl⟩
    by_cases alone : c = '\\'
    · subst alone
      rcases input with _ | ⟨c, input⟩
      · rw [bodyWidth_loneEscape] at found
        cases found
      · rw [bodyWidth_escape] at found
        obtain ⟨w, rest, body, rfl⟩ := body_within proper bound (by grind) found
        exact ⟨'\\' :: c :: w, rest, .escape c body, rfl⟩
    by_cases begins : interpolates = true ∧ c = '#' ∧ input.head? = some '{'
    · obtain ⟨rfl, rfl, head⟩ := begins
      obtain ⟨input, rfl⟩ := List.head?_eq_some_iff.mp head
      rw [bodyWidth_region rfl] at found
      obtain ⟨i, input, region, rfl⟩ := region_within bound (by grind) found
      rw [region.passes, bodyWidth_endRegion] at found
      obtain ⟨w, rest, body, rfl⟩ := body_within proper bound (by grind) found
      exact ⟨'#' :: '{' :: (i ++ '}' :: w), rest, .region region body, by simp⟩
    by_cases opens : some c = opener
    · subst opens
      rw [bodyWidth_opener proper] at found
      obtain ⟨b, input, inner, rfl⟩ := body_within proper bound within found
      rw [inner.passes proper, bodyWidth_closer proper] at found
      obtain ⟨w, rest, body, rfl⟩ := body_within proper bound (by grind) found
      exact ⟨c :: (b ++ closer :: w), rest, .nested inner body, by simp⟩
    · have outside (holds : interpolates = true) (same : c = '#') : input.head? ≠ some '{' :=
        fun head => begins ⟨holds, same, head⟩
      rw [bodyWidth_plain closes opens alone outside] at found
      obtain ⟨w, rest, body, rfl⟩ := body_within proper bound within found
      have outside (holds : interpolates = true) (same : c = '#') : w.head? ≠ some '{' :=
        fun head => outside holds same (by rw [List.head?_append, head, Option.some_or])
      exact ⟨c :: w, rest, .plain closes opens alone outside body, rfl⟩

private theorem region_within :
    ∀ bound, input.length < bound →
      bodyWidth (.region depth) outer width input = some last →
      ∃ w rest, Region w ∧ input = w ++ '}' :: rest
  | bound + 1, within, found => by
    rcases input with _ | ⟨c, input⟩
    · rw [bodyWidth_nil] at found
      cases found
    rw [List.length_cons, Nat.add_lt_add_iff_right] at within
    by_cases closes : c = '}'
    · subst closes
      exact ⟨[], input, .nil, rfl⟩
    by_cases alone : c = '\\'
    · subst alone
      rcases input with _ | ⟨c, input⟩
      · rw [bodyWidth_loneEscape] at found
        cases found
      · rw [bodyWidth_escape] at found
        obtain ⟨w, rest, region, rfl⟩ := region_within bound (by grind) found
        exact ⟨'\\' :: c :: w, rest, .escape c region, rfl⟩
    by_cases opens : c = '{'
    · subst opens
      rw [bodyWidth_openBrace] at found
      obtain ⟨i, input, inner, rfl⟩ := region_within bound within found
      rw [inner.passes, bodyWidth_closeBrace] at found
      obtain ⟨w, rest, region, rfl⟩ := region_within bound (by grind) found
      exact ⟨'{' :: (i ++ '}' :: w), rest, .braces inner region, by simp⟩
    by_cases quote : c ∈ quotes
    · rw [bodyWidth_quote quote] at found
      obtain ⟨b, input, inner, rfl⟩ := body_within (.quoted quote) bound within found
      rw [inner.passes (.quoted quote), bodyWidth_close (.quoted quote)] at found
      obtain ⟨w, rest, region, rfl⟩ := region_within bound (by grind) found
      exact ⟨c :: (b ++ c :: w), rest, .quoted quote inner region, by simp⟩
    · rw [bodyWidth_inRegion ⟨opens, closes⟩ quote alone] at found
      obtain ⟨w, rest, region, rfl⟩ := region_within bound within found
      exact ⟨c :: w, rest, .plain ⟨opens, closes⟩ quote alone region, rfl⟩

end

/-- What is taken up to a delimiter is a body, and every body in front of its delimiter is
taken. -/
theorem delimited_eq_some_iff (proper : Proper opener closer interpolates) {w closing : List Char} :
    delimited (.body opener closer interpolates 0) input = some (w, closing) ↔
      Body opener closer interpolates w ∧ closing = [closer] ∧ w ++ closing <+: input := by
  have taken {v : List Char} (body : Body opener closer interpolates v) (rest : List Char) :
      delimited (.body opener closer interpolates 0) (v ++ closer :: rest) =
        some (v, [closer]) := by
    rw [delimited, body.passes proper, bodyWidth_end proper]
    simp
  constructor
  · intro found
    obtain ⟨_, width, _⟩ := Option.map_eq_some_iff.mp found
    obtain ⟨v, rest, body, rfl⟩ := body_within proper _ (Nat.lt_succ_self _) width
    cases (taken body rest).symm.trans found
    exact ⟨body, rfl, rest, by simp⟩
  · rintro ⟨body, rfl, rest, rfl⟩
    simpa using taken body rest

end RubySyntax.Lexeme
