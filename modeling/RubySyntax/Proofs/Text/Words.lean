import RubySyntax.Text.Trim

namespace RubySyntax.Text

variable {α β : Type} {separates : α → Bool} {xs ys : List α}

/-- The maximal runs without a separator, in order. -/
def runs (separates : α → Bool) (xs : List α) : List (List α) :=
  (xs.splitOnP separates).filter fun run => !run.isEmpty

theorem wordsFrom_eq (word cs : List Char) : wordsFrom word cs =
    (List.splitOnPPrepend isWhiteSpace cs word).filter fun run => !run.isEmpty := by
  induction cs generalizing word with
  | nil => cases word <;> simp [wordsFrom]
  | cons c rest ih =>
    rw [wordsFrom, List.splitOnPPrepend_cons_eq_if, ih, ih, List.splitOnPPrepend_nil_right]
    split
    · cases word <;> simp
    · rfl

theorem words_eq_runs (cs : List Char) : words cs = runs isWhiteSpace cs := wordsFrom_eq [] cs

/-- A separator closes a piece, and any other element goes on with the first one. -/
theorem splitOnP_cons (separates : α → Bool) (x : α) (xs : List α) :
    (separates x = true ∧ (x :: xs).splitOnP separates = [] :: xs.splitOnP separates) ∨
      separates x = false ∧ ∃ first others, xs.splitOnP separates = first :: others ∧
        (x :: xs).splitOnP separates = (x :: first) :: others := by
  obtain ⟨first, others, split⟩ := List.exists_cons_of_ne_nil (List.splitOnP_ne_nil separates xs)
  rw [List.splitOnP_cons_eq_if_modifyHead, split]
  cases separates x with
  | true => exact .inl ⟨rfl, rfl⟩
  | false => exact .inr ⟨rfl, first, others, rfl, rfl⟩

theorem not_separates_of_splitOnP (separates : α → Bool) (xs : List α) :
    ∀ piece ∈ xs.splitOnP separates, ∀ x ∈ piece, separates x = false := by
  induction xs with
  | nil => simp
  | cons x xs ih =>
    obtain ⟨_, same⟩ | ⟨other, first, others, split, same⟩ := splitOnP_cons separates x xs
    · rw [same]
      exact List.forall_mem_cons.mpr ⟨by simp, ih⟩
    · rw [split, List.forall_mem_cons] at ih
      rw [same]
      exact List.forall_mem_cons.mpr ⟨List.forall_mem_cons.mpr ⟨other, ih.1⟩, ih.2⟩

theorem mem_splitOnP (member : x ∈ xs) (other : separates x = false) :
    ∃ piece ∈ xs.splitOnP separates, x ∈ piece := by
  induction xs with
  | nil => cases member
  | cons y xs ih =>
    obtain ⟨separator, same⟩ | ⟨_, first, others, split, same⟩ := splitOnP_cons separates y xs
    · have apart : x ≠ y := by
        rintro rfl
        rw [separator] at other
        cases other
      obtain ⟨piece, among, within⟩ := ih (List.mem_of_ne_of_mem apart member)
      exact ⟨piece, same ▸ List.mem_cons_of_mem _ among, within⟩
    · rw [same]
      rcases List.mem_cons.mp member with rfl | later
      · exact ⟨_, List.mem_cons_self, List.mem_cons_self⟩
      · obtain ⟨piece, among, within⟩ := ih later
        rw [split] at among
        rcases List.mem_cons.mp among with rfl | among
        · exact ⟨_, List.mem_cons_self, List.mem_cons_of_mem _ within⟩
        · exact ⟨piece, List.mem_cons_of_mem _ among, within⟩

/-- No run has a separator in it. -/
theorem not_separates_of_mem_runs (member : run ∈ runs separates xs) :
    ∀ x ∈ run, separates x = false :=
  not_separates_of_splitOnP separates xs run (List.mem_filter.mp member).1

/-- Whatever is no separator stands in a run. -/
theorem mem_runs (member : x ∈ xs) (other : separates x = false) :
    ∃ run ∈ runs separates xs, x ∈ run := by
  obtain ⟨piece, among, within⟩ := mem_splitOnP member other
  exact ⟨piece, List.mem_filter.mpr ⟨among, by simpa using List.ne_nil_of_mem within⟩, within⟩

/-- Elements that are no separators go on with the first piece of what follows them. -/
theorem splitOnP_append {others : List (List α)} (none : ∀ x ∈ xs, separates x = false)
    (split : ys.splitOnP separates = first :: others) :
    (xs ++ ys).splitOnP separates = (xs ++ first) :: others := by
  induction xs with
  | nil => exact split
  | cons x xs ih =>
    rw [List.forall_mem_cons] at none
    rw [List.cons_append, List.splitOnP_cons_eq_if_modifyHead, none.1, ih none.2]
    rfl

section parts

variable {chars : β → List α} {parts : List β} {splits : β → Bool}

/-- A text is split like its parts, where those that split it are separators and the others
have none in them. -/
theorem splitOnP_flatMap
    (alone : ∀ part ∈ parts, splits part = true → ∃ x, chars part = [x] ∧ separates x = true)
    (whole : ∀ part ∈ parts, splits part = false → ∀ x ∈ chars part, separates x = false) :
    (parts.flatMap chars).splitOnP separates = (parts.splitOnP splits).map (List.flatMap chars) := by
  induction parts with
  | nil => rfl
  | cons part parts ih =>
    rw [List.forall_mem_cons] at alone whole
    have rest := ih alone.2 whole.2
    rw [List.flatMap_cons]
    obtain ⟨separator, same⟩ | ⟨other, first, others, split, same⟩ := splitOnP_cons splits part parts
    · obtain ⟨x, single, separates⟩ := alone.1 separator
      rw [same, single, List.singleton_append, List.splitOnP_cons_eq_if_modifyHead, if_pos separates,
        rest]
      rfl
    · rw [split] at rest
      rw [same, splitOnP_append (whole.1 other) rest]
      rfl

/-- So a text has the runs of its parts. -/
theorem runs_flatMap (some : ∀ part, chars part ≠ [])
    (alone : ∀ part ∈ parts, splits part = true → ∃ x, chars part = [x] ∧ separates x = true)
    (whole : ∀ part ∈ parts, splits part = false → ∀ x ∈ chars part, separates x = false) :
    runs separates (parts.flatMap chars) = (runs splits parts).map (List.flatMap chars) := by
  have kept : (fun run : List α => !run.isEmpty) ∘ List.flatMap chars =
      fun run : List β => !run.isEmpty := by
    funext run
    cases run with
    | nil => rfl
    | cons part run => simp [some part]
  unfold runs
  rw [splitOnP_flatMap alone whole, List.filter_map, kept]

end parts

end RubySyntax.Text
