import Mathlib.Algebra.GroupWithZero.Nat
import Mathlib.Data.List.Induction
import Mathlib.Data.List.Sort
import Mathlib.Data.String.Basic
import RubySyntax.Conformance

namespace RubySyntax.Conformance

/-- What the case expects of its source comes true. -/
def Case.IsMet (item : Case) : Prop :=
  item.expectation = .accept ↔ ∃ program, parse item.source = .ok program

theorem Outcome.passed_iff (item : Case) : (ofCase item).passed = true ↔ item.IsMet := by
  unfold passed ofCase Case.IsMet
  cases item.expectation <;> cases parse item.source <;> simp

instance (item : Case) : Decidable item.IsMet := decidable_of_iff _ (Outcome.passed_iff item)

theorem Outcome.passed_ofCase (item : Case) : (ofCase item).passed = decide item.IsMet := by
  rw [Bool.eq_iff_iff, passed_iff, decide_eq_true_iff]

namespace Categories

variable {categories : Categories} {category name : String} {passed : Bool} {tally : Tally}
  {entry : String × Tally}

theorem lookup_cons (first : String × Tally) (rest : Categories) (name : String) :
    List.lookup name (first :: rest) =
      if name = first.1 then some first.2 else rest.lookup name := by
  rw [List.lookup_cons]
  by_cases same : name = first.1
  · simp [same]
  · simp [same, beq_false_of_ne same]

/-- Each category stands once, behind those with smaller names. -/
def Ascending (categories : Categories) : Prop :=
  categories.Pairwise fun first second => first.1 < second.1

theorem mem_count (member : entry ∈ categories.count category passed) :
    entry.1 = category ∨ entry ∈ categories := by
  induction categories with
  | nil => exact .inl (congrArg Prod.fst (List.mem_singleton.mp member))
  | cons first rest ih =>
    obtain ⟨name, tally⟩ := first
    unfold count at member
    split at member
    · rename_i same
      rcases List.mem_cons.mp member with rfl | later
      · exact .inl same.symm
      · exact .inr (List.mem_cons_of_mem _ later)
    · split at member
      · rcases List.mem_cons.mp member with rfl | old
        · exact .inl rfl
        · exact .inr old
      · rcases List.mem_cons.mp member with rfl | later
        · exact .inr List.mem_cons_self
        · exact (ih later).imp_right (List.mem_cons_of_mem _)

/-- A new category is put in its place. -/
theorem Ascending.count (ascending : categories.Ascending) (category : String) (passed : Bool) :
    (categories.count category passed).Ascending := by
  induction categories with
  | nil => exact List.pairwise_singleton _ _
  | cons first rest ih =>
    obtain ⟨name, tally⟩ := first
    obtain ⟨smallest, ordered⟩ := List.pairwise_cons.mp ascending
    unfold Categories.count
    split
    · exact List.pairwise_cons.mpr ⟨smallest, ordered⟩
    · rename_i different
      split
      · rename_i less
        refine List.pairwise_cons.mpr ⟨fun entry member => ?_, ascending⟩
        rcases List.mem_cons.mp member with rfl | later
        · exact less
        · exact lt_trans less (smallest entry later)
      · rename_i notLess
        refine List.pairwise_cons.mpr ⟨fun entry member => ?_, ih ordered⟩
        rcases mem_count member with rfl | old
        · exact lt_of_le_of_ne (not_lt.mp notLess) (Ne.symm different)
        · exact smallest entry old

/-- The entries of ascending categories are what a look-up finds. -/
theorem Ascending.mem_iff (ascending : categories.Ascending) :
    (name, tally) ∈ categories ↔ categories.lookup name = some tally := by
  induction categories with
  | nil => simp
  | cons first rest ih =>
    obtain ⟨smallest, ordered⟩ := List.pairwise_cons.mp ascending
    rw [List.mem_cons, lookup_cons]
    by_cases same : name = first.1
    · rw [if_pos same]
      constructor
      · rintro (rfl | later)
        · rfl
        · exact absurd same (smallest _ later).ne'
      · intro found
        exact .inl (Prod.ext same (Option.some.inj found).symm)
    · have apart : (name, tally) ≠ first := fun equal => same (congrArg Prod.fst equal)
      rw [if_neg same, ← ih ordered]
      exact or_iff_right apart

/-- Ascending categories in which every look-up finds the same are the same. -/
theorem Ascending.eq_of_lookup {others : Categories} (ascending : categories.Ascending)
    (other : others.Ascending) (same : ∀ name, categories.lookup name = others.lookup name) :
    categories = others := by
  have irreflexive : Std.Irrefl fun first second : String × Tally => first.1 < second.1 :=
    ⟨fun entry => lt_irrefl entry.1⟩
  have antisymmetric : Std.Antisymm fun first second : String × Tally => first.1 < second.1 :=
    ⟨fun _ _ less greater => (lt_asymm less greater).elim⟩
  refine List.Pairwise.eq_of_mem_iff ascending other fun ⟨name, tally⟩ => ?_
  rw [ascending.mem_iff, other.mem_iff, same]

/-- Counting changes the tally of one category. -/
theorem Ascending.lookup_count (ascending : categories.Ascending) (category : String)
    (passed : Bool) (name : String) :
    (categories.count category passed).lookup name =
      if name = category then some (((categories.lookup name).getD {}).add passed)
      else categories.lookup name := by
  induction categories with
  | nil => simp [Categories.count, lookup_cons]
  | cons first rest ih =>
    obtain ⟨smallest, ordered⟩ := List.pairwise_cons.mp ascending
    obtain ⟨other, tally⟩ := first
    unfold Categories.count
    split
    · rename_i same
      subst same
      by_cases here : name = category <;> simp [lookup_cons, here]
    · rename_i different
      split
      · rename_i less
        -- every name behind is larger still, so the category is a new one
        have absent : List.lookup category ((other, tally) :: rest) = none := by
          rw [List.lookup_eq_none_iff]
          intro entry member
          rcases List.mem_cons.mp member with rfl | later
          · simpa using different
          · simpa using (lt_trans less (smallest entry later)).ne
        rw [lookup_cons]
        by_cases here : name = category
        · subst here
          rw [if_pos rfl, if_pos rfl, absent]
          rfl
        · rw [if_neg here, if_neg here]
      · rw [lookup_cons, lookup_cons, ih ordered]
        by_cases here : name = other
        · have apart : name ≠ category := fun same => different (same ▸ here)
          rw [if_pos here, if_pos here, if_neg apart]
        · rw [if_neg here, if_neg here]

/-- A sum over the tallies grows by what one more case adds to a tally. -/
theorem sum_count {measure : Tally → Nat} {gain : Nat} (nothing : measure {} = 0)
    (gains : ∀ tally : Tally, measure (tally.add passed) = measure tally + gain)
    (categories : Categories) (category : String) :
    ((categories.count category passed).map fun entry => measure entry.2).sum =
      (categories.map fun entry => measure entry.2).sum + gain := by
  induction categories with
  | nil => simp [count, gains, nothing]
  | cons first rest ih =>
    unfold count
    split
    · simp only [List.map_cons, List.sum_cons, gains]
      omega
    · split
      · simp only [List.map_cons, List.sum_cons, gains, nothing]
        omega
      · simp only [List.map_cons, List.sum_cons, ih]
        omega

end Categories

def tallyOf (name : String) (cases : List Case) : Tally where
  passed := cases.countP fun item => item.category = name ∧ item.IsMet
  total := cases.countP fun item => item.category = name

theorem tallyOf_concat (name : String) (cases : List Case) (item : Case) :
    tallyOf name (cases ++ [item]) =
      if item.category = name then (tallyOf name cases).add (decide item.IsMet)
      else tallyOf name cases := by
  by_cases same : item.category = name <;> by_cases met : item.IsMet <;>
    simp [tallyOf, Tally.add, List.countP_append, same, met]

theorem tallyOf_eq_empty {name : String} {cases : List Case}
    (absent : ¬ ∃ item ∈ cases, item.category = name) : tallyOf name cases = {} := by
  have passed : (cases.countP fun item => item.category = name ∧ item.IsMet) = 0 := by
    refine List.countP_eq_zero.mpr fun item member found => ?_
    exact absent ⟨item, member, (of_decide_eq_true found).1⟩
  have total : (cases.countP fun item => item.category = name) = 0 := by
    refine List.countP_eq_zero.mpr fun item member found => ?_
    exact absent ⟨item, member, of_decide_eq_true found⟩
  rw [tallyOf, passed, total]

/-- The categories that come up, each with its tally. -/
structure Counts (cases : List Case) (categories : Categories) : Prop where
  ascending : categories.Ascending
  lookup : ∀ name, categories.lookup name =
    if ∃ item ∈ cases, item.category = name then some (tallyOf name cases) else none

theorem counts_nil : Counts [] [] := ⟨List.Pairwise.nil, fun _ => rfl⟩

theorem Counts.getD_lookup {categories : Categories} (counts : Counts cases categories)
    (name : String) : (categories.lookup name).getD {} = tallyOf name cases := by
  rw [counts.lookup]
  split
  · rfl
  · rename_i absent
    exact (tallyOf_eq_empty absent).symm

theorem Counts.step {categories : Categories} (counts : Counts cases categories) (item : Case) :
    Counts (cases ++ [item]) (categories.count item.category (decide item.IsMet)) where
  ascending := counts.ascending.count _ _
  lookup name := by
    rw [counts.ascending.lookup_count, counts.getD_lookup, counts.lookup, tallyOf_concat]
    by_cases same : item.category = name
    · simp [same]
    · simp [same, Ne.symm same]

/-- The categories of a run, counted over the cases. -/
theorem categories_run (cases : List Case) : (run cases).categories =
    cases.foldl (fun (categories : Categories) item =>
      categories.count item.category (decide item.IsMet)) [] := by
  have counted : (run cases).categories = (cases.map Outcome.ofCase).foldl
      (fun (categories : Categories) outcome =>
        categories.count outcome.case.category outcome.passed) [] := rfl
  simp only [counted, List.foldl_map, Outcome.passed_ofCase]
  rfl

theorem categories_concat (cases : List Case) (item : Case) :
    (run (cases ++ [item])).categories =
      (run cases).categories.count item.category (decide item.IsMet) := by
  rw [categories_run, List.foldl_append, ← categories_run]
  rfl

theorem counts_run (cases : List Case) : Counts cases (run cases).categories := by
  induction cases using List.reverseRecOn with
  | nil => exact counts_nil
  | append_singleton cases item ih =>
    rw [categories_concat]
    exact ih.step item

theorem sum_totals (cases : List Case) :
    ((run cases).categories.map fun entry => entry.2.total).sum = cases.length := by
  induction cases using List.reverseRecOn with
  | nil => rfl
  | append_singleton cases item ih =>
    rw [categories_concat, Categories.sum_count rfl (fun _ => rfl), ih, List.length_append]
    rfl

theorem sum_passes (cases : List Case) :
    ((run cases).categories.map fun entry => entry.2.passed).sum =
      cases.countP fun item => item.IsMet := by
  induction cases using List.reverseRecOn with
  | nil => rfl
  | append_singleton cases item ih =>
    rw [categories_concat, Categories.sum_count rfl (fun _ => rfl), ih, List.countP_append]
    cases met : decide item.IsMet <;> simp [met]

/-- Those that passed are the cases that are met. -/
theorem passed_run (cases : List Case) :
    (run cases).passed = cases.countP fun item => item.IsMet := by
  rw [List.countP_eq_length_filter]
  show ((cases.map Outcome.ofCase).filter Outcome.passed).length = _
  rw [List.filter_map, List.length_map]
  congr 2
  exact funext Outcome.passed_ofCase

/-- The others are told of, in their order. -/
theorem failures_run (cases : List Case) : (run cases).failures =
    (cases.filter fun item => ¬ item.IsMet).map fun item => (Outcome.ofCase item).failureLine := by
  show ((cases.map Outcome.ofCase).filter fun outcome => !outcome.passed).map _ = _
  rw [List.filter_map, List.map_map]
  congr 2
  funext item
  simp [Outcome.passed_ofCase]

/-- The sums of a summary agree with each other, and with the cases that it sums up. -/
structure Summary.AddsUp (summary : Summary) (cases : List Case) : Prop where
  total : summary.total = cases.length
  passed : summary.passed = cases.countP fun item => item.IsMet
  within : summary.passed ≤ summary.total
  failed : summary.passed + summary.failed = summary.total
  /-- One line for each case that is not met, in the order of the cases. -/
  failures : summary.failures =
    (cases.filter fun item => ¬ item.IsMet).map fun item => (Outcome.ofCase item).failureLine
  listed : summary.failures.length = summary.failed
  totals : (summary.categories.map fun entry => entry.2.total).sum = summary.total
  passes : (summary.categories.map fun entry => entry.2.passed).sum = summary.passed
  distinct : (summary.categories.map Prod.fst).Nodup
  present : ∀ name, name ∈ summary.categories.map Prod.fst ↔ ∃ item ∈ cases, item.category = name
  tallies : ∀ entry ∈ summary.categories,
    entry.2 = tallyOf entry.1 cases ∧ entry.2.passed ≤ entry.2.total

theorem tallyOf_within (name : String) (cases : List Case) :
    (tallyOf name cases).passed ≤ (tallyOf name cases).total :=
  List.countP_mono_left fun _ _ found => decide_eq_true (of_decide_eq_true found).1

/-- An entry is the tally of a category that comes up. -/
theorem Counts.tally {categories : Categories} (counts : Counts cases categories)
    {entry : String × Tally} (member : entry ∈ categories) :
    (∃ item ∈ cases, item.category = entry.1) ∧ entry.2 = tallyOf entry.1 cases := by
  have found := counts.ascending.mem_iff.mp member
  rw [counts.lookup] at found
  split at found
  · exact ⟨‹_›, (Option.some.inj found).symm⟩
  · cases found

theorem Counts.present {categories : Categories} (counts : Counts cases categories)
    (name : String) :
    name ∈ categories.map Prod.fst ↔ ∃ item ∈ cases, item.category = name := by
  constructor
  · intro member
    obtain ⟨entry, counted, rfl⟩ := List.mem_map.mp member
    exact (counts.tally counted).1
  · intro some
    have found : categories.lookup name = Option.some (tallyOf name cases) := by
      rw [counts.lookup, if_pos some]
    exact List.mem_map.mpr ⟨_, counts.ascending.mem_iff.mpr found, rfl⟩

/-- The sums of a run add up, and its categories do not depend on the order of the cases. -/
theorem run_addsUp (cases : List Case) :
    (run cases).AddsUp cases ∧
      ∀ others : List Case, others.Perm cases → (run others).categories = (run cases).categories := by
  have counts := counts_run cases
  have total : (run cases).total = cases.length := List.length_map _
  have passed := passed_run cases
  have within : (run cases).passed ≤ (run cases).total := by
    rw [passed, total]
    exact List.countP_le_length
  have failed : (run cases).failed = (run cases).total - (run cases).passed := rfl
  constructor
  · refine
      { total, passed, within
        failed := by omega
        failures := failures_run cases
        listed := ?_
        totals := (sum_totals cases).trans total.symm
        passes := (sum_passes cases).trans passed.symm
        distinct := ?_
        present := counts.present
        tallies := fun entry member => ?_ }
    · have parts := cases.length_eq_countP_add_countP fun item => decide item.IsMet
      rw [failures_run, List.length_map, ← List.countP_eq_length_filter, failed, total, passed]
      simp only [decide_eq_true_eq] at parts
      omega
    · exact List.pairwise_map.mpr (counts.ascending.imp fun less => less.ne)
    · have own := (counts.tally member).2
      exact ⟨own, own ▸ tallyOf_within entry.1 cases⟩
  · intro others same
    have other := counts_run others
    refine other.ascending.eq_of_lookup counts.ascending fun name => ?_
    rw [other.lookup, counts.lookup]
    simp only [tallyOf, same.countP_eq, same.mem_iff]

/-- A category that comes up twice, in either order. -/
theorem run_addsUp_swapped :
    let first : Case := ⟨"integer", "literals", "5", .accept⟩
    let second : Case := ⟨"missing separator", "literals", "5 5", .accept⟩
    [second, first].Perm [first, second] ∧ (run [first, second]).AddsUp [first, second] ∧
      (run [second, first]).categories = (run [first, second]).categories :=
  ⟨.swap _ _ _, (run_addsUp _).1, (run_addsUp _).2 _ (.swap _ _ _)⟩

end RubySyntax.Conformance
