import Mathlib.Tactic.Linarith
import RubySyntax.Diagnostic.Template

/-! Arguments filled in one after the other, against all of them filled in at once. The two
agree after each argument exactly if none of them finds its placeholder at a place where the
template has none, made up by the text of the arguments before it. -/
namespace RubySyntax.Diagnostic

/-- At how many places of a text a needle stands. -/
def occurrences (needle : List Char) : List Char → Nat
  | [] => 0
  | c :: rest => (if needle.isPrefixOf (c :: rest) then 1 else 0) + occurrences needle rest

/-- The argument whose placeholder a text begins with, and its index. -/
def slot? (args : List (List Char)) (text : List Char) : Option (List Char × Nat) :=
  args.zipIdx.find? fun (_, index) => (placeholder index).isPrefixOf text

/-- Copies a template, but for the placeholders of arguments, in whose places the arguments
stand. While `skip` is positive the front of the text belongs to a placeholder. -/
def fillAtOnceFrom (args : List (List Char)) : Nat → List Char → List Char
  | _, [] => []
  | skip + 1, _ :: rest => fillAtOnceFrom args skip rest
  | 0, c :: rest =>
    match slot? args (c :: rest) with
    | some (arg, index) => arg ++ fillAtOnceFrom args ((placeholder index).length - 1) rest
    | none => c :: fillAtOnceFrom args 0 rest

/-- The template with its arguments filled in at once: their text is not read again. -/
def fillAtOnce (template : String) (args : List String) : String :=
  String.ofList (fillAtOnceFrom (args.map String.toList) 0 template.toList)

/-- A needle that opens a brace, and none behind its first character. So no two of its
places in a text overlap. -/
def Braced (needle : List Char) : Prop := ∃ tail, needle = '{' :: tail ∧ '{' ∉ tail

theorem braced_placeholder (index : Nat) : Braced (placeholder index) := by
  refine ⟨Nat.toDigits 10 index ++ ['}'], by simp [placeholder, toString, Nat.repr], ?_⟩
  intro member
  obtain digit | same := List.mem_append.mp member
  · exact absurd (Nat.isDigit_of_mem_toDigits (by decide) (by decide) digit) (by decide)
  · simp at same

/-- `out` is a text with `count` of the places of a needle replaced. -/
inductive Replaced (needle replacement : List Char) : Nat → List Char → List Char → Prop
  | nil : Replaced needle replacement 0 [] []
  | keep (c : Char) (rest : Replaced needle replacement count text out) :
      Replaced needle replacement count (c :: text) (c :: out)
  | swap (rest : Replaced needle replacement count text out) :
      Replaced needle replacement (count + 1) (needle ++ text) (replacement ++ out)

variable {needle replacement text rest out : List Char} {count fewer : Nat}

theorem isPrefixOf_eq_false (braced : Braced needle) {c : Char} (other : c ≠ '{') :
    needle.isPrefixOf (c :: rest) = false := by
  obtain ⟨tail, rfl, _⟩ := braced
  simp [List.isPrefixOf, Ne.symm other]

theorem isPrefixOf_append (needle rest : List Char) : needle.isPrefixOf (needle ++ rest) = true :=
  List.isPrefixOf_iff_prefix.mpr (List.prefix_append _ _)

theorem length_lt_of_needle (braced : Braced needle) (same : needle ++ rest = text) :
    rest.length < text.length := by
  obtain ⟨tail, rfl, _⟩ := braced
  rw [← same]
  simp only [List.cons_append, List.length_cons, List.length_append]
  omega

theorem occurrences_behind (braced : Braced needle) {front : List Char} (unbraced : '{' ∉ front)
    (rest : List Char) : occurrences needle (front ++ rest) = occurrences needle rest := by
  induction front with
  | nil => rfl
  | cons c front ih =>
    obtain ⟨other, unbraced⟩ := List.ne_and_not_mem_of_not_mem_cons unbraced
    rw [List.cons_append, occurrences, isPrefixOf_eq_false braced (Ne.symm other), ih unbraced]
    simp

theorem occurrences_needle (braced : Braced needle) (rest : List Char) :
    occurrences needle (needle ++ rest) = occurrences needle rest + 1 := by
  have here := isPrefixOf_append needle rest
  obtain ⟨tail, rfl, unbraced⟩ := braced
  rw [List.cons_append] at here ⊢
  rw [occurrences, here, occurrences_behind ⟨tail, rfl, unbraced⟩ unbraced, if_pos rfl, Nat.add_comm]

namespace Replaced

theorem append (front : List Char) (rest : Replaced needle replacement count text out) :
    Replaced needle replacement count (front ++ text) (front ++ out) := by
  induction front with
  | nil => exact rest
  | cons c front ih => exact ih.keep c

/-- A needle replaced by itself leaves the text. -/
theorem eq_self (replaced : Replaced needle needle count text out) : out = text := by
  induction replaced with
  | nil => rfl
  | keep c _ ih => rw [ih]
  | swap _ ih => rw [ih]

theorem le_occurrences (braced : Braced needle)
    (replaced : Replaced needle replacement count text out) :
    count ≤ occurrences needle text := by
  induction replaced with
  | nil => exact Nat.zero_le _
  | keep c _ ih => exact Nat.le_trans ih (Nat.le_add_left _ _)
  | swap _ ih =>
    rw [occurrences_needle braced]
    exact Nat.succ_le_succ ih

/-- Text without an opening brace is kept. -/
theorem of_unbraced (braced : Braced needle) {front : List Char} (unbraced : '{' ∉ front)
    (replaced : Replaced needle replacement count (front ++ rest) out) :
    ∃ behind, out = front ++ behind ∧ Replaced needle replacement count rest behind := by
  induction front generalizing out with
  | nil => exact ⟨out, rfl, replaced⟩
  | cons c front ih =>
    obtain ⟨other, unbraced⟩ := List.ne_and_not_mem_of_not_mem_cons unbraced
    obtain ⟨tail, rfl, _⟩ := id braced
    rw [List.cons_append] at replaced
    generalize same : c :: (front ++ rest) = text at replaced
    cases replaced with
    | nil => cases same
    | keep d replaced =>
      obtain ⟨rfl, rfl⟩ := List.cons.inj same
      obtain ⟨behind, rfl, left⟩ := ih unbraced replaced
      exact ⟨behind, rfl, left⟩
    | swap _ => exact absurd (List.cons.inj same).1 (Ne.symm other)

/-- At a place of the needle it is replaced, or kept as a whole. -/
theorem needle_cases (braced : Braced needle)
    (replaced : Replaced needle replacement count (needle ++ rest) out) :
    (∃ fewer behind, count = fewer + 1 ∧ out = replacement ++ behind ∧
      Replaced needle replacement fewer rest behind) ∨
    (∃ behind, out = needle ++ behind ∧ Replaced needle replacement count rest behind) := by
  obtain ⟨tail, same, unbraced⟩ := id braced
  generalize whole : needle ++ rest = text at replaced
  cases replaced with
  | nil =>
    rw [same] at whole
    cases whole
  | @swap fewer text behind left =>
    obtain rfl := List.append_cancel_left whole
    exact .inl ⟨fewer, behind, rfl, rfl, left⟩
  | keep c left =>
    rw [same, List.cons_append] at whole
    obtain ⟨rfl, rfl⟩ := List.cons.inj whole
    obtain ⟨behind, rfl, beyond⟩ := left.of_unbraced braced unbraced
    exact .inr ⟨behind, by rw [same]; rfl, beyond⟩

theorem length (replaced : Replaced needle replacement count text out) :
    out.length + count * needle.length = text.length + count * replacement.length := by
  induction replaced with
  | nil => simp
  | keep c _ ih =>
    simp only [List.length_cons]
    omega
  | swap _ ih =>
    simp only [List.length_append, Nat.succ_mul]
    omega

/-- A character at which the needle does not stand is kept. -/
theorem apart {c : Char} (other : needle.isPrefixOf (c :: text) = false)
    (replaced : Replaced needle replacement count (c :: text) out) :
    ∃ behind, out = c :: behind ∧ Replaced needle replacement count text behind := by
  generalize same : c :: text = whole at replaced
  cases replaced with
  | nil => cases same
  | keep d replaced =>
    obtain ⟨rfl, rfl⟩ := List.cons.inj same
    exact ⟨_, rfl, replaced⟩
  | swap _ =>
    rw [same, isPrefixOf_append] at other
    cases other

/-- Replacing at the same number of places gives the same text, where that is all of them. -/
theorem eq_of_all (braced : Braced needle)
    (first : Replaced needle replacement (occurrences needle text) text out)
    (second : Replaced needle replacement (occurrences needle text) text other) : out = other := by
  generalize all : occurrences needle text = count at first second
  induction first generalizing other with
  | nil =>
    generalize none : [] = text at second
    cases second with
    | nil => rfl
    | keep _ _ => cases none
  | @keep count text out c first ih =>
    have bound := first.le_occurrences braced
    rw [occurrences] at all
    cases here : needle.isPrefixOf (c :: text) with
    | false =>
      obtain ⟨_, rfl, left⟩ := second.apart here
      rw [ih (by simpa [here] using all) left]
    | true =>
      rw [here, if_pos rfl] at all
      omega
  | @swap count text out first ih =>
    obtain ⟨fewer, behind, same, rfl, left⟩ | ⟨behind, rfl, left⟩ := second.needle_cases braced
    · rw [occurrences_needle braced] at all
      obtain rfl : count = fewer := by omega
      rw [ih (by omega) left]
    · have bound := left.le_occurrences braced
      rw [occurrences_needle braced] at all
      omega

private theorem count_unique_of_length (braced : Braced needle) (other : replacement ≠ needle)
    (alike : replacement.length = needle.length)
    (first : Replaced needle replacement count text out)
    (second : Replaced needle replacement fewer text out) : count = fewer := by
  induction size : text.length using Nat.strongRecOn generalizing text out count fewer with
  | _ n ih =>
    cases text with
    | nil =>
      have bound := first.le_occurrences braced
      have bound' := second.le_occurrences braced
      rw [occurrences] at bound bound'
      omega
    | cons c text =>
      cases here : needle.isPrefixOf (c :: text) with
      | false =>
        obtain ⟨_, rfl, one⟩ := first.apart here
        obtain ⟨_, same, two⟩ := second.apart here
        obtain rfl := (List.cons.inj same).2
        exact ih text.length (by simp [← size]) one two rfl
      | true =>
        obtain ⟨rest, same⟩ := List.isPrefixOf_iff_prefix.mp here
        have shorter : rest.length < n := size ▸ length_lt_of_needle braced same
        rw [← same] at first second
        obtain ⟨_, behind, rfl, rfl, one⟩ | ⟨behind, rfl, one⟩ := first.needle_cases braced
        · obtain ⟨_, beyond, rfl, same, two⟩ | ⟨beyond, same, two⟩ := second.needle_cases braced
          · obtain rfl := List.append_cancel_left same
            rw [ih _ shorter one two rfl]
          · exact absurd (List.append_inj same alike).1 other
        · obtain ⟨_, beyond, rfl, same, two⟩ | ⟨beyond, same, two⟩ := second.needle_cases braced
          · exact absurd (List.append_inj same alike.symm).1.symm other
          · obtain rfl := List.append_cancel_left same
            exact ih _ shorter one two rfl

/-- Replacing at different numbers of places gives different texts, unless the needle is
replaced by itself. -/
theorem count_unique (braced : Braced needle) (other : replacement ≠ needle)
    (first : Replaced needle replacement count text out)
    (second : Replaced needle replacement fewer text out) : count = fewer := by
  by_cases alike : replacement.length = needle.length
  · exact count_unique_of_length braced other alike first second
  · -- Each replacement changes the length by as much.
    have sizes : count * ((needle.length : Int) - replacement.length) =
        fewer * ((needle.length : Int) - replacement.length) := by
      have first := congrArg (Nat.cast : Nat → Int) first.length
      have second := congrArg (Nat.cast : Nat → Int) second.length
      push_cast at first second
      linarith
    exact_mod_cast mul_right_cancel₀ (by omega) sizes

end Replaced

/-- While a placeholder is passed over nothing is replaced. -/
theorem replaceFrom_eq_drop (needle replacement : List Char) (skip : Nat) (text : List Char) :
    replaceFrom needle replacement skip text = replaceAll needle replacement (text.drop skip) := by
  induction text generalizing skip with
  | nil => cases skip <;> rfl
  | cons c text ih =>
    cases skip with
    | zero => rfl
    | succ skip => exact ih skip

theorem replaceAll_needle (braced : Braced needle) (replacement rest : List Char) :
    replaceAll needle replacement (needle ++ rest) =
      replacement ++ replaceAll needle replacement rest := by
  have here := isPrefixOf_append needle rest
  obtain ⟨tail, rfl, _⟩ := braced
  rw [List.cons_append] at here ⊢
  rw [replaceAll, replaceFrom, if_pos here, replaceFrom_eq_drop]
  simp

/-- Every place of the needle is replaced. -/
theorem replaced_replaceAll (braced : Braced needle) (replacement text : List Char) :
    Replaced needle replacement (occurrences needle text) text
      (replaceAll needle replacement text) := by
  induction size : text.length using Nat.strongRecOn generalizing text with
  | _ n ih =>
    cases text with
    | nil => exact .nil
    | cons c text =>
      cases here : needle.isPrefixOf (c :: text) with
      | false =>
        have rest := ih text.length (by simp [← size]) text rfl
        rw [occurrences, here, replaceAll, replaceFrom, here, if_neg Bool.false_ne_true,
          if_neg Bool.false_ne_true, Nat.zero_add]
        exact rest.keep c
      | true =>
        obtain ⟨rest, same⟩ := List.isPrefixOf_iff_prefix.mp here
        have shorter := length_lt_of_needle braced same
        rw [← same, occurrences_needle braced, replaceAll_needle braced]
        exact (ih rest.length (by omega) rest rfl).swap

/-- At one place of a text stands the placeholder of at most one argument. -/
theorem placeholder_unique {first second : Nat} (here : placeholder first <+: text)
    (there : placeholder second <+: text) : first = second := by
  have digits (index : Nat) (stands : placeholder index <+: text) :
      (text.drop 1).takeWhile (· != '}') = Nat.toDigits 10 index := by
    obtain ⟨rest, rfl⟩ := stands
    have noBrace : ∀ c ∈ Nat.toDigits 10 index, (c != '}') = true := by
      intro c member
      have digit : c.isDigit = true := Nat.isDigit_of_mem_toDigits (by decide) (by decide) member
      refine bne_iff_ne.mpr ?_
      rintro rfl
      cases digit
    have split : (placeholder index ++ rest).drop 1 = Nat.toDigits 10 index ++ '}' :: rest := by
      simp [placeholder, toString, Nat.repr]
    rw [split, List.takeWhile_append_of_pos noBrace]
    simp
  have same := (digits first here).symm.trans (digits second there)
  simpa [Nat.ofDigitChars_toDigits] using congrArg (Nat.ofDigitChars 10 · 0) same

theorem occurrences_other {first second : Nat} (other : first ≠ second) (rest : List Char) :
    occurrences (placeholder second) (placeholder first ++ rest) =
      occurrences (placeholder second) rest := by
  have apart : (placeholder second).isPrefixOf (placeholder first ++ rest) = false :=
    Bool.eq_false_iff.mpr fun there => other <|
      placeholder_unique (List.prefix_append _ _) (List.isPrefixOf_iff_prefix.mp there)
  obtain ⟨tail, same, unbraced⟩ := braced_placeholder first
  rw [same, List.cons_append] at apart ⊢
  rw [occurrences, apart, occurrences_behind (braced_placeholder second) unbraced,
    if_neg Bool.false_ne_true, Nat.zero_add]

theorem slot?_eq_some {args : List (List Char)} {arg : List Char} {index : Nat}
    (found : slot? args text = some (arg, index)) :
    index < args.length ∧ placeholder index <+: text := by
  have member := List.mem_zipIdx (List.mem_of_find?_eq_some found)
  have stands := List.find?_some found
  exact ⟨by simpa using member.2.1, List.isPrefixOf_iff_prefix.mp stands⟩

theorem slot?_of_other (args : List (List Char)) {c : Char} (other : c ≠ '{') (rest : List Char) :
    slot? args (c :: rest) = none :=
  List.find?_eq_none.mpr fun (_, index) _ =>
    Bool.eq_false_iff.mp (isPrefixOf_eq_false (braced_placeholder index) other)

theorem slot?_concat (args : List (List Char)) (arg text : List Char) :
    slot? (args ++ [arg]) text = (slot? args text).or
      (if (placeholder args.length).isPrefixOf text then some (arg, args.length) else none) := by
  unfold slot?
  rw [List.zipIdx_append, List.find?_append, Nat.zero_add]
  congr 1
  simp only [List.zipIdx_cons, List.zipIdx_nil, List.find?_cons, List.find?_nil]
  split
  · rename_i here
    rw [if_pos here]
  · rename_i other
    rw [other, if_neg Bool.false_ne_true]

theorem fillAtOnceFrom_eq_drop (args : List (List Char)) (skip : Nat) (text : List Char) :
    fillAtOnceFrom args skip text = fillAtOnceFrom args 0 (text.drop skip) := by
  induction text generalizing skip with
  | nil => cases skip <;> rfl
  | cons c text ih =>
    cases skip with
    | zero => rfl
    | succ skip => exact ih skip

theorem fillAtOnceFrom_slot {args : List (List Char)} {arg : List Char} {index : Nat}
    (found : slot? args (placeholder index ++ rest) = some (arg, index)) :
    fillAtOnceFrom args 0 (placeholder index ++ rest) = arg ++ fillAtOnceFrom args 0 rest := by
  obtain ⟨tail, same, _⟩ := braced_placeholder index
  rw [same, List.cons_append] at found ⊢
  rw [fillAtOnceFrom, found]
  dsimp only
  rw [fillAtOnceFrom_eq_drop, same]
  simp

theorem fillAtOnceFrom_none {args : List (List Char)} {c : Char}
    (none : slot? args (c :: text) = none) :
    fillAtOnceFrom args 0 (c :: text) = c :: fillAtOnceFrom args 0 text := by
  rw [fillAtOnceFrom, none]

/-- Text without an opening brace is copied. -/
theorem fillAtOnceFrom_behind (args : List (List Char)) {front : List Char} (unbraced : '{' ∉ front)
    (rest : List Char) :
    fillAtOnceFrom args 0 (front ++ rest) = front ++ fillAtOnceFrom args 0 rest := by
  induction front with
  | nil => rfl
  | cons c front ih =>
    obtain ⟨other, unbraced⟩ := List.ne_and_not_mem_of_not_mem_cons unbraced
    rw [List.cons_append, fillAtOnceFrom_none (slot?_of_other args (Ne.symm other) _), ih unbraced]
    rfl

/-- A placeholder whose argument is not given yet is copied. -/
theorem fillAtOnceFrom_placeholder {args : List (List Char)} {index : Nat}
    (none : slot? args (placeholder index ++ rest) = none) :
    fillAtOnceFrom args 0 (placeholder index ++ rest) =
      placeholder index ++ fillAtOnceFrom args 0 rest := by
  obtain ⟨tail, same, unbraced⟩ := braced_placeholder index
  rw [same, List.cons_append] at none ⊢
  rw [fillAtOnceFrom_none none, fillAtOnceFrom_behind args unbraced]
  rfl

theorem fillAtOnceFrom_nil (text : List Char) : fillAtOnceFrom [] 0 text = text := by
  induction text with
  | nil => rfl
  | cons c text ih => rw [fillAtOnceFrom_none rfl, ih]

/-- One argument more replaces its placeholder at all the places that the template has for it,
and nowhere else. -/
theorem replaced_fillAtOnceFrom (args : List (List Char)) (arg text : List Char) :
    Replaced (placeholder args.length) arg (occurrences (placeholder args.length) text)
      (fillAtOnceFrom args 0 text) (fillAtOnceFrom (args ++ [arg]) 0 text) := by
  have braced := braced_placeholder args.length
  induction size : text.length using Nat.strongRecOn generalizing text with
  | _ n ih =>
    cases text with
    | nil => exact .nil
    | cons c text =>
      have slot := slot?_concat args arg (c :: text)
      cases found : slot? args (c :: text) with
      | some filled =>
        obtain ⟨inserted, index⟩ := filled
        obtain ⟨inside, rest, same⟩ := slot?_eq_some found
        rw [found, Option.some_or] at slot
        have shorter := length_lt_of_needle (braced_placeholder index) same
        rw [← same] at found slot
        rw [← same, occurrences_other (Nat.ne_of_lt inside), fillAtOnceFrom_slot found,
          fillAtOnceFrom_slot slot]
        exact (ih rest.length (by omega) rest rfl).append inserted
      | none =>
        rw [found, Option.none_or] at slot
        cases here : (placeholder args.length).isPrefixOf (c :: text) with
        | true =>
          obtain ⟨rest, same⟩ := List.isPrefixOf_iff_prefix.mp here
          have shorter := length_lt_of_needle braced same
          rw [here, if_pos rfl, ← same] at slot
          rw [← same] at found
          rw [← same, occurrences_needle braced, fillAtOnceFrom_placeholder found,
            fillAtOnceFrom_slot slot]
          exact (ih rest.length (by omega) rest rfl).swap
        | false =>
          rw [here, if_neg Bool.false_ne_true] at slot
          rw [occurrences, here, if_neg Bool.false_ne_true, Nat.zero_add, fillAtOnceFrom_none found,
            fillAtOnceFrom_none slot]
          exact (ih text.length (by simp [← size]) text rfl).keep c

/-- The last argument is filled in over what those before it left. -/
theorem fillFrom_concat (index : Nat) (template : List Char) (args : List (List Char))
    (arg : List Char) :
    fillFrom index template (args ++ [arg]) =
      replaceAll (placeholder (index + args.length)) arg (fillFrom index template args) := by
  induction args generalizing index template with
  | nil => rfl
  | cons first args ih =>
    rw [List.cons_append, fillFrom, ih, fillFrom, List.length_cons, Nat.add_assoc, Nat.add_comm 1]

theorem fillFrom_take (template : List Char) {args : List (List Char)} {k : Nat}
    (inside : k < args.length) :
    fillFrom 0 template (args.take (k + 1)) =
      replaceAll (placeholder k) args[k] (fillFrom 0 template (args.take k)) := by
  rw [← List.take_append_getElem inside, fillFrom_concat,
    List.length_take_of_le (Nat.le_of_lt inside), Nat.zero_add]

theorem replaced_take (template : List Char) {args : List (List Char)} {k : Nat}
    (inside : k < args.length) :
    Replaced (placeholder k) args[k] (occurrences (placeholder k) template)
      (fillAtOnceFrom (args.take k) 0 template) (fillAtOnceFrom (args.take (k + 1)) 0 template) := by
  have replaced := replaced_fillAtOnceFrom (args.take k) args[k] template
  rwa [List.take_append_getElem inside, List.length_take_of_le (Nat.le_of_lt inside)] at replaced

theorem fillFrom_take_eq_iff (template : List Char) (args : List (List Char)) :
    (∀ k ≤ args.length,
        fillFrom 0 template (args.take k) = fillAtOnceFrom (args.take k) 0 template) ↔
      ∀ k (inside : k < args.length), args[k] = placeholder k ∨
        occurrences (placeholder k) (fillAtOnceFrom (args.take k) 0 template) =
          occurrences (placeholder k) template := by
  constructor
  · intro agrees k inside
    refine or_iff_not_imp_left.mpr fun other => ?_
    have next := agrees (k + 1) inside
    rw [fillFrom_take template inside, agrees k (Nat.le_of_lt inside)] at next
    have all := replaced_replaceAll (braced_placeholder k) args[k]
      (fillAtOnceFrom (args.take k) 0 template)
    rw [next] at all
    exact all.count_unique (braced_placeholder k) other (replaced_take template inside)
  · intro fits k within
    induction k with
    | zero => rw [List.take_zero, fillAtOnceFrom_nil]; rfl
    | succ k ih =>
      have same := replaced_take template within
      have all := replaced_replaceAll (braced_placeholder k) args[k]
        (fillAtOnceFrom (args.take k) 0 template)
      rw [fillFrom_take template within, ih (Nat.le_of_lt within)]
      obtain itself | untouched := fits k within
      · rw [itself] at all same ⊢
        rw [all.eq_self, same.eq_self]
      · rw [← untouched] at same
        exact all.eq_of_all (braced_placeholder k) same

/-- A single argument is filled in at once, whatever its text is. -/
theorem fill_single (template arg : String) : fill template [arg] = fillAtOnce template [arg] := by
  have agrees := (fillFrom_take_eq_iff template.toList [arg.toList]).mpr
    (by simp [fillAtOnceFrom_nil])
  exact congrArg String.ofList (agrees 1 (Nat.le_refl 1))

/-- Filling in the arguments one after the other gives, after each of them up to the last, what
filling them in at once gives, exactly if each of them finds its placeholder only where the
template has it, or is the text of this placeholder itself. -/
theorem fill_eq_fillAtOnce_iff (template : String) (args : List String) :
    (∀ k ≤ args.length, fill template (args.take k) = fillAtOnce template (args.take k)) ↔
      ∀ k (inside : k < args.length), args[k].toList = placeholder k ∨
        occurrences (placeholder k) (fillAtOnce template (args.take k)).toList =
          occurrences (placeholder k) template.toList := by
  have iff := fillFrom_take_eq_iff template.toList (args.map String.toList)
  simp only [List.length_map, ← List.map_take, List.getElem_map] at iff
  simpa only [fill, fillAtOnce, String.ofList_inj, String.toList_ofList] using iff

/-- The text of one argument can be a placeholder, and the next argument is then filled in
there. -/
theorem not_filled_at_once : ¬ ∀ template args, fill template args = fillAtOnce template args := by
  intro agrees
  have same := agrees "\x7b0\x7d\x7b1\x7d" ["\x7b1\x7d", "x"]
  exact absurd same (by decide)

end RubySyntax.Diagnostic
