import RubySyntax.Proofs.Lexeme.Body
import RubySyntax.Proofs.Text.Words

/-! Bodies in parts. A body whose regions are interpolated is divided into them and into the
characters between them, in one way only; white space between them, and not the white space
in them, is what a list of words is to be split at. -/
namespace RubySyntax.Lexeme

open Text

/-- A part of a body: an interpolated region, or a character outside of all of them. -/
inductive Part
  | single (c : Char)
  | region (inner : List Char)

namespace Part

def chars : Part → List Char
  | single c => [c]
  | region inner => '#' :: '{' :: (inner ++ ['}'])

/-- White space outside of the regions separates words. -/
def separates : Part → Bool
  | single c => isWhiteSpace c
  | region _ => false

end Part

/-- The parts of a body with interpolated regions, those in nested delimiters included. -/
inductive Divides : Option Char → Char → List Char → List Part → Prop
  | nil : Divides opener closer [] []
  | escape (c : Char) (rest : Divides opener closer w parts) :
      Divides opener closer ('\\' :: c :: w) (.single '\\' :: .single c :: parts)
  | region (inner : Region i) (rest : Divides opener closer w parts) :
      Divides opener closer ('#' :: '{' :: (i ++ '}' :: w)) (.region i :: parts)
  | nested (inner : Divides (some opener) closer b more)
      (rest : Divides (some opener) closer w parts) :
      Divides (some opener) closer (opener :: (b ++ closer :: w))
        (.single opener :: (more ++ .single closer :: parts))
  | plain (stays : c ≠ closer) (deepens : some c ≠ opener) (alone : c ≠ '\\')
      (outside : c = '#' → w.head? ≠ some '{') (rest : Divides opener closer w parts) :
      Divides opener closer (c :: w) (.single c :: parts)

/-- The words of a list: the runs of parts that no white space outside of the regions
separates. -/
def wholeWords (parts : List Part) : List (List Char) :=
  (runs Part.separates parts).map (List.flatMap Part.chars)

/-- No region has white space in it. -/
def Unspaced (parts : List Part) : Prop :=
  ∀ inner, Part.region inner ∈ parts → ∀ c ∈ inner, isWhiteSpace c = false

variable {opener : Option Char} {closer : Char} {body : List Char} {parts others : List Part}

/-- The parts are what the body is written of. -/
theorem Divides.flatMap_chars (divides : Divides opener closer body parts) :
    parts.flatMap Part.chars = body := by
  induction divides with
  | nil => rfl
  | escape c _ ih => simp [Part.chars, ih]
  | region _ _ ih => simp [Part.chars, ih]
  | nested _ _ inner rest => simp [Part.chars, inner, rest]
  | plain _ _ _ _ _ ih => simp [Part.chars, ih]

theorem Divides.isBody (divides : Divides opener closer body parts) :
    Body opener closer true body := by
  induction divides with
  | nil => exact .nil
  | escape c _ ih => exact .escape c ih
  | region inner _ ih => exact .region inner ih
  | nested _ _ inner rest => exact .nested inner rest
  | plain stays deepens alone outside _ ih => exact .plain stays deepens alone (fun _ => outside) ih

/-- Every body has parts. -/
theorem Body.divides : ∀ {opener : Option Char} {interpolates : Bool} {body : List Char},
    Body opener closer interpolates body → interpolates = true →
      ∃ parts, Divides opener closer body parts
  | _, _, _, .nil, _ => ⟨_, .nil⟩
  | _, _, _, .escape c rest, holds => (rest.divides holds).elim fun _ divided => ⟨_, .escape c divided⟩
  | _, _, _, .region inner rest, holds =>
    (rest.divides holds).elim fun _ divided => ⟨_, .region inner divided⟩
  | _, _, _, .nested inner rest, holds =>
    (inner.divides holds).elim fun _ within =>
      (rest.divides holds).elim fun _ divided => ⟨_, .nested within divided⟩
  | _, _, _, .plain stays deepens alone outside rest, holds =>
    (rest.divides holds).elim fun _ divided =>
      ⟨_, .plain stays deepens alone (outside holds) divided⟩

/-- A region ends at one brace only. -/
theorem Region.unique {i j v w : List Char} (region : Region i) (other : Region j)
    (same : i ++ '}' :: w = j ++ '}' :: v) : i = j := by
  have width {i w : List Char} (region : Region i) :
      bodyWidth (.region 0) [] 0 (i ++ '}' :: w) = some i.length := by
    rw [region.passes, bodyWidth_move (by decide) (fun absurd => by cases absurd)]
    simp [Frame.move]
  have lengths := (width region).symm.trans ((congrArg _ same).trans (width other))
  exact (List.append_inj same (Option.some.inj lengths)).1

/-- A body ends at one delimiter only. -/
theorem Body.unique (proper : Proper opener closer interpolates) {b v w : List Char}
    (inner : Body opener closer interpolates body) (other : Body opener closer interpolates b)
    (same : body ++ closer :: w = b ++ closer :: v) : body = b := by
  have width {b w : List Char} (inner : Body opener closer interpolates b) :
      bodyWidth (.body opener closer interpolates 0) [] 0 (b ++ closer :: w) = some b.length := by
    rw [inner.passes proper, bodyWidth_end proper, Nat.zero_add]
  have lengths := (width inner).symm.trans ((congrArg _ same).trans (width other))
  exact (List.append_inj same (Option.some.inj lengths)).1

/-- A body has no other parts. -/
theorem Divides.unique {other : List Char} (divides : Divides opener closer body parts)
    (again : Divides opener closer other others) (same : body = other)
    (proper : Proper opener closer true) : parts = others := by
  have begins : opener ≠ some '#' := (proper.outside rfl).2.2
  induction divides generalizing other others with
  | nil =>
    cases again with
    | nil => rfl
    | _ => cases same
  | escape c _ ih =>
    cases again with
    | escape d more =>
      obtain ⟨rfl, rest⟩ := List.cons.inj (List.cons.inj same).2
      rw [ih more rest proper begins]
    | nested _ _ => exact absurd (congrArg some (List.cons.inj same).1.symm) proper.opens
    | plain _ _ alone _ _ => exact absurd (List.cons.inj same).1.symm alone
    | _ => cases same
  | region region _ ih =>
    cases again with
    | region inner more =>
      have here := (List.cons.inj (List.cons.inj same).2).2
      obtain rfl := region.unique inner here
      obtain rest := (List.cons.inj (List.append_cancel_left here)).2
      rw [ih more rest proper begins]
    | nested _ _ => exact absurd (congrArg some (List.cons.inj same).1.symm) begins
    | plain _ _ _ outside _ =>
      obtain ⟨rfl, rest⟩ := List.cons.inj same
      exact absurd (congrArg List.head? rest).symm (outside rfl)
    | _ => cases same
  | nested inner _ within ih =>
    cases again with
    | nil => cases same
    | escape _ _ => exact absurd (congrArg some (List.cons.inj same).1) proper.opens
    | region _ _ => exact absurd (congrArg some (List.cons.inj same).1) begins
    | nested inner' more =>
      have here := (List.cons.inj same).2
      have whole := inner.isBody.unique proper inner'.isBody here
      rw [whole] at here
      have rest := (List.cons.inj (List.append_cancel_left here)).2
      rw [within inner' whole proper begins, ih more rest proper begins]
    | plain _ deepens _ _ _ => exact absurd (congrArg some (List.cons.inj same).1.symm) deepens
  | plain stays deepens alone outside _ ih =>
    cases again with
    | nil => cases same
    | escape _ _ => exact absurd (List.cons.inj same).1 alone
    | region _ _ =>
      obtain ⟨rfl, rest⟩ := List.cons.inj same
      exact absurd (congrArg List.head? rest) (outside rfl)
    | nested _ _ => exact absurd (congrArg some (List.cons.inj same).1) deepens
    | plain _ _ _ _ more =>
      obtain ⟨rfl, rest⟩ := List.cons.inj same
      rw [ih more rest proper begins]

/-- A body is split into the words of a list exactly if no white space is in its regions. -/
theorem words_eq_wholeWords_iff (divides : Divides opener closer body parts) :
    words body = wholeWords parts ↔ Unspaced parts := by
  rw [words_eq_runs, ← divides.flatMap_chars]
  unfold wholeWords
  constructor
  · intro same inner member c within
    -- The region stands in a whole word, which is a run without white space.
    have outside : Part.separates (.region inner) = false := rfl
    obtain ⟨run, among, inRun⟩ := mem_runs member outside
    have word : run.flatMap Part.chars ∈ runs isWhiteSpace (parts.flatMap Part.chars) :=
      same ▸ List.mem_map_of_mem among
    have written : c ∈ Part.chars (.region inner) := by simp [Part.chars, within]
    exact not_separates_of_mem_runs word c (List.mem_flatMap.mpr ⟨_, inRun, written⟩)
  · intro unspaced
    refine runs_flatMap ?_ ?_ ?_
    · intro part
      cases part <;> simp [Part.chars]
    · intro part _ separates
      cases part with
      | single c => exact ⟨c, rfl, separates⟩
      | region inner => cases separates
    · intro part member other
      cases part with
      | single c => exact List.forall_mem_singleton.mpr other
      | region inner =>
        have plain := unspaced inner member
        simp only [Part.chars, List.forall_mem_cons, List.forall_mem_append]
        exact ⟨rfl, rfl, plain, rfl, by simp⟩

end RubySyntax.Lexeme
