import RubySyntax.Proofs.Lexeme.Heredoc

/-! Slices of a source by the offsets of its bytes. A slice is refused unless its bounds
are in order, within the source, and between two characters. -/
namespace RubySyntax.Bytes

open Text (byteLength byteLength_append byteLength_cons)
open Lexeme (dropBytes? dropBytes?_append)

variable {source text : List Char} {offset first stop : Nat}

/-- The first `count` bytes of a text, if they end between two characters. -/
def takeBytes? : Nat → List Char → Option (List Char)
  | 0, _ => some []
  | _ + 1, [] => none
  | count + 1, c :: text =>
    if c.utf8Size ≤ count + 1 then (takeBytes? (count + 1 - c.utf8Size) text).map (c :: ·)
    else none

/-- The text between two offsets. -/
def slice (source : List Char) (first stop : Nat) : Option (List Char) :=
  if first ≤ stop then (dropBytes? first source).bind (takeBytes? (stop - first)) else none

/-- The first line feed at an offset or behind it, or else the end. -/
def lineEndFrom (source : List Char) (offset : Nat) : Option Nat :=
  (slice source offset (byteLength source)).map fun rest =>
    offset + byteLength (rest.takeWhile fun c => !Text.isLineBreak c)

/-- The offset stands between two characters of the source, or at one of its ends. -/
def IsBoundary (source : List Char) (offset : Nat) : Prop :=
  ∃ front back, source = front ++ back ∧ offset = byteLength front

theorem IsBoundary.le (boundary : IsBoundary source offset) : offset ≤ byteLength source := by
  obtain ⟨front, back, rfl, rfl⟩ := boundary
  rw [byteLength_append]
  exact Nat.le_add_right _ _

theorem takeBytes?_append (front back : List Char) :
    takeBytes? (byteLength front) (front ++ back) = some front := by
  induction front with
  | nil => cases back <;> rfl
  | cons c front ih =>
    have wide := Char.utf8Size_pos c
    rw [byteLength_cons, List.cons_append]
    obtain ⟨count, same⟩ : ∃ count, c.utf8Size + byteLength front = count + 1 :=
      ⟨c.utf8Size + byteLength front - 1, by omega⟩
    have left : count + 1 - c.utf8Size = byteLength front := by omega
    rw [same, takeBytes?, if_pos (by omega), left, ih]
    rfl

theorem dropBytes?_eq_some {count : Nat} (found : dropBytes? count source = some text) :
    ∃ front, source = front ++ text ∧ count = byteLength front := by
  fun_induction dropBytes? count source with
  | case1 source =>
    cases found
    exact ⟨[], rfl, rfl⟩
  | case2 count => cases found
  | case3 count c rest fits ih =>
    obtain ⟨front, rfl, left⟩ := ih found
    refine ⟨c :: front, rfl, ?_⟩
    rw [byteLength_cons]
    omega
  | case4 count c rest wide => cases found

theorem takeBytes?_eq_some {count : Nat} (found : takeBytes? count source = some text) :
    ∃ back, source = text ++ back ∧ count = byteLength text := by
  fun_induction takeBytes? count source generalizing text with
  | case1 source =>
    cases found
    exact ⟨source, rfl, rfl⟩
  | case2 count => cases found
  | case3 count c rest fits ih =>
    obtain ⟨more, taken, rfl⟩ := Option.map_eq_some_iff.mp found
    obtain ⟨back, rfl, left⟩ := ih taken
    refine ⟨back, rfl, ?_⟩
    rw [byteLength_cons]
    omega
  | case4 count c rest wide => cases found

/-- A slice is what stands between its bounds. -/
theorem slice_eq_some_iff : slice source first stop = some text ↔
    ∃ front back, source = front ++ text ++ back ∧ first = byteLength front ∧
      stop = byteLength (front ++ text) := by
  unfold slice
  constructor
  · intro found
    split at found
    · rename_i ordered
      obtain ⟨rest, dropped, taken⟩ := Option.bind_eq_some_iff.mp found
      obtain ⟨front, rfl, lower⟩ := dropBytes?_eq_some dropped
      obtain ⟨back, rfl, upper⟩ := takeBytes?_eq_some taken
      refine ⟨front, back, (List.append_assoc _ _ _).symm, lower, ?_⟩
      rw [byteLength_append]
      omega
    · cases found
  · rintro ⟨front, back, rfl, rfl, rfl⟩
    have size : byteLength (front ++ text) - byteLength front = byteLength text := by
      rw [byteLength_append, Nat.add_sub_cancel_left]
    rw [if_pos (by simp), List.append_assoc, dropBytes?_append, Option.bind_some, size,
      takeBytes?_append]

theorem slice_append (front text back : List Char) :
    slice (front ++ text ++ back) (byteLength front) (byteLength (front ++ text)) = some text :=
  slice_eq_some_iff.mpr ⟨front, back, rfl, rfl, rfl⟩

theorem slice_end (front back : List Char) :
    slice (front ++ back) (byteLength front) (byteLength (front ++ back)) = some back := by
  simpa using slice_append front back []

/-- A slice is taken where its bounds are boundaries in order, and nowhere else. -/
theorem slice_isSome_iff : (slice source first stop).isSome = true ↔
    first ≤ stop ∧ stop ≤ byteLength source ∧ IsBoundary source first ∧ IsBoundary source stop := by
  constructor
  · intro found
    obtain ⟨text, found⟩ := Option.isSome_iff_exists.mp found
    obtain ⟨front, back, rfl, rfl, rfl⟩ := slice_eq_some_iff.mp found
    have upper : IsBoundary (front ++ text ++ back) (byteLength (front ++ text)) :=
      ⟨front ++ text, back, rfl, rfl⟩
    exact ⟨by simp, upper.le, ⟨front, text ++ back, List.append_assoc _ _ _, rfl⟩, upper⟩
  · rintro ⟨ordered, _, ⟨front, rest, rfl, rfl⟩, ⟨upto, back, same, rfl⟩⟩
    obtain ⟨text, rfl⟩ : front <+: upto := by
      obtain ⟨text, rfl, _⟩ | ⟨text, rfl, _⟩ := List.append_eq_append_iff.mp same
      · exact List.prefix_append _ _
      · have empty : text = [] := by
          cases text with
          | nil => rfl
          | cons c text =>
            have wide := Char.utf8Size_pos c
            rw [byteLength_append, byteLength_cons] at ordered
            omega
        exact List.prefix_iff_eq_append.mpr (by simp [empty])
    simp only [same, slice_append, Option.isSome_some]

theorem lineEndFrom_append (front back : List Char) :
    lineEndFrom (front ++ back) (byteLength front) =
      some (byteLength front + byteLength (back.takeWhile fun c => !Text.isLineBreak c)) := by
  rw [lineEndFrom, slice_end]
  rfl

end RubySyntax.Bytes
