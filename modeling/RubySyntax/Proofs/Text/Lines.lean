import Mathlib.Data.List.Pairwise
import RubySyntax.Proofs.Bytes.Slice
import RubySyntax.Text.Lines

/-! Lines and columns against the bytes of the source. The line of an offset is the number of
line feeds among the bytes in front of it, and its column the number of characters that start
among those of them that stand behind the last line feed. -/
namespace RubySyntax.Text

def bytesOf (source : String) : List UInt8 := source.toUTF8.data.toList

def startsChar (byte : UInt8) : Bool := decide byte.IsUTF8FirstByte

/-- The characters that start before an offset. -/
def charsBefore : Nat → List Char → List Char
  | 0, _ => []
  | _ + 1, [] => []
  | offset + 1, c :: rest => c :: charsBefore (offset + 1 - c.utf8Size) rest

/-- What stands behind the last element without a property. -/
def behindLast {α : Type} (holds : α → Bool) (items : List α) : List α :=
  (items.reverse.takeWhile holds).reverse

variable {α : Type} {holds : α → Bool} {c : Char} {chars rest : List Char} {offset : Nat}

theorem bytesOf_eq (source : String) :
    bytesOf source = source.toList.flatMap String.utf8EncodeChar := by
  conv => lhs; rw [bytesOf, String.toUTF8_eq_toByteArray, ← String.ofList_toList (s := source)]
  rw [String.toByteArray_ofList]
  exact List.toList_data_toByteArray

theorem length_encoded (chars : List Char) :
    (chars.flatMap String.utf8EncodeChar).length = byteLength chars := by
  induction chars with
  | nil => rfl
  | cons c rest ih =>
    rw [List.flatMap_cons, List.length_append, ih, String.length_utf8EncodeChar]
    rfl

/-- Only the first byte of a character starts it. -/
theorem encoded_first (c : Char) : ∃ first others, String.utf8EncodeChar c = first :: others ∧
    startsChar first = true ∧ ∀ byte ∈ others, startsChar byte = false := by
  have first (i : Nat) (inside : i < (String.utf8EncodeChar c).length) :
      startsChar (String.utf8EncodeChar c)[i] = decide (i = 0) :=
    decide_eq_decide.mpr UInt8.isUTF8FirstByte_getElem_utf8EncodeChar
  cases encoded : String.utf8EncodeChar c with
  | nil =>
    have size := String.length_utf8EncodeChar c
    have wide := c.utf8Size_pos
    rw [encoded, List.length_nil] at size
    omega
  | cons byte others =>
    simp only [encoded] at first
    refine ⟨byte, others, rfl, first 0 (Nat.succ_pos _), fun other member => ?_⟩
    obtain ⟨i, inside, rfl⟩ := List.mem_iff_getElem.mp member
    exact first (i + 1) (Nat.succ_lt_succ inside)

theorem encoded_lineFeed : String.utf8EncodeChar '\n' = ['\n'.toUInt8] := by decide

/-- No other character has the byte of a line feed in it. -/
theorem lineFeed_mem_encoded (member : '\n'.toUInt8 ∈ String.utf8EncodeChar c) : c = '\n' := by
  have code {n : Nat} (small : n < 256) (same : '\n'.toUInt8 = UInt8.ofNat n) : n = 10 := by
    have same := congrArg UInt8.toNat same
    rw [UInt8.toNat_ofNat_of_lt' small] at same
    exact same.symm
  have value : c.val.toNat = 10 := by
    unfold String.utf8EncodeChar at member
    dsimp only at member
    split_ifs at member with one two three
    · exact code (by omega) (List.mem_singleton.mp member)
    · simp only [List.mem_cons, List.not_mem_nil, or_false] at member
      rcases member with same | same
      · have := code (by omega) same
        omega
      · have := code (by omega) same
        omega
    · simp only [List.mem_cons, List.not_mem_nil, or_false] at member
      rcases member with same | same | same <;> have := code (by omega) same <;> omega
    · simp only [List.mem_cons, List.not_mem_nil, or_false] at member
      rcases member with same | same | same | same <;> have := code (by omega) same <;> omega
  exact Char.ext (UInt32.toNat_inj.mp value)

theorem behindLast_append (front back : List α) : behindLast holds (front ++ back) =
    if back.all holds then behindLast holds front ++ back else behindLast holds back := by
  unfold behindLast
  rw [List.reverse_append, List.takeWhile_append]
  cases all : back.all holds with
  | true =>
    have whole : back.reverse.takeWhile holds = back.reverse :=
      List.takeWhile_eq_self_iff.mpr fun item member =>
        List.all_eq_true.mp all item (List.mem_reverse.mp member)
    rw [whole]
    simp
  | false =>
    have part : (back.reverse.takeWhile holds).length ≠ back.reverse.length := by
      intro same
      have whole := (List.takeWhile_prefix holds).eq_of_length same
      have each := List.takeWhile_eq_self_iff.mp whole
      refine Bool.false_ne_true (all.symm.trans (List.all_eq_true.mpr fun item member => ?_))
      exact each item (List.mem_reverse.mpr member)
    rw [if_neg part, if_neg Bool.false_ne_true]

theorem behindLast_self (all : items.all holds = true) : behindLast holds items = items := by
  have whole : behindLast holds ([] ++ items) = _ := behindLast_append [] items
  rwa [List.nil_append, all, if_pos rfl] at whole

theorem behindLast_of_not {item : α} (stops : holds item = false) (items : List α) :
    behindLast holds (item :: items) = behindLast holds items := by
  have alone : behindLast holds [item] = [] := by simp [behindLast, stops]
  rw [← List.singleton_append, behindLast_append, alone]
  split
  · rename_i all
    rw [behindLast_self all, List.nil_append]
  · rfl

theorem take_encoded (offset : Nat) (c : Char) (rest : List Char) :
    ((c :: rest).flatMap String.utf8EncodeChar).take offset =
      (String.utf8EncodeChar c).take offset ++
        (rest.flatMap String.utf8EncodeChar).take (offset - c.utf8Size) := by
  rw [List.flatMap_cons, List.take_append, String.length_utf8EncodeChar]

theorem countP_take_encoded (positive : 0 < offset) (c : Char) :
    ((String.utf8EncodeChar c).take offset).countP startsChar = 1 := by
  obtain ⟨first, others, encoded, starts, goesOn⟩ := encoded_first c
  obtain ⟨count, rfl⟩ := Nat.exists_eq_succ_of_ne_zero (Nat.ne_of_gt positive)
  have none : (others.take count).countP startsChar = 0 := List.countP_eq_zero.mpr fun byte member =>
    Bool.eq_false_iff.mp (goesOn byte (List.mem_of_mem_take member))
  rw [encoded, List.take_succ_cons, List.countP_cons_of_pos starts, none]

theorem count_take_encoded (positive : 0 < offset) (c : Char) :
    ((String.utf8EncodeChar c).take offset).count '\n'.toUInt8 = if c = '\n' then 1 else 0 := by
  by_cases feed : c = '\n'
  · obtain ⟨count, rfl⟩ := Nat.exists_eq_succ_of_ne_zero (Nat.ne_of_gt positive)
    rw [feed, encoded_lineFeed, List.take_succ_cons, List.take_nil]
    rfl
  · rw [if_neg feed]
    exact List.count_eq_zero.mpr fun member =>
      feed (lineFeed_mem_encoded (List.mem_of_mem_take member))

theorem charsBefore_cons (positive : 0 < offset) (c : Char) (rest : List Char) :
    charsBefore offset (c :: rest) = c :: charsBefore (offset - c.utf8Size) rest := by
  obtain ⟨count, rfl⟩ := Nat.exists_eq_succ_of_ne_zero (Nat.ne_of_gt positive)
  rfl

theorem charsBefore_zero (chars : List Char) : charsBefore 0 chars = [] := by
  cases chars <;> rfl

theorem charsBefore_nil (offset : Nat) : charsBefore offset [] = [] := by
  cases offset <;> rfl

/-- A line feed is a byte of its own. -/
theorem count_lineFeed (offset : Nat) (chars : List Char) :
    ((chars.flatMap String.utf8EncodeChar).take offset).count '\n'.toUInt8 =
      (charsBefore offset chars).count '\n' := by
  induction chars generalizing offset with
  | nil => rw [charsBefore_nil]; simp
  | cons c rest ih =>
    obtain rfl | positive := Nat.eq_zero_or_pos offset
    · rw [charsBefore_zero]; rfl
    · rw [take_encoded, List.count_append, ih, count_take_encoded positive, charsBefore_cons positive,
        List.count_cons, Nat.add_comm]
      simp

theorem all_ne_eq [BEq α] [LawfulBEq α] (item : α) (items : List α) :
    items.all (· != item) = (items.count item == 0) := by
  rw [Bool.eq_iff_iff, List.all_eq_true, beq_iff_eq, List.count_eq_zero]
  simp only [bne_iff_ne]
  exact ⟨fun each member => each item member rfl, fun none other member same => none (same ▸ member)⟩

theorem all_inLine (offset : Nat) (chars : List Char) :
    ((chars.flatMap String.utf8EncodeChar).take offset).all (· != '\n'.toUInt8) =
      (charsBefore offset chars).all (· != '\n') := by
  rw [all_ne_eq, all_ne_eq, count_lineFeed]

/-- Each character of a line has one byte that starts it. -/
theorem countP_behindLast (offset : Nat) (chars : List Char) :
    (behindLast (· != '\n'.toUInt8)
        ((chars.flatMap String.utf8EncodeChar).take offset)).countP startsChar =
      (behindLast (· != '\n') (charsBefore offset chars)).length := by
  induction chars generalizing offset with
  | nil => rw [charsBefore_nil]; simp [behindLast]
  | cons c rest ih =>
    obtain rfl | positive := Nat.eq_zero_or_pos offset
    · rw [charsBefore_zero]; rfl
    · have rest' := ih (offset - c.utf8Size)
      have cons : c :: charsBefore (offset - c.utf8Size) rest =
        [c] ++ charsBefore (offset - c.utf8Size) rest := rfl
      rw [take_encoded, charsBefore_cons positive, cons, behindLast_append, behindLast_append,
        all_inLine]
      cases all : (charsBefore (offset - c.utf8Size) rest).all (· != '\n') with
      | false => simpa using rest'
      | true =>
        rw [behindLast_self all, behindLast_self ((all_inLine _ _).trans all)] at rest'
        simp only [if_true, List.countP_append, List.length_append, rest']
        congr 1
        by_cases feed : c = '\n'
        · rw [feed, encoded_lineFeed]
          obtain ⟨count, rfl⟩ := Nat.exists_eq_succ_of_ne_zero (Nat.ne_of_gt positive)
          rw [List.take_succ_cons, List.take_nil]
          rfl
        · have single : ((String.utf8EncodeChar c).take offset).all (· != '\n'.toUInt8) = true := by
            rw [all_ne_eq, count_take_encoded positive, if_neg feed]
            rfl
          rw [behindLast_self single, behindLast_self (by simp [feed]), countP_take_encoded positive]
          rfl

theorem charsStartingIn_eq_zero {low high : Nat} (behind : high ≤ offset) (chars : List Char) :
    charsStartingIn low high offset chars = 0 := by
  induction chars generalizing offset with
  | nil => rfl
  | cons c rest ih =>
    rw [charsStartingIn, if_neg (by omega), ih (by omega)]

theorem lt_of_mem_lineStartsFrom {start : Nat} (member : start ∈ lineStartsFrom offset chars) :
    offset < start := by
  induction chars generalizing offset with
  | nil => cases member
  | cons c rest ih =>
    have wide := c.utf8Size_pos
    rw [lineStartsFrom] at member
    split at member
    · obtain rfl | later := List.mem_cons.mp member
      · omega
      · have := ih later
        omega
    · have := ih member
      omega

theorem pairwise_lineStartsFrom (offset : Nat) (chars : List Char) :
    (offset :: lineStartsFrom offset chars).Pairwise (· < ·) := by
  refine List.pairwise_cons.mpr ⟨fun start => lt_of_mem_lineStartsFrom, ?_⟩
  induction chars generalizing offset with
  | nil => exact .nil
  | cons c rest ih =>
    rw [lineStartsFrom]
    split
    · exact List.pairwise_cons.mpr ⟨fun start => lt_of_mem_lineStartsFrom, ih _⟩
    · exact ih _

/-- The lines that start up to an offset are those behind the line feeds in front of it. -/
theorem countP_lineStartsFrom (offset stop : Nat) (chars : List Char) :
    (lineStartsFrom offset chars).countP (fun start => decide (start ≤ stop)) =
      (charsBefore (stop - offset) chars).count '\n' := by
  induction chars generalizing offset with
  | nil => rw [charsBefore_nil]; rfl
  | cons c rest ih =>
    have wide := c.utf8Size_pos
    by_cases positive : offset < stop
    · rw [charsBefore_cons (by omega), List.count_cons, Nat.sub_sub, lineStartsFrom]
      by_cases feed : c = '\n'
      · rw [if_pos feed, List.countP_cons_of_pos, ih]
        · simp [feed]
        · have size : c.utf8Size = 1 := feed ▸ rfl
          exact decide_eq_true (by omega)
      · rw [if_neg feed, ih]
        simp [feed]
    · have none : stop - offset = 0 := by omega
      rw [none, charsBefore_zero, List.count_nil, List.countP_eq_zero]
      intro start member
      have later := lt_of_mem_lineStartsFrom member
      simp
      omega

/-- Among sorted offsets those up to a bound come first. -/
theorem getElem_le_iff {starts : List Nat} (sorted : starts.Pairwise (· < ·)) (stop : Nat) {i : Nat}
    (inside : i < starts.length) :
    starts[i] ≤ stop ↔ i < starts.countP (fun start => decide (start ≤ stop)) := by
  induction starts generalizing i with
  | nil => cases inside
  | cons start starts ih =>
    obtain ⟨first, sorted⟩ := List.pairwise_cons.mp sorted
    by_cases within : start ≤ stop
    · rw [List.countP_cons_of_pos (by simpa using within)]
      cases i with
      | zero => simp [within]
      | succ i => simpa using ih sorted (Nat.lt_of_succ_lt_succ inside)
    · have beyond : ∀ later ∈ start :: starts, stop < later := by
        intro later member
        obtain rfl | member := List.mem_cons.mp member
        · omega
        · have := first later member
          omega
      have none : (start :: starts).countP (fun start => decide (start ≤ stop)) = 0 :=
        List.countP_eq_zero.mpr fun later member => by simpa using beyond later member
      have later := beyond _ (List.getElem_mem inside)
      rw [none]
      omega

/-- The characters from the start of its line up to an offset are those behind the last line
feed in front of it. -/
theorem charsStartingIn_line {start low stop : Nat} (started : start ≤ offset)
    (begins : (start :: lineStartsFrom offset chars).getD
      ((charsBefore (stop - offset) chars).count '\n') 0 = low) :
    ((charsBefore (stop - offset) chars).all (· != '\n') = true → low = start) ∧
      ((charsBefore (stop - offset) chars).all (· != '\n') = false → offset < low) ∧
      charsStartingIn low stop offset chars =
        (behindLast (· != '\n') (charsBefore (stop - offset) chars)).length := by
  induction chars generalizing start offset with
  | nil =>
    rw [charsBefore_nil] at begins ⊢
    exact ⟨fun _ => begins.symm, nofun, rfl⟩
  | cons c rest ih =>
    have wide := c.utf8Size_pos
    by_cases positive : offset < stop
    · rw [charsBefore_cons (by omega), Nat.sub_sub] at begins ⊢
      rw [charsStartingIn]
      rw [lineStartsFrom, List.count_cons] at begins
      by_cases feed : c = '\n'
      · rw [if_pos feed, if_pos (by simpa using feed), List.getD_cons_succ] at begins
        obtain ⟨first, later, counted⟩ := ih (Nat.le_refl _) begins
        have beyond : offset < low := by
          cases all : (charsBefore (stop - (offset + c.utf8Size)) rest).all (· != '\n') with
          | true => have := first all; omega
          | false => have := later all; omega
        rw [if_neg (by omega), Nat.zero_add, behindLast_of_not (by simp [feed]), ← counted]
        exact ⟨by simp [feed], fun _ => beyond, rfl⟩
      · rw [if_neg feed, if_neg (by simpa using feed), Nat.add_zero] at begins
        obtain ⟨first, later, counted⟩ := ih (Nat.le_add_right_of_le started) begins
        have inLine : (c != '\n') = true := by simpa using feed
        rw [List.all_cons, inLine, Bool.true_and, counted, ← List.singleton_append, behindLast_append]
        cases all : (charsBefore (stop - (offset + c.utf8Size)) rest).all (· != '\n') with
        | true =>
          have same := first all
          rw [if_pos (by omega), if_pos rfl, behindLast_self all, behindLast_self (by simp [feed]),
            List.length_append]
          exact ⟨fun _ => same, nofun, rfl⟩
        | false =>
          have beyond := later all
          rw [if_neg (by omega), if_neg Bool.false_ne_true, Nat.zero_add]
          exact ⟨nofun, fun _ => by omega, rfl⟩
    · have none : stop - offset = 0 := by omega
      rw [none, charsBefore_zero] at begins ⊢
      exact ⟨fun _ => begins.symm, nofun, charsStartingIn_eq_zero (by omega) _⟩

/-- Of the characters that start before a boundary all stand in front of it. -/
theorem charsBefore_boundary (front back : List Char) :
    charsBefore (byteLength front) (front ++ back) = front := by
  induction front with
  | nil => exact charsBefore_zero back
  | cons c front ih =>
    have wide := c.utf8Size_pos
    rw [byteLength_cons, List.cons_append, charsBefore_cons (by omega), Nat.add_sub_cancel_left, ih]

/-- One text starts before another: on an earlier line, or on the same one further left. -/
def Position.Before (first second : Position) : Prop :=
  first.line < second.line ∨ first.line = second.line ∧ first.column < second.column

namespace LineMap

variable (map : LineMap)

theorem starts_sorted : map.starts.Pairwise (· < ·) := pairwise_lineStartsFrom 0 map.chars

theorem lineOf_eq (offset : Nat) : map.lineOf offset = (charsBefore offset map.chars).count '\n' := by
  unfold lineOf starts
  rw [List.countP_cons_of_pos (by simp), countP_lineStartsFrom]
  rfl

theorem lineOf_lt (offset : Nat) : map.lineOf offset < map.starts.length := by
  have some : 0 < map.starts.length := Nat.succ_pos _
  have within : map.starts.countP (fun start => decide (start ≤ offset)) ≤ map.starts.length :=
    List.countP_le_length
  unfold lineOf
  omega

/-- The line of an offset is the last one that starts at or before it. -/
theorem getElem_starts_le_iff (offset : Nat) {i : Nat} (inside : i < map.starts.length) :
    map.starts[i] ≤ offset ↔ i ≤ map.lineOf offset := by
  have first : 0 < map.starts.countP (fun start => decide (start ≤ offset)) :=
    (getElem_le_iff map.starts_sorted offset (Nat.succ_pos _)).mp (Nat.zero_le offset)
  rw [getElem_le_iff map.starts_sorted, lineOf]
  omega

theorem locate_line (offset : Nat) : (map.locate offset).line =
    (charsBefore (min offset (byteLength map.chars)) map.chars).count '\n' := map.lineOf_eq _

theorem locate_column (offset : Nat) : (map.locate offset).column =
    (behindLast (· != '\n') (charsBefore (min offset (byteLength map.chars)) map.chars)).length := by
  have line := map.lineOf_eq (min offset (byteLength map.chars))
  refine (charsStartingIn_line (Nat.le_refl 0) ?_).2.2
  rw [Nat.sub_zero, ← line]
  rfl

/-- The location of a place between two characters is that of the text in front of it. -/
theorem locate_boundary {front back : List Char} (whole : map.chars = front ++ back) :
    map.locate (byteLength front) = ⟨front.count '\n', (behindLast (· != '\n') front).length⟩ := by
  have inside : min (byteLength front) (byteLength map.chars) = byteLength front := by
    rw [whole, byteLength_append]
    omega
  have line := map.locate_line (byteLength front)
  have column := map.locate_column (byteLength front)
  rw [inside, whole, charsBefore_boundary] at line column
  cases same : map.locate (byteLength front) with
  | mk here there =>
    rw [same] at line column
    exact congr (congrArg Position.mk line) column

/-- More text in front of a place moves it on. -/
theorem before_append {front more back : List Char} (some : more ≠ [])
    (whole : map.chars = front ++ more ++ back) :
    (map.locate (byteLength front)).Before (map.locate (byteLength (front ++ more))) := by
  rw [map.locate_boundary whole, map.locate_boundary (whole.trans (List.append_assoc _ _ _))]
  cases all : more.all (· != '\n') with
  | false =>
    refine .inl ?_
    rw [all_ne_eq, beq_eq_false_iff_ne] at all
    rw [List.count_append]
    exact Nat.lt_add_of_pos_right (Nat.pos_of_ne_zero all)
  | true =>
    have longer := List.length_pos_iff.mpr some
    refine .inr ⟨?_, ?_⟩
    · rw [all_ne_eq, beq_iff_eq] at all
      rw [List.count_append, all]
      rfl
    · rw [behindLast_append, if_pos all, List.length_append]
      exact Nat.lt_add_of_pos_right longer

theorem locate_before {first second : Nat} (here : Bytes.IsBoundary map.chars first)
    (there : Bytes.IsBoundary map.chars second) (earlier : first < second) :
    (map.locate first).Before (map.locate second) := by
  obtain ⟨front, rest, whole, rfl⟩ := here
  obtain ⟨upto, back, same, rfl⟩ := there
  obtain ⟨more, rfl, _⟩ | ⟨more, rfl, _⟩ := List.append_eq_append_iff.mp (whole.symm.trans same)
  · refine map.before_append ?_ same
    rintro rfl
    rw [List.append_nil] at earlier
    exact absurd earlier (Nat.lt_irrefl _)
  · rw [byteLength_append] at earlier
    omega

/-- The line starts ascend, and the line of an offset, the end at most, is the last one that
starts at or before it. It is the number of line feeds among the bytes in front of the offset,
and the column is the number of characters that start among those of these bytes that stand
behind the last line feed. Of two places between characters the earlier one has the earlier
location, so no two of them share one. -/
theorem locate_exact (source : String) :
    (ofSource source).starts.Pairwise (· < ·) ∧
    (∀ position,
      let offset := min position (bytesOf source).length
      ((ofSource source).locate position).line =
        ((bytesOf source).take offset).count '\n'.toUInt8 ∧
      ((ofSource source).locate position).column =
        (behindLast (· != '\n'.toUInt8) ((bytesOf source).take offset)).countP startsChar ∧
      (ofSource source).lineOf offset < (ofSource source).starts.length ∧
      ∀ i (inside : i < (ofSource source).starts.length),
        (ofSource source).starts[i] ≤ offset ↔ i ≤ (ofSource source).lineOf offset) ∧
    ∀ first second, Bytes.IsBoundary source.toList first → Bytes.IsBoundary source.toList second →
      first < second → ((ofSource source).locate first).Before ((ofSource source).locate second) := by
  refine ⟨starts_sorted _, fun position => ⟨?_, ?_, lineOf_lt _ _, fun i inside => ?_⟩,
    fun first second here there => locate_before _ here there⟩
  · rw [locate_line, bytesOf_eq, length_encoded, count_lineFeed]
    rfl
  · rw [locate_column, bytesOf_eq, length_encoded, countP_behindLast]
    rfl
  · exact getElem_starts_le_iff _ _ inside

/-- Behind a line feed, in front of and behind a character of two bytes. -/
theorem locate_exact_wide :
    Bytes.IsBoundary "x\né".toList 2 ∧ Bytes.IsBoundary "x\né".toList 4 ∧
      ((ofSource "x\né").locate 2).Before ((ofSource "x\né").locate 4) :=
  have here : Bytes.IsBoundary "x\né".toList 2 := ⟨['x', '\n'], ['é'], by decide, by decide⟩
  have there : Bytes.IsBoundary "x\né".toList 4 := ⟨['x', '\n', 'é'], [], by decide, by decide⟩
  ⟨here, there, (locate_exact "x\né").2.2 2 4 here there (by decide)⟩

end LineMap

end RubySyntax.Text
