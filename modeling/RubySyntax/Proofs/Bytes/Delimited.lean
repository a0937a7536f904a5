import RubySyntax.Proofs.Bytes.Word
import RubySyntax.Proofs.Lexeme.Literal

namespace RubySyntax.Bytes

open Text
open Lexeme (Context Reading Frame bodyWidth)

namespace Scan

def opensRegion (interpolates : Bool) (c : Char) : Scan Bool := do
  if interpolates && c == '#' then return (← peek) == some '{' else return false

mutual

/-- Reads a body and its closing delimiter, or everything that is left. -/
def scanBody (opener : Option Char) (closer : Char) (interpolates : Bool) (depth : Nat) :
    Scan Bool :=
  -- The recursive calls are named as in `acceptRun`.
  letI scanBody : Option Char → Char → Bool → Nat → Scan Bool := by apply scanBody
  letI scanRegion : Nat → Scan Bool := by apply scanRegion
  do
    match ← next with
    | none => return false
    | some c =>
      if c = '\\' then
        if (← next).isNone then return false else scanBody opener closer interpolates depth
      else if ← opensRegion interpolates c then
        discard next
        if ← scanRegion 1 then scanBody opener closer interpolates depth else return false
      else if c = closer then
        if depth = 0 then return true else scanBody opener closer interpolates (depth - 1)
      else if some c = opener then scanBody opener closer interpolates (depth + 1)
      else scanBody opener closer interpolates depth
partial_fixpoint

/-- Reads an interpolated region behind its opening brace, and its closing brace. -/
def scanRegion (depth : Nat) : Scan Bool :=
  letI scanBody : Option Char → Char → Bool → Nat → Scan Bool := by apply scanBody
  letI scanRegion : Nat → Scan Bool := by apply scanRegion
  do
    match ← next with
    | none => return false
    | some c =>
      if c = '{' then scanRegion (depth + 1)
      else if c = '}' then if depth - 1 = 0 then return true else scanRegion (depth - 1)
      else if c = '"' || c = '\'' || c = '`' then
        if ← scanBody none c (c != '\'') 0 then scanRegion depth else return false
      else if c = '\\' then
        discard next
        scanRegion depth
      else scanRegion depth
partial_fixpoint

end

/-- Reads a regular expression behind its slash, and its closing slash. -/
def scanRegex (inClass : Bool) : Scan Bool :=
  letI scanRegex : Bool → Scan Bool := by apply scanRegex
  do
    match ← next with
    | none => return false
    | some c =>
      if c = '\\' then
        if (← next).isNone then return false else scanRegex inClass
      else if ← opensRegion true c then
        discard next
        if ← scanRegion 1 then scanRegex inClass else return false
      else if c = '[' then scanRegex true
      else if c = ']' then scanRegex false
      else if c = '/' && !inClass then return true
      else scanRegex inClass
partial_fixpoint

end Scan

open Scan

def scanFrame : Frame → Scan Bool
  | .body opener closer interpolates depth => scanBody opener closer interpolates depth
  | .region depth => scanRegion (depth + 1)
  | .regex inClass => scanRegex inClass

variable {front pend rest : List Char} {c : Char} {width : Nat}

theorem scanFrame_nil (frame : Frame) :
    (scanFrame frame).run (.between front pend [] width) =
      some (false, .between front pend [] 0) := by
  cases frame with
  | body opener closer interpolates depth =>
    rw [scanFrame, scanBody, run_bind_eq next_between_nil]
    rfl
  | region depth =>
    rw [scanFrame, scanRegion, run_bind_eq next_between_nil]
    rfl
  | regex inClass =>
    rw [scanFrame, scanRegex, run_bind_eq next_between_nil]
    rfl

theorem opensRegion_between (interpolates : Bool) (c : Char) :
    (opensRegion interpolates c).run (.between front pend rest width) =
      some (interpolates && c == '#' && rest.head? == some '{', .between front pend rest width) := by
  rw [opensRegion]
  split
  · rename_i opens
    rw [run_bind_eq peek_between, opens, Bool.true_and]
    rfl
  · rename_i other
    rw [Bool.eq_false_iff.mpr other]
    rfl

/-- A backslash at the end ends nothing. -/
theorem scanFrame_escape_nil (frame : Frame) :
    (scanFrame frame).run (.between front pend ['\\'] width) =
      some (false, .between front (pend ++ ['\\']) [] 0) := by
  cases frame with
  | body opener closer interpolates depth =>
    rw [scanFrame, scanBody, run_bind_eq (next_between _)]
    dsimp only
    rw [if_pos rfl, run_bind_eq next_between_nil]
    rfl
  | region depth =>
    rw [scanFrame, scanRegion, run_bind_eq (next_between _)]
    exact (run_bind_eq (run_discard next_between_nil)).trans (scanFrame_nil (.region depth))
  | regex inClass =>
    rw [scanFrame, scanRegex, run_bind_eq (next_between _)]
    dsimp only
    rw [if_pos rfl, run_bind_eq next_between_nil]
    rfl

/-- A backslash takes the next character with it. -/
theorem scanFrame_escape (frame : Frame) (c : Char) :
    (scanFrame frame).run (.between front pend ('\\' :: c :: rest) width) =
      (scanFrame frame).run (.between front (pend ++ ['\\'] ++ [c]) rest c.utf8Size) := by
  cases frame with
  | body opener closer interpolates depth =>
    rw [scanFrame]
    conv => lhs; rw [scanBody]
    rw [run_bind_eq (next_between _)]
    dsimp only
    rw [if_pos rfl, run_bind_eq (next_between _)]
    rfl
  | region depth =>
    rw [scanFrame]
    conv => lhs; rw [scanRegion]
    rw [run_bind_eq (next_between _)]
    exact run_bind_eq (run_discard (next_between _))
  | regex inClass =>
    rw [scanFrame]
    conv => lhs; rw [scanRegex]
    rw [run_bind_eq (next_between _)]
    dsimp only
    rw [if_pos rfl, run_bind_eq (next_between _)]
    rfl

/-- A number sign and a brace open a region, which is read to its end first. -/
theorem scanFrame_region {frame : Frame} (interpolates : frame.interpolates = true) :
    (scanFrame frame).run (.between front pend ('#' :: '{' :: rest) width) =
      (do if ← scanFrame (.region 0) then scanFrame frame else return false : Scan Bool).run
        (.between front (pend ++ ['#'] ++ ['{']) rest '{'.utf8Size) := by
  cases frame with
  | body opener closer interpolates depth =>
    cases interpolates
    rw [scanFrame]
    conv => lhs; rw [scanBody]
    rw [run_bind_eq (next_between _)]
    dsimp only
    rw [if_neg (by decide), run_bind_eq (opensRegion_between _ _)]
    exact run_bind_eq (run_discard (next_between _))
  | region depth => cases interpolates
  | regex inClass =>
    show (scanRegex inClass).run _ = _
    conv => lhs; rw [scanRegex]
    rw [run_bind_eq (next_between _)]
    dsimp only
    rw [if_neg (by decide), run_bind_eq (opensRegion_between _ _)]
    exact run_bind_eq (run_discard (next_between _))

/-- What any other character does. -/
def afterMove (frame : Frame) : Lexeme.Move → Scan Bool
  | .stay next => scanFrame next
  | .enter inner => do if ← scanFrame inner then scanFrame frame else return false
  | .leave => return true

theorem scanFrame_move {frame : Frame} (plain : c ≠ '\\')
    (closed : (frame.interpolates && c == '#' && rest.head? == some '{') = false) :
    (scanFrame frame).run (.between front pend (c :: rest) width) =
      (afterMove frame (frame.move c)).run (.between front (pend ++ [c]) rest c.utf8Size) := by
  have closed := Bool.eq_false_iff.mp closed
  cases frame with
  | body opener closer interpolates depth =>
    rw [Frame.interpolates] at closed
    show (scanBody opener closer interpolates depth).run _ = _
    rw [scanBody, run_bind_eq (next_between _)]
    dsimp only
    rw [if_neg plain, run_bind_eq (opensRegion_between _ _), if_neg closed]
    unfold Frame.move
    dsimp only
    split
    · cases depth with
      | zero => rfl
      | succ depth => rfl
    · split
      · rfl
      · rfl
  | region depth =>
    show (scanRegion (depth + 1)).run _ = _
    rw [scanRegion, run_bind_eq (next_between _)]
    dsimp only
    rw [if_neg plain]
    unfold Frame.move
    dsimp only
    split
    · rfl
    · split
      · cases depth with
        | zero => rfl
        | succ depth => rfl
      · split
        · rfl
        · rfl
  | regex inClass =>
    rw [Frame.interpolates] at closed
    show (scanRegex inClass).run _ = _
    rw [scanRegex, run_bind_eq (next_between _)]
    dsimp only
    rw [if_neg plain, run_bind_eq (opensRegion_between _ _), if_neg closed]
    unfold Frame.move
    dsimp only
    split
    · rfl
    · split
      · rfl
      · split
        · rfl
        · rfl

/-- The second step follows only where the first one says so. -/
def andThen (first more : Scan Bool) : Scan Bool := do
  if ← first then more else return false

theorem andThen_assoc (first more last : Scan Bool) :
    andThen (andThen first more) last = andThen first (andThen more last) := by
  rw [andThen, andThen, bind_assoc, andThen]
  congr 1
  funext closed
  cases closed with
  | true => rfl
  | false => rfl

/-- Goes on to the ends of the outer frames, the innermost one first. -/
def unwind (first : Scan Bool) : List Frame → Scan Bool
  | [] => first
  | next :: outer => andThen first (unwind (scanFrame next) outer)

variable {first other : Scan Bool} {frame next : Frame} {outer : List Frame} {input : List Char}
  {width' last : Nat}

theorem unwind_run_congr {cursor behind : Cursor} (same : first.run cursor = other.run behind)
    (outer : List Frame) : (unwind first outer).run cursor = (unwind other outer).run behind := by
  cases outer with
  | nil => exact same
  | cons next outer =>
    show (first >>= _).run cursor = (other >>= _).run behind
    rw [StateT.run_bind, StateT.run_bind, same]

theorem unwind_andThen (first : Scan Bool) (next : Frame) (outer : List Frame) :
    unwind (andThen first (scanFrame next)) outer = unwind first (next :: outer) := by
  cases outer with
  | nil => rfl
  | cons last outer => exact andThen_assoc _ _ _

/-- Where nothing is left the frames are not closed. -/
theorem unwind_false {cursor behind : Cursor} (ended : first.run cursor = some (false, behind))
    (outer : List Frame) : (unwind first outer).run cursor = some (false, behind) := by
  rw [unwind_run_congr (ended.trans (show _ = (pure false : Scan Bool).run behind from rfl))]
  cases outer with
  | nil => rfl
  | cons next outer => rfl

/-- The scan ends where the outermost frame does: behind its delimiter, which is the last
character that is read, or where the text ends. -/
def Ends (scan : Scan Bool) (delimiter : Char) (width : Nat) (input : List Char) :
    Option Nat → Prop
  | none => Consumes scan input false []
  | some last => ∃ body rest, input = body ++ delimiter :: rest ∧ width + body.length = last ∧
      ∀ front pend before, scan.run (.between front pend input before) =
        some (true, .between front (pend ++ body ++ [delimiter]) rest delimiter.utf8Size)

theorem Ends.step {delimiter : Char} {found : Option Nat} (taken : List Char)
    (ends : Ends other delimiter (width + taken.length) rest found)
    (same : ∀ front pend before, ∃ behind,
      first.run (.between front pend (taken ++ rest) before) =
        other.run (.between front (pend ++ taken) rest behind)) :
    Ends first delimiter width (taken ++ rest) found := by
  cases found with
  | none =>
    obtain ⟨more, rfl, reads⟩ := ends
    refine ⟨taken ++ more, by simp, fun front pend before => ?_⟩
    obtain ⟨middle, same⟩ := same front pend before
    obtain ⟨behind, read⟩ := reads front (pend ++ taken) middle
    exact ⟨behind, by rw [same, read, List.append_assoc]⟩
  | some last =>
    obtain ⟨body, left, rfl, count, reads⟩ := ends
    refine ⟨taken ++ body, left, by simp, ?_, fun front pend before => ?_⟩
    · rw [List.length_append]
      omega
    · obtain ⟨middle, same⟩ := same front pend before
      rw [same, reads, List.append_assoc pend]

/-- A character that opens no region is read, and the frames go on from its move. -/
theorem Ends.move {delimiter : Char} {found : Option Nat} (plain : c ≠ '\\')
    (closed : ¬ (frame.interpolates && c == '#' && rest.head? == some '{') = true)
    (ends : Ends (unwind (afterMove frame (frame.move c)) outer) delimiter (width + 1) rest found) :
    Ends (unwind (scanFrame frame) outer) delimiter width (c :: rest) found :=
  ends.step [c] fun _ _ _ =>
    ⟨_, unwind_run_congr (scanFrame_move plain (Bool.eq_false_iff.mpr closed)) outer⟩

theorem unwind_ends (frame : Frame) (outer : List Frame) (width : Nat) (input : List Char) :
    Ends (unwind (scanFrame frame) outer) (outer.getLastD frame).delimiter width input
      (bodyWidth frame outer width input) := by
  fun_induction bodyWidth frame outer width input with
  | case1 frame outer width =>
    exact ⟨[], rfl, fun _ _ _ => ⟨0, by rw [List.append_nil, unwind_false (scanFrame_nil frame)]⟩⟩
  | case2 frame outer width rest ih =>
    cases rest with
    | nil =>
      rw [List.drop_nil, bodyWidth]
      exact ⟨['\\'], rfl, fun _ _ _ => ⟨0, unwind_false (scanFrame_escape_nil frame) outer⟩⟩
    | cons c rest =>
      refine Ends.step ['\\', c] ih fun front pend before => ⟨c.utf8Size, ?_⟩
      rw [List.append_cons pend]
      exact unwind_run_congr (scanFrame_escape frame c) outer
  | case3 frame outer width c rest plain opens ih =>
    simp only [Bool.and_eq_true, beq_iff_eq] at opens
    obtain ⟨⟨interpolates, rfl⟩, brace⟩ := opens
    obtain ⟨rest, rfl⟩ := List.head?_eq_some_iff.mp brace
    rw [List.getLastD_cons] at ih
    refine Ends.step ['#', '{'] ih fun front pend before => ⟨'{'.utf8Size, ?_⟩
    rw [List.append_cons pend, ← unwind_andThen]
    exact unwind_run_congr (scanFrame_region interpolates) outer
  | case4 frame outer width c rest plain closed next stays ih =>
    refine .move plain closed ?_
    have delimiter : (outer.getLastD next).delimiter = (outer.getLastD frame).delimiter := by
      cases outer with
      | nil => exact Frame.move_stay stays
      | cons last outer => rw [List.getLastD_cons, List.getLastD_cons]
    rw [stays, ← delimiter]
    exact ih
  | case5 frame outer width c rest plain closed inner enters ih =>
    refine .move plain closed ?_
    rw [List.getLastD_cons, ← unwind_andThen] at ih
    rw [enters]
    exact ih
  | case6 frame width c rest plain closed leaves =>
    refine ⟨[], rest, ?_, rfl, fun front pend before => ?_⟩
    · rw [List.getLastD_nil, ← Frame.move_leave leaves]
      rfl
    · rw [List.getLastD_nil, ← Frame.move_leave leaves, List.append_nil]
      exact (scanFrame_move plain (Bool.eq_false_iff.mpr closed)).trans (by rw [leaves]; rfl)
  | case7 frame width c rest plain closed leaves next outer ih =>
    refine .move plain closed ?_
    rw [leaves, List.getLastD_cons]
    exact ih

end RubySyntax.Bytes
