import RubySyntax.Proofs.Bytes.HeredocBody
import RubySyntax.Proofs.Bytes.Recognise

namespace RubySyntax.Bytes

open Text (byteLength byteLength_append isLineBreak)

namespace Scan

open Lexeme (HeredocOpener)

/-- A tilde or a minus sign in front of the name. -/
def heredocMark : Scan (List Char) := do
  if ← accept ['~'] then return ['~']
  else if ← accept ['-'] then return ['-']
  else return []

/-- A run of characters with `holds`, cut from the source. -/
def spelled (holds : Char → Bool) : Scan (List Char) := do
  let first := (← get).pos
  discard (acceptWhile holds)
  fun cursor => (slice cursor.source first cursor.pos).map fun text => (text, cursor)

/-- A quoted name; none if it is not closed. -/
def quotedName (quote : Char) : Scan (Option (List Char × Token.LiteralKind)) := do
  discard next
  let name ← spelled fun c => c != quote && !isLineBreak c
  if ← accept [quote] then return some (name, if quote = '\'' then .string else .template)
  else return none

/-- The name of a heredoc and what it stands for; none if a quoted name is not closed. -/
def heredocName : Scan (Option (List Char × Token.LiteralKind)) := do
  match (← peek).filter fun c => c = '\'' || c = '"' with
  | some quote => quotedName quote
  | none => return some (← spelled Text.isIdentifierPart, .template)

def heredocOpener : Scan (Option HeredocOpener) := do
  discard (acceptText ['<', '<'])
  let mark ← heredocMark
  let named ← heredocName
  let chars ← pending
  return named.map fun (name, kind) =>
    { chars, name, kind, indented := !mark.isEmpty, squiggly := mark == ['~'] }

/-- The body of a heredoc goes on below the bodies that were read ahead, or else below
the line. -/
def bodyStart : Option Pending → Scan Pending
  | some pending => return pending
  | none => fun cursor =>
    (lineEndFrom cursor.source cursor.pos).map fun lineEnd =>
      ({ lineEnd, resume := lineEnd + 1 }, cursor)

def bodyAt (first : Nat) (opener : HeredocOpener) : Scan (Option (List Char × Nat)) :=
  fun cursor =>
    (findBody cursor.source first opener.name opener.indented).map fun found => (found, cursor)

def heredoc (waiting : Option Pending) : Scan (Emitted × Option Pending) := do
  match ← heredocOpener with
  | none => return (← fail .unterminatedString [], waiting)
  | some opener =>
    let start ← bodyStart waiting
    match ← bodyAt start.resume opener with
    | none => return (← fail .unterminatedHeredoc [.ofList opener.name], waiting)
    | some (body, resume) =>
      let token ← emitText (.literal opener.kind) (opener.textOf body)
      return ({ token }, some { start with resume })

end Scan

open Scan
open Lexeme (heredocBody isHeredocMark)

theorem consumes_heredocMark (ahead : List Char) :
    Consumes Scan.heredocMark ahead ((ahead.take 1).filter isHeredocMark)
      (ahead.drop ((ahead.take 1).filter isHeredocMark).length) := by
  cases ahead with
  | nil => exact (Consumes.accept_not rfl).bind ((Consumes.accept_not rfl).bind (.pure _ _))
  | cons c rest =>
    rw [List.take_succ_cons, List.take_zero, List.filter_cons, List.filter_nil]
    by_cases tilde : c = '~'
    · subst tilde
      exact (Consumes.accept rfl rest).bind (.pure _ _)
    refine (Consumes.accept_not (by simpa using tilde)).bind ?_
    by_cases minus : c = '-'
    · subst minus
      exact (Consumes.accept rfl rest).bind (.pure _ _)
    · have other : isHeredocMark c = false := by simp [isHeredocMark, tilde, minus]
      rw [other]
      exact (Consumes.accept_not (by simpa using minus)).bind (.pure _ _)

theorem consumes_spelled (holds : Char → Bool) (ahead : List Char) :
    Consumes (Scan.spelled holds) ahead (ahead.takeWhile holds)
      (ahead.drop (ahead.takeWhile holds).length) := by
  have split := List.prefix_iff_eq_append.mp (List.takeWhile_prefix holds (l := ahead))
  refine ⟨ahead.takeWhile holds, split.symm, fun front pend width => ?_⟩
  obtain ⟨width', reads⟩ := (Consumes.acceptWhile holds ahead).discard.front_between
    (List.takeWhile_prefix holds) front pend width
  refine ⟨width', ?_⟩
  have start : (get : Scan Cursor).run (.between front pend ahead width) =
      some (.between front pend ahead width, .between front pend ahead width) := rfl
  rw [Scan.spelled, run_bind_eq start, run_bind_eq reads]
  have cut := slice_append (front ++ pend) (ahead.takeWhile holds)
    (ahead.drop (ahead.takeWhile holds).length)
  rw [List.append_assoc front pend] at cut
  exact congrArg (Option.map _) cut

/-- What is read for a quoted name: the name with its quotes, and the name if it is closed. -/
def quotedName (quote : Char) (tail : List Char) :
    List Char × Option (List Char × Token.LiteralKind) :=
  let name := tail.takeWhile fun c => c != quote && !isLineBreak c
  if (tail.drop name.length).head? == some quote then
    (quote :: name ++ [quote], some (name, if quote = '\'' then .string else .template))
  else (quote :: name, none)

/-- What is read for a name, and the name if it is a plain one or closed. -/
def nameParts (ahead : List Char) : List Char × Option (List Char × Token.LiteralKind) :=
  match ahead.head?.filter fun c => c = '\'' || c = '"' with
  | some quote => quotedName quote ahead.tail
  | none =>
    (ahead.takeWhile Text.isIdentifierPart,
      some (ahead.takeWhile Text.isIdentifierPart, .template))

theorem quotedName_front (quote : Char) (tail : List Char) :
    (quotedName quote tail).1 <+: quote :: tail := by
  unfold quotedName
  dsimp only
  split
  · rename_i closed
    obtain ⟨rest, same⟩ := List.head?_eq_some_iff.mp (eq_of_beq closed)
    refine List.cons_prefix_cons.mpr ⟨rfl, Lexeme.isPrefix_append (List.takeWhile_prefix _) ?_⟩
    exact ⟨rest, same.symm⟩
  · exact List.cons_prefix_cons.mpr ⟨rfl, List.takeWhile_prefix _⟩

theorem nameParts_front (ahead : List Char) : (nameParts ahead).1 <+: ahead := by
  unfold nameParts
  split
  · rename_i quote quoted
    obtain ⟨first, _⟩ := Option.filter_eq_some_iff.mp quoted
    obtain ⟨tail, rfl⟩ := List.head?_eq_some_iff.mp first
    exact quotedName_front quote tail
  · exact List.takeWhile_prefix _

theorem consumes_quotedName (quote : Char) (tail : List Char) :
    Consumes (Scan.quotedName quote) (quote :: tail) (quotedName quote tail).2
      ((quote :: tail).drop (quotedName quote tail).1.length) := by
  refine (Consumes.next quote tail).discard.bind ((consumes_spelled _ tail).bind ?_)
  unfold quotedName
  generalize tail.takeWhile (fun c => c != quote && !isLineBreak c) = name
  dsimp only
  by_cases closed : (tail.drop name.length).head? = some quote
  · obtain ⟨rest, same⟩ := List.head?_eq_some_iff.mp closed
    have behind : (quote :: tail).drop (quote :: name ++ [quote]).length = rest := by
      rw [List.length_append, List.length_cons, List.length_singleton, List.drop_succ_cons,
        ← List.drop_drop, same]
      rfl
    rw [if_pos (beq_iff_eq.mpr closed), behind, same]
    exact (Consumes.accept (by simp) rest).bind (.pure _ _)
  · have other : (tail.drop name.length).head?.any [quote].contains = false := by
      cases found : (tail.drop name.length).head? with
      | none => rfl
      | some c => simpa [found] using closed
    rw [if_neg (mt beq_iff_eq.mp closed)]
    exact (Consumes.accept_not other).bind (.pure _ _)

theorem consumes_heredocName (ahead : List Char) :
    Consumes Scan.heredocName ahead (nameParts ahead).2 (ahead.drop (nameParts ahead).1.length) := by
  refine (Consumes.peek ahead).bind ?_
  unfold nameParts
  cases quoted : ahead.head?.filter fun c => c = '\'' || c = '"' with
  | none => exact (consumes_spelled _ _).bind (.pure _ _)
  | some quote =>
    obtain ⟨first, _⟩ := Option.filter_eq_some_iff.mp quoted
    obtain ⟨tail, rfl⟩ := List.head?_eq_some_iff.mp first
    exact consumes_quotedName quote tail

/-- A tilde or a minus sign behind the two signs. -/
def markOf (input : List Char) : List Char := ((input.drop 2).take 1).filter isHeredocMark

/-- What is read for the name behind the mark. -/
def namePartsOf (input : List Char) : List Char × Option (List Char × Token.LiteralKind) :=
  nameParts (input.drop (['<', '<'] ++ markOf input).length)

/-- All that is read for the opener. -/
def openerChars (input : List Char) : List Char :=
  ['<', '<'] ++ markOf input ++ (namePartsOf input).1

def openerOf (input name : List Char) (kind : Token.LiteralKind) : Lexeme.HeredocOpener where
  chars := openerChars input
  name := name
  kind := kind
  indented := !(markOf input).isEmpty
  squiggly := markOf input == ['~']

@[simp] theorem openerOf_chars (input name : List Char) (kind : Token.LiteralKind) :
    (openerOf input name kind).chars = openerChars input := rfl

theorem heredocOpener_eq (input : List Char) :
    Lexeme.heredocOpener input =
      match (namePartsOf input).2 with
      | some (name, kind) => .ok (openerOf input name kind)
      | none => .error { body := openerChars input, message := .unterminatedString } := by
  unfold Lexeme.heredocOpener openerOf openerChars namePartsOf
  dsimp only
  rw [← markOf]
  generalize markOf input = mark
  cases input.drop (['<', '<'] ++ mark).length with
  | nil => simp [nameParts]
  | cons quote tail =>
    unfold nameParts
    rw [List.head?_cons, Option.filter_some]
    dsimp only
    by_cases quoted : (decide (quote = '\'') || decide (quote = '"')) = true
    · rw [if_pos quoted, if_pos quoted]
      dsimp only [List.tail_cons]
      unfold quotedName
      generalize (if quote = '\'' then Token.LiteralKind.string else .template) = kind
      generalize tail.takeWhile (fun c => c != quote && !isLineBreak c) = name
      dsimp only
      by_cases closed : ((tail.drop name.length).head? == some quote) = true
      · rw [if_pos closed, if_pos closed]
        simp
      · rw [if_neg closed, if_neg closed]
    · rw [if_neg quoted, if_neg quoted]

/-- The signs, the mark and the name of a heredoc become pending. -/
theorem heredocOpener_between (signs : ['<', '<'] <+: input) (front : List Char) (width : Nat) :
    ∃ width', Scan.heredocOpener.run (.between front [] input width) =
      some ((namePartsOf input).2.map fun named => openerOf input named.1 named.2,
        .between front (openerChars input) (input.drop (openerChars input).length) width') := by
  obtain ⟨after, rfl⟩ := signs
  obtain ⟨first, signs⟩ : ∃ first, (discard (acceptText ['<', '<'])).run
      (.between front [] (['<', '<'] ++ after) width) =
        some ((), .between front ['<', '<'] after first) :=
    (Consumes.acceptText ['<', '<'] after).discard.front_between (List.prefix_append _ after) front [] width
  obtain ⟨second, reads⟩ := (consumes_heredocMark after).front_between
    (Lexeme.filter_take_one _ _) front ['<', '<'] first
  obtain ⟨third, named⟩ := (consumes_heredocName _).front_between (nameParts_front _) front
    (['<', '<'] ++ markOf (['<', '<'] ++ after)) second
  refine ⟨third, ?_⟩
  rw [Scan.heredocOpener, run_bind_eq signs, run_bind_eq reads]
  refine (run_bind_eq named).trans ((run_bind_eq pending_between).trans ?_)
  rw [openerChars, List.length_append, ← List.drop_drop]
  rfl

/-- The bodies that are read ahead behind a reading; a fault changes nothing of them. -/
def ahead (waiting : Option Lexeme.Pending) :
    Except Lexeme.Fault (Lexeme × Option Lexeme.Pending) → Option Lexeme.Pending
  | .ok (_, pending) => pending
  | .error _ => waiting

/-- Behind `front`, with `pend` pending and in front of `input`, the step hands over what is
read and the bodies that are read ahead, and leaves what the reading does not take. -/
def Delivers (op : Scan (Emitted × Option Pending)) (front pend input : List Char)
    (waiting : Option Lexeme.Pending)
    (result : Except Lexeme.Fault (Lexeme × Option Lexeme.Pending)) : Prop :=
  let reading : Lexeme.Reading := result.map Prod.fst
  ∃ rest, pend ++ input = reading.chars ++ rest ∧ ∀ width, ∃ width',
    op.run (.between front pend input width) =
      some ((reading.emitted front, (ahead waiting result).map .of),
        .between (front ++ reading.chars) [] rest width')

namespace Delivers

variable {α : Type} {op : Scan α} {more : α → Scan (Emitted × Option Pending)} {value : α}
  {front pend pend' input input' : List Char} {waiting later : Option Lexeme.Pending}
  {result : Except Lexeme.Fault (Lexeme × Option Lexeme.Pending)}

/-- A step in front of the rest; what it reads becomes pending. -/
theorem step (split : pend ++ input = pend' ++ input')
    (first : ∀ width, ∃ width', op.run (.between front pend input width) =
      some (value, .between front pend' input' width'))
    (then_ : Delivers (more value) front pend' input' waiting result) :
    Delivers (op >>= more) front pend input waiting result := by
  obtain ⟨rest, whole, goes⟩ := then_
  refine ⟨rest, split.trans whole, fun width => ?_⟩
  obtain ⟨middle, read⟩ := first width
  obtain ⟨width', went⟩ := goes middle
  exact ⟨width', (run_bind_eq read).trans went⟩

theorem look (first : ∀ width, op.run (.between front pend input width) =
      some (value, .between front pend input width))
    (then_ : Delivers (more value) front pend input waiting result) :
    Delivers (op >>= more) front pend input waiting result :=
  step rfl (fun width => ⟨width, first width⟩) then_

/-- A recogniser reads nothing ahead. -/
theorem of_recognises {op : Scan Emitted} {reading : Lexeme.Reading}
    (recognised : Recognises op [] pend input reading) (front : List Char)
    (waiting : Option Lexeme.Pending) :
    Delivers (do return (← op, waiting.map .of)) front pend input waiting
      (reading.map fun lexeme => (lexeme, waiting)) := by
  have same : (reading.map fun lexeme => (lexeme, waiting)).map Prod.fst = reading := by
    cases reading <;> rfl
  have kept : ahead waiting (reading.map fun lexeme => (lexeme, waiting)) = waiting := by
    cases reading <;> rfl
  obtain ⟨rest, whole, goes⟩ := recognised
  simp only [List.nil_append, List.append_nil] at whole goes
  unfold Delivers
  rw [same, kept]
  refine ⟨rest, whole, fun width => ?_⟩
  obtain ⟨width', reads⟩ := goes front width
  exact ⟨width', run_bind_eq reads⟩

/-- A token for all that is pending, and bodies that are read ahead. -/
theorem emitText (kind : Token.Kind) (text front pend input : List Char)
    (waiting later : Option Lexeme.Pending) :
    Delivers (do return ({ token := ← Scan.emitText kind text }, later.map .of)) front pend input
      waiting (.ok ({ kind, body := pend, text }, later)) := by
  obtain ⟨rest, whole, goes⟩ := Recognises.emittedText kind text [] pend input
  simp only [List.nil_append, List.append_nil] at whole goes
  refine ⟨rest, whole, fun width => ?_⟩
  obtain ⟨width', reads⟩ := goes front width
  rw [run_bind_eq (emitText_between kind text)] at reads
  obtain ⟨token, cursor⟩ := Prod.mk.inj (Option.some.inj reads)
  refine ⟨width', (run_bind_eq (emitText_between kind text)).trans ?_⟩
  exact congrArg some (Prod.ext (Prod.ext token rfl) cursor)

end Delivers

theorem bodyStart_between {chars : List Char} (inLine : '\n' ∉ chars) (front rest : List Char)
    (waiting : Option Lexeme.Pending) (width : Nat) :
    (bodyStart (waiting.map .of)).run (.between front chars rest width) =
      some (.of (waiting.getD (.below (byteLength front) (chars ++ rest))),
        .between front chars rest width) := by
  cases waiting with
  | some pending => rfl
  | none =>
    have passes : (chars ++ rest).takeWhile (fun c => !isLineBreak c) =
        chars ++ rest.takeWhile fun c => !isLineBreak c :=
      List.takeWhile_append_of_pos (Text.pass_of_inLine inLine)
    show (lineEndFrom (front ++ chars ++ rest) (byteLength (front ++ chars))).map _ = _
    rw [lineEndFrom_append, Option.getD_none, Lexeme.Pending.below, passes]
    simp [Pending.of, Cursor.between, Nat.add_assoc]

theorem bodyAt_between {start : Lexeme.Pending} {chars rest : List Char}
    (whole : front ++ chars ++ rest = source)
    (place : Placed source start ∨ start.rest = [] ∧ byteLength source < start.resume)
    (opener : Lexeme.HeredocOpener) (width : Nat) :
    (bodyAt start.resume opener).run (.between front chars rest width) =
      some ((heredocBody opener.name opener.indented start.rest).map fun found =>
          (found.1, start.resume + (byteLength start.rest - byteLength found.2)),
        .between front chars rest width) := by
  show (findBody (front ++ chars ++ rest) start.resume opener.name opener.indented).map _ = _
  rw [whole, findBody_start place]
  rfl

theorem openerChars_front (signs : ['<', '<'] <+: input) : openerChars input <+: input :=
  Lexeme.isPrefix_append (Lexeme.isPrefix_append signs (Lexeme.filter_take_one _ _)) (nameParts_front _)

theorem delivers_heredoc (signs : ['<', '<'] <+: input) (front : List Char)
    (waiting : Option Lexeme.Pending)
    (placed : ∀ pending, waiting = some pending → Placed (front ++ input) pending) :
    Delivers (Scan.heredoc (waiting.map .of)) front [] input waiting
      ((Lexeme.heredoc (byteLength front) waiting input).map fun read => (read.1, some read.2)) := by
  have split := List.prefix_iff_eq_append.mp (openerChars_front signs)
  have sound := Lexeme.heredocOpener_sound signs
  have failed (message : Diagnostic.Message) (args : List String) :
      Recognises (fail message args) [] (openerChars input)
        (input.drop (openerChars input).length)
        (.error { body := openerChars input, message, args }) :=
    .fail message args (.inl nofun)
  apply Delivers.step (show [] ++ input = _ from split.symm) (heredocOpener_between signs front)
  rw [Lexeme.heredoc_eq]
  rw [heredocOpener_eq] at sound ⊢
  cases named : (namePartsOf input).2 with
  | none => exact .of_recognises (failed .unterminatedString []) front waiting
  | some parts =>
    rw [named] at sound
    obtain ⟨_, _, inLine⟩ := sound
    have whole : front ++ openerChars input ++ input.drop (openerChars input).length =
        front ++ input := by
      rw [List.append_assoc, split]
    have base := bodyStart_between inLine front (input.drop (openerChars input).length) waiting
    rw [openerOf_chars, split] at base
    have place := base_placed placed
    apply Delivers.look base
    show Delivers _ front _ _ waiting ((Lexeme.heredocFrom (openerOf input parts.1 parts.2)
      (waiting.getD (.below (byteLength front) input))).map _)
    generalize waiting.getD (.below (byteLength front) input) = start at base place
    apply Delivers.look (bodyAt_between whole place (openerOf input parts.1 parts.2))
    unfold Lexeme.heredocFrom
    cases found : heredocBody (openerOf input parts.1 parts.2).name
        (openerOf input parts.1 parts.2).indented start.rest with
    | none => exact .of_recognises (failed .unterminatedHeredoc [.ofList parts.1]) front waiting
    | some lines =>
      exact .emitText (.literal parts.2) ((openerOf input parts.1 parts.2).textOf lines.1) front _ _
        waiting (some { start with
          resume := start.resume + (byteLength start.rest - byteLength lines.2), rest := lines.2 })

end RubySyntax.Bytes
