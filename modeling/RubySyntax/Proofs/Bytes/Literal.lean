import RubySyntax.Proofs.Bytes.Delimited
import RubySyntax.Lexeme.Symbol

namespace RubySyntax.Bytes

open Text
open Lexeme (Context Reading Frame)

namespace Scan

def delimited (kind : Token.LiteralKind) (scan : Scan Bool) (message : Diagnostic.Message)
    (args : List String) : Scan Emitted := do
  if ← scan then return { token := ← emitBeforeClosing (.literal kind) } else fail message args

/-- A regular expression up to its closing delimiter, and its option letters. -/
def delimitedRegex (scan : Scan Bool) (message : Diagnostic.Message) (args : List String) :
    Scan Emitted := do
  if ← scan then
    let token ← emitBeforeClosing (.literal .regex)
    return { token := { token with suffix := .ofList (← optionLetters) } }
  else fail message args

def quoted (kind : Token.LiteralKind) (quote : Char) : Scan Emitted := do
  discard next
  ignore
  delimited kind (scanBody none quote (quote != '\'') 0)
    (if quote = '`' then .unterminatedSubshell else .unterminatedString) []

def regex : Scan Emitted := do
  discard next
  ignore
  delimitedRegex (scanRegex false) .unterminatedRegex []

def percentLetter : Scan (Option Char) := do
  match (← peek).filter Char.isAlpha with
  | some letter =>
    discard next
    return some letter
  | none => return none

def percentBody (kind : Token.LiteralKind) (opener closer : Char) (interpolates : Bool) :
    Scan Emitted :=
  let scan := scanBody (if opener = closer then none else some opener) closer interpolates 0
  if kind = .regex then delimitedRegex scan .unterminatedPercentLiteral [.ofList [closer]]
  else delimited kind scan .unterminatedPercentLiteral [.ofList [closer]]

def percent : Scan Emitted := do
  discard next
  let letter ← percentLetter
  match Lexeme.percentKind letter with
  | none => fail .unknownPercentLiteral [.ofList letter.toList]
  | some (kind, interpolates) =>
    let opener := (← next).getD ' '
    match closingDelimiter opener with
    | none => fail .unknownPercentLiteral [.ofList letter.toList]
    | some closer =>
      ignore
      percentBody kind opener closer interpolates

/-- Moves over the first of some texts that the input continues with. -/
def acceptFirst : List (List Char) → Scan Unit
  | [] => return
  | text :: others => do if ← acceptText text then return else acceptFirst others

/-- The equals sign at the end of a symbol that names a setter. -/
def setterMark : Scan Unit := do
  if (← peek) == some '=' && !(← peekNth 1).any fun c => c == '=' || c == '~' || c == '>' then
    discard next
  else return

def symbol : Scan Emitted := do
  discard next
  ignore
  match ← peek with
  | none =>
    acceptFirst Lexeme.operatorSymbols
    emitted (.literal .symbol)
  | some c =>
    if c = '"' || c = '\'' then
      discard next
      ignore
      delimited .symbol (scanBody none c (c == '"') 0) .unterminatedSymbol []
    else if c = '@' then
      discard next
      discard (accept ['@'])
      if (← acceptWhile isIdentifierPart) = 0 then
        let signs ← pending
        fail .invalidVariableName [.ofList signs]
      else emitted (.literal .symbol)
    else if c = '$' then
      discard next
      if ← globalName then emitted (.literal .symbol) else fail .invalidGlobalName []
    else if isIdentifierStart c then
      discard (acceptWhile fun c => isIdentifierPart c || c == '!' || c == '?')
      setterMark
      emitted (.literal .symbol)
    else
      acceptFirst Lexeme.operatorSymbols
      emitted (.literal .symbol)

end Scan

open Scan

variable {front opened pend rest input : List Char} {c : Char} {width : Nat} {frame : Frame}
  {kind : Token.LiteralKind}

theorem emitBeforeClosing_between (kind : Token.Kind) (c : Char) :
    (emitBeforeClosing kind).run (.between front (pend ++ [c]) rest c.utf8Size) =
      some ({ kind, text := .ofList pend,
              span := .ofBounds (byteLength front) (byteLength (front ++ pend)) },
        .between (front ++ pend ++ [c]) [] rest c.utf8Size) := by
  rw [emitBeforeClosing, run_bind_eq (backup_between c), run_bind_eq (emit_between kind),
    run_bind_eq (run_discard (next_between c)), run_bind_eq ignore_between]
  rfl

/-- A frame is scanned to its end, or to that of the input where it has none. -/
theorem scanFrame_delimited (frame : Frame) (input : List Char) :
    Lexeme.delimited frame input = none ∧ Consumes (scanFrame frame) input false [] ∨
      ∃ body rest, input = body ++ frame.delimiter :: rest ∧
        Lexeme.delimited frame input = some (body, [frame.delimiter]) ∧
        ∀ front pend before, (scanFrame frame).run (.between front pend input before) =
          some (true, .between front (pend ++ body ++ [frame.delimiter]) rest
            frame.delimiter.utf8Size) := by
  have ends := unwind_ends frame [] 0 input
  rw [unwind, List.getLastD_nil] at ends
  cases found : Lexeme.bodyWidth frame [] 0 input with
  | none =>
    rw [found] at ends
    exact .inl ⟨by rw [Lexeme.delimited, found]; rfl, ends⟩
  | some last =>
    rw [found] at ends
    obtain ⟨body, rest, rfl, same, reads⟩ := ends
    obtain rfl : body.length = last := by omega
    exact .inr ⟨body, rest, rfl, by simp [Lexeme.delimited, found], reads⟩

/-- Behind its opening a literal is read up to its closing delimiter. -/
theorem recognises_delimited (kind : Token.LiteralKind) (frame : Frame)
    (message : Diagnostic.Message) (args : List String) (opened input : List Char) :
    Recognises (delimited kind (scanFrame frame) message args) opened [] input
      (Lexeme.literal kind opened frame message args input) := by
  obtain ⟨absent, consumes⟩ | ⟨body, rest, rfl, found, reads⟩ := scanFrame_delimited frame input
  · rw [Lexeme.literal, absent]
    exact .consume input consumes (List.append_nil _).symm (.fail _ _ (.inr rfl))
  · rw [Lexeme.literal, found]
    refine ⟨rest, by simp [Reading.chars, Lexeme.chars],
      fun front width => ⟨frame.delimiter.utf8Size, ?_⟩⟩
    rw [delimited, run_bind_eq (reads _ _ _)]
    exact (run_bind_eq (emitBeforeClosing_between _ _)).trans
      (by simp [Reading.emitted, Reading.chars, Lexeme.chars])

theorem optionLetters_between (front rest : List Char) (width : Nat) : ∃ width',
    optionLetters.run (.between front [] rest width) =
      some (rest.takeWhile Text.regexOptions.contains,
        .between (front ++ rest.takeWhile Text.regexOptions.contains) []
          (rest.drop (rest.takeWhile Text.regexOptions.contains).length) width') := by
  obtain ⟨taken, split, reads⟩ := (Consumes.acceptRun Text.regexOptions rest).discard
  have front' := List.prefix_iff_eq_append.mp (List.takeWhile_prefix Text.regexOptions.contains (l := rest))
  obtain rfl := List.append_cancel_right (split.symm.trans front'.symm)
  obtain ⟨width', read⟩ := reads front [] width
  refine ⟨width', ?_⟩
  rw [optionLetters, run_bind_eq read, run_bind_eq pending_between, run_bind_eq ignore_between]
  rfl

/-- The option letters of a regular expression are read behind its closing delimiter. -/
theorem recognises_delimitedRegex (frame : Frame) (message : Diagnostic.Message)
    (args : List String) (opened input : List Char) :
    Recognises (delimitedRegex (scanFrame frame) message args) opened [] input
      ((Lexeme.literal .regex opened frame message args input).map
        (Lexeme.withOptions (opened ++ input))) := by
  obtain ⟨absent, consumes⟩ | ⟨body, rest, rfl, found, reads⟩ := scanFrame_delimited frame input
  · rw [Lexeme.literal, absent]
    exact .consume input consumes (List.append_nil _).symm (.fail _ _ (.inr rfl))
  · rw [Lexeme.literal, found]
    have behind : (opened ++ (body ++ frame.delimiter :: rest)).drop
        (opened ++ body ++ [frame.delimiter] ++ []).length = rest := by
      simp
    have options : Lexeme.withOptions (opened ++ (body ++ frame.delimiter :: rest))
        { kind := .literal .regex, opening := opened, body, closing := [frame.delimiter] } =
          { kind := .literal .regex, opening := opened, body, closing := [frame.delimiter],
            options := rest.takeWhile Text.regexOptions.contains } := by
      rw [Lexeme.withOptions, Lexeme.chars, behind]
    rw [Except.map, options]
    refine ⟨rest.drop (rest.takeWhile Text.regexOptions.contains).length, ?_, fun front width => ?_⟩
    · have letters := List.prefix_iff_eq_append.mp
        (List.takeWhile_prefix Text.regexOptions.contains (l := rest))
      simp [Reading.chars, Lexeme.chars, letters]
    · obtain ⟨width', reads'⟩ := optionLetters_between
        (front ++ opened ++ body ++ [frame.delimiter]) rest frame.delimiter.utf8Size
      refine ⟨width', ?_⟩
      rw [delimitedRegex, run_bind_eq (reads _ _ _)]
      refine (run_bind_eq (emitBeforeClosing_between _ _)).trans ?_
      refine (run_bind_eq reads').trans ?_
      simp [Reading.emitted, Reading.chars, Lexeme.chars]

theorem recognises_quoted (kind : Token.LiteralKind) (quote : Char) (rest : List Char) :
    Recognises (Scan.quoted kind quote) [] [] (quote :: rest)
      (Lexeme.quoted kind quote (quote :: rest)) := by
  refine .consume [quote] (Consumes.next quote rest).discard rfl (.ignore ?_)
  exact recognises_delimited kind (.quoted quote) _ [] [quote] rest

theorem recognises_regex (rest : List Char) :
    Recognises Scan.regex [] [] ('/' :: rest) (Lexeme.regex ('/' :: rest)) := by
  refine .consume ['/'] (Consumes.next '/' rest).discard rfl (.ignore ?_)
  exact recognises_delimitedRegex (.regex false) _ [] ['/'] rest

theorem consumes_percentLetter (ahead : List Char) :
    Consumes Scan.percentLetter ahead (ahead.head?.filter Char.isAlpha)
      (ahead.drop (ahead.head?.filter Char.isAlpha).toList.length) := by
  refine (Consumes.peek ahead).bind ?_
  cases ahead with
  | nil => exact .pure _ _
  | cons c rest =>
    rw [List.head?_cons]
    cases letter : c.isAlpha with
    | true =>
      rw [Option.filter_some, if_pos letter]
      exact (Consumes.next c rest).discard.bind (.pure _ _)
    | false =>
      rw [Option.filter_some, if_neg (Bool.eq_false_iff.mp letter)]
      exact .pure _ _

/-- The body of a percent literal behind its opening delimiter. -/
theorem recognises_percentBody (kind : Token.LiteralKind) (opener closer : Char)
    (interpolates : Bool) (opened rest : List Char) :
    Recognises (percentBody kind opener closer interpolates) opened [] rest
      (let reading := Lexeme.literal kind opened
        (.body (if opener = closer then none else some opener) closer interpolates 0)
        .unterminatedPercentLiteral [.ofList [closer]] rest
      if kind = .regex then reading.map (Lexeme.withOptions (opened ++ rest)) else reading) := by
  unfold percentBody
  dsimp only
  split
  · rename_i same
    subst same
    exact recognises_delimitedRegex (.body _ closer interpolates 0) _ _ opened rest
  · exact recognises_delimited kind (.body _ closer interpolates 0) _ _ opened rest

theorem recognises_percent (rest : List Char) :
    Recognises Scan.percent [] [] ('%' :: rest) (Lexeme.percent ('%' :: rest)) := by
  refine .consume ['%'] (Consumes.next '%' rest).discard rfl ?_
  have front : (rest.head?.filter Char.isAlpha).toList <+: rest := by
    cases rest with
    | nil => exact List.nil_prefix
    | cons c rest =>
      rw [List.head?_cons, Option.filter_some]
      split
      · exact List.cons_prefix_cons.mpr ⟨rfl, List.nil_prefix⟩
      · exact List.nil_prefix
  refine .take (consumes_percentLetter rest) front ?_
  have same : Lexeme.percentLetter ('%' :: rest) = rest.head?.filter Char.isAlpha := by
    rw [Lexeme.percentLetter, List.getElem?_cons_succ, ← List.head?_eq_getElem?]
  rw [Lexeme.percent, same]
  generalize rest.head?.filter Char.isAlpha = letter at front
  obtain ⟨rest, rfl⟩ := front
  dsimp only
  rw [List.drop_left, List.length_cons, List.drop_succ_cons, List.drop_left]
  cases Lexeme.percentKind letter with
  | none => exact .fail _ _ (.inl (List.cons_ne_nil _ _))
  | some found =>
    cases rest with
    | nil => exact .look .next_nil (.fail _ _ (.inl (List.cons_ne_nil _ _)))
    | cons d more =>
      refine .consume [d] (.next d more) rfl ?_
      dsimp only [Option.getD_some]
      cases closingDelimiter d with
      | none => exact .fail _ _ (.inl (List.cons_ne_nil _ _))
      | some closer =>
        refine .ignore ?_
        have body := recognises_percentBody found.1 d closer found.2
          ('%' :: letter.toList ++ [d]) more
        simpa using body

theorem consumes_acceptFirst (texts : List (List Char)) (ahead : List Char) :
    Consumes (Scan.acceptFirst texts) ahead ()
      (ahead.drop ((texts.find? fun text => text.isPrefixOf ahead).getD []).length) := by
  induction texts with
  | nil => exact .pure _ _
  | cons text others ih =>
    rw [Scan.acceptFirst]
    cases fits : text.isPrefixOf ahead with
    | true =>
      obtain ⟨rest, rfl⟩ := List.isPrefixOf_iff_prefix.mp fits
      rw [List.find?_cons, fits, Option.getD_some, List.drop_left]
      exact (Consumes.acceptText text rest).bind (.pure _ _)
    | false =>
      rw [List.find?_cons, fits]
      exact (Consumes.acceptText_not fits).bind ih

theorem acceptFirst_front (texts : List (List Char)) (ahead : List Char) :
    (texts.find? fun text => text.isPrefixOf ahead).getD [] <+: ahead := by
  cases found : texts.find? fun text => text.isPrefixOf ahead with
  | none => exact List.nil_prefix
  | some text =>
    have fits : text.isPrefixOf ahead = true := by simpa using List.find?_some found
    exact List.isPrefixOf_iff_prefix.mp fits

def setterSign (ahead : List Char) : List Char :=
  if ahead.head? == some '=' && !ahead[1]?.any fun c => c == '=' || c == '~' || c == '>' then ['=']
  else []

theorem setterSign_front (ahead : List Char) : setterSign ahead <+: ahead := by
  unfold setterSign
  split
  · rename_i setter
    obtain ⟨rest, rfl⟩ := List.head?_eq_some_iff.mp (eq_of_beq (Bool.and_eq_true_iff.mp setter).1)
    exact ⟨rest, rfl⟩
  · exact List.nil_prefix

theorem consumes_setterMark (ahead : List Char) :
    Consumes Scan.setterMark ahead () (ahead.drop (setterSign ahead).length) := by
  refine (Consumes.peek ahead).bind ((Consumes.peekNth 1 ahead).bind ?_)
  unfold setterSign
  split
  · rename_i setter
    obtain ⟨rest, rfl⟩ := List.head?_eq_some_iff.mp (eq_of_beq (Bool.and_eq_true_iff.mp setter).1)
    exact (Consumes.next '=' rest).discard
  · exact .pure _ _

theorem symbolName_eq (input : List Char) :
    Lexeme.symbolName input =
      (input.takeWhile fun c => isIdentifierPart c || c == '!' || c == '?') ++
        setterSign (input.drop
          (input.takeWhile fun c => isIdentifierPart c || c == '!' || c == '?').length) := by
  rw [Lexeme.symbolName]
  generalize input.takeWhile _ = stem
  generalize input.drop stem.length = rest
  split
  · rename_i more
    rw [setterSign, List.head?_cons, List.getElem?_cons_succ, ← List.head?_eq_getElem?]
    cases more.head?.any _ <;> simp
  · rename_i other
    have none : setterSign rest = [] := by
      rw [setterSign, if_neg]
      intro setter
      obtain ⟨more, rfl⟩ := List.head?_eq_some_iff.mp (eq_of_beq (Bool.and_eq_true_iff.mp setter).1)
      exact other more rfl
    rw [none, List.append_nil]

theorem recognises_operatorSymbol (rest : List Char) :
    Recognises (do Scan.acceptFirst Lexeme.operatorSymbols; Scan.emitted (.literal .symbol))
      [':'] [] rest
      (.ok { kind := .literal .symbol, opening := [':'],
             body := (Lexeme.operatorSymbols.find? fun operator => operator.isPrefixOf rest).getD [] }) :=
  .take (consumes_acceptFirst _ rest) (acceptFirst_front _ rest) (.emitted _ _ _ _)

theorem recognises_symbol (rest : List Char) :
    Recognises Scan.symbol [] [] (':' :: rest) (Lexeme.symbol (':' :: rest)) := by
  refine .consume [':'] (Consumes.next ':' rest).discard rfl (.ignore (.look (.peek rest) ?_))
  cases rest with
  | nil => exact recognises_operatorSymbol []
  | cons c tail =>
    rw [Lexeme.symbol, List.drop_succ_cons, List.drop_zero]
    dsimp only [List.head?_cons]
    by_cases quote : c = '"' ∨ c = '\''
    · have marks : (c = '"' || c = '\'') = true := by simpa using quote
      have interpolates : (c == '"') = (c != '\'') := by
        rcases quote with rfl | rfl <;> rfl
      rw [if_pos marks, if_pos marks]
      refine .consume [c] (Consumes.next c tail).discard rfl (.ignore ?_)
      rw [interpolates]
      exact recognises_delimited .symbol (.quoted c) _ [] [':', c] tail
    have marks : ¬ (c = '"' || c = '\'') = true := by simpa using quote
    rw [if_neg marks, if_neg marks]
    by_cases sign : c = '@'
    · subst sign
      rw [if_pos rfl, if_pos rfl, atSigns_eq, List.length_cons, List.drop_succ_cons]
      refine .consume ['@'] (Consumes.next '@' tail).discard rfl ?_
      refine .take (consumes_optional ['@'] tail).discard (Lexeme.filter_take_one _ tail) ?_
      refine .take (Consumes.acceptWhile _ _) (List.takeWhile_prefix _) ?_
      cases (tail.drop (optional ['@'] tail).length).takeWhile isIdentifierPart with
      | nil =>
        rw [List.append_nil]
        exact .pending (.fail _ _ (.inl nofun))
      | cons d name => exact .emitted _ _ _ _
    rw [if_neg sign, if_neg sign]
    by_cases dollar : c = '$'
    · subst dollar
      rw [if_pos rfl, if_pos rfl]
      exact .consume ['$'] (Consumes.next '$' tail).discard rfl (recognises_global _ [':'] tail)
    rw [if_neg dollar, if_neg dollar]
    cases isIdentifierStart c with
    | true =>
      rw [if_pos rfl, if_pos rfl, symbolName_eq]
      refine .take (Consumes.acceptWhile _ _).discard (List.takeWhile_prefix _) ?_
      exact .take (consumes_setterMark _) (setterSign_front _) (.emitted _ _ _ _)
    | false => exact recognises_operatorSymbol (c :: tail)

end RubySyntax.Bytes
