import RubySyntax.Proofs.Data.Writing
import RubySyntax.Proofs.Lexeme.PlainHeredoc
import RubySyntax.Proofs.Lexer.Joined
import RubySyntax.Proofs.Lexer.Line

/-! Heredocs that are opened one after the other on a line. Each finds its body behind those
of the heredocs before it, and the line feed leads over all of them. -/
namespace RubySyntax

open Text (byteLength byteLength_append byteLength_cons closeLines closeLines_append closeLines_eq
  joinLines)
open Token (Kind Punct)
open Grammar (Listed)

namespace Lexer

/-- The lexer is on a line of which `tail` is left. Below the line are the bodies that are
read ahead, none in front of the first heredoc, and `rest` is behind them. -/
structure MidLine (lexer : Lexer) (front tail bodies rest : List Char) : Prop where
  place : lexer.At front (tail ++ '\n' :: (bodies ++ rest))
  inLine : '\n' ∉ tail
  waits : lexer.pending = none ∧ bodies = [] ∨
    ∃ pending, OnLine lexer pending front tail bodies ∧ pending.rest = rest

variable {lexer behind : Lexer} {front tail bodies rest passed back : List Char}

theorem MidLine.stay (mid : MidLine lexer front (passed ++ tail) bodies rest)
    (place : behind.At (front ++ passed) (tail ++ '\n' :: (bodies ++ rest)))
    (waits : behind.pending = lexer.pending) :
    MidLine behind (front ++ passed) tail bodies rest where
  place := place
  inLine := fun member => mid.inLine (List.mem_append_right passed member)
  waits := by
    obtain ⟨idle, none⟩ | ⟨pending, line, same⟩ := mid.waits
    · exact .inl ⟨waits.trans idle, none⟩
    · exact .inr ⟨pending, line.stay (same ▸ place) (waits.trans line.waits), same⟩

/-- The line feed leads over the bodies. -/
theorem MidLine.cross (mid : MidLine lexer front [] bodies rest) :
    lexer.crossLineFeed.At (front ++ '\n' :: bodies) rest ∧ lexer.crossLineFeed.pending = none := by
  obtain ⟨idle, rfl⟩ | ⟨pending, line, rfl⟩ := mid.waits
  · rw [crossLineFeed_idle idle]
    exact ⟨mid.place.skip 1, idle⟩
  · exact line.cross

/-- Where the next body is looked for. -/
theorem MidLine.base (mid : MidLine lexer front tail bodies rest) :
    ∃ base, lexer.pending.getD (.below (byteLength front) (tail ++ '\n' :: (bodies ++ rest))) = base ∧
      base.lineEnd = byteLength (front ++ tail) ∧
      base.resume = byteLength (front ++ tail ++ '\n' :: bodies) ∧ base.rest = rest := by
  obtain ⟨idle, rfl⟩ | ⟨pending, line, same⟩ := mid.waits
  · have feed : '\n'.utf8Size = 1 := rfl
    rw [idle, Option.getD_none, pending_below mid.inLine]
    exact ⟨_, rfl, (byteLength_append front tail).symm, by simp [feed, Nat.add_assoc], rfl⟩
  · rw [line.waits, Option.getD_some]
    exact ⟨pending, rfl, line.lineEnd, line.resume, same⟩

/-- A lexeme at the cursor is handed out, and the cursor is behind it. -/
theorem At.handsOut {lexeme : Lexeme} {later : Option Lexeme.Pending}
    (place : lexer.At front (lexeme.chars ++ back)) (running : lexer.halted = false)
    (stops : Stops (lexeme.chars ++ back))
    (read : Lexeme.read lexer.context (byteLength front) lexer.pending (lexeme.chars ++ back) =
      .ok (lexeme, later)) :
    ∃ token behind, lexer.Hands lexeme.kind lexeme.text token behind ∧
      behind.last = some lexeme.kind ∧ behind.At (front ++ lexeme.chars) back ∧
      behind.pending = later := by
  have token : lexer.readToken = { lexer with pending := later }.cut lexeme := by
    unfold readToken
    rw [place.ahead, place.offset, read]
  have here : ({ lexer with pending := later } : Lexer).At front (lexeme.chars ++ back) := place
  have next := next_of_token running (stops lexer false place.ahead)
  rw [token] at next
  exact ⟨_, _, ⟨next, rfl, rfl⟩, rfl, here.cut, rfl⟩

theorem MidLine.blank (mid : MidLine lexer front (' ' :: tail) bodies rest)
    (running : lexer.halted = false) :
    ∃ other : Lexer, other.next = lexer.next ∧ other.last = lexer.last ∧
      MidLine other (front ++ [' ']) tail bodies rest := by
  have mid' : MidLine lexer front ([' '] ++ tail) bodies rest := mid
  refine ⟨(lexer.skip 1).noteBlank, ?_, rfl, mid'.stay (mid.place.skip 1) rfl⟩
  exact next_of_trivia running running (skipTrivia_blank mid.place.ahead rfl false).symm

theorem MidLine.punct {p : Punct} (member : p ∈ dataPuncts)
    (mid : MidLine lexer front (p.spelling.toList ++ tail) bodies rest)
    (running : lexer.halted = false) :
    ∃ token behind, lexer.next = (some token, behind) ∧ token.kind = .punct p ∧
      behind.last = some (.punct p) ∧
      MidLine behind (front ++ p.spelling.toList) tail bodies rest := by
  have chars : Lexeme.chars { kind := .punct p, body := p.spelling.toList } = p.spelling.toList := by
    simp [Lexeme.chars]
  have place := mid.place
  have stops := stops_dataPunct member (tail ++ '\n' :: (bodies ++ rest))
  have read := Lexeme.read_dataPunct member lexer.context (byteLength front) lexer.pending
    (tail ++ '\n' :: (bodies ++ rest))
  rw [List.append_assoc, ← chars] at place
  rw [← chars] at stops
  obtain ⟨token, behind, hands, last, reached, waits⟩ :=
    place.handsOut running stops (by rw [chars]; exact read)
  rw [chars] at reached
  exact ⟨token, behind, hands.read, hands.kind, last, mid.stay reached waits⟩

theorem Run.of_next {other : Lexer} (run : Run other tokens behind) (same : other.next = lexer.next)
    (some : tokens ≠ []) : Run lexer tokens behind := by
  cases run with
  | done => exact absurd rfl some
  | more read rest => exact .more (same ▸ read) rest

/-- A heredoc is one token, and its text are the lines. -/
inductive IsHeredoc (heredoc : Heredoc) : List Token → Prop where
  | token {token : Token} (kind : token.kind = .literal .template)
      (text : token.text = String.ofList heredoc.text) : IsHeredoc heredoc [token]

/-- An element of an array is next. -/
def AtElement (lexer : Lexer) : Prop :=
  lexer.last = some (.punct .openBracket) ∨ lexer.last = some (.punct .comma)

theorem AtElement.running (element : lexer.AtElement) : lexer.halted = false := by
  rcases element with last | last
  · exact halted_of_last last
  · exact halted_of_last last

theorem AtElement.operand (element : lexer.AtElement) :
    lexer.context.expectsOperand = true ∧ lexer.context.namesMethod = false := by
  unfold context
  rcases element with last | last
  · rw [last]
    exact ⟨rfl, rfl⟩
  · rw [last]
    exact ⟨rfl, rfl⟩

theorem stops_heredoc (heredoc : Heredoc) (rest : List Char) : Stops (heredoc.mark ++ rest) :=
  stops_cons (by decide) rfl (by decide) (by decide) rfl

/-- Behind a heredoc its block has been read ahead as well. -/
theorem MidLine.heredoc {heredoc : Heredoc} (element : lexer.AtElement)
    (mid : MidLine lexer front (heredoc.mark ++ tail) bodies (closeLines heredoc.block ++ rest))
    (apart : tail.head?.any Text.isIdentifierPart = false) :
    ∃ token behind, lexer.next = (some token, behind) ∧ IsHeredoc heredoc [token] ∧
      behind.halted = false ∧
      MidLine behind (front ++ heredoc.mark) tail (bodies ++ closeLines heredoc.block) rest := by
  obtain ⟨base, same, lineEnd, resume, below⟩ := mid.base
  obtain ⟨operand, unnamed⟩ := element.operand
  have place := mid.place
  rw [List.append_assoc, ← below] at place same
  have apart' : (tail ++ '\n' :: (bodies ++ base.rest)).head?.any Text.isIdentifierPart = false := by
    cases tail with
    | nil => exact Lexeme.isIdentifierPart_lineFeed
    | cons c tail => exact apart
  have read := heredoc.read_mark operand unnamed apart' same below
  have stops := stops_heredoc heredoc (tail ++ '\n' :: (bodies ++ base.rest))
  rw [← heredoc.chars_lexeme] at place stops read
  obtain ⟨token, behind, hands, last, reached, waits⟩ := place.handsOut element.running stops read
  rw [heredoc.chars_lexeme] at reached
  have filled : closeLines heredoc.block ≠ [] := by simp [Heredoc.block, closeLines]
  have opened := onLine_of_opener mid.inLine lineEnd resume reached waits (List.cons_ne_nil _ _)
    below filled rfl rfl
  exact ⟨token, behind, hands.read, .token hands.kind hands.text, halted_of_last last,
    opened.place, opened.inLine, .inr ⟨_, opened, rfl⟩⟩

/-- The list of heredocs is handed out, and the blocks of all of them are read ahead. -/
theorem MidLine.listed {heredocs : List Heredoc} (element : lexer.AtElement)
    (mid : MidLine lexer front (Datum.listed (heredocs.map Heredoc.mark) ++ ']' :: tail) bodies
      (closeLines (heredocs.flatMap Heredoc.block) ++ rest)) :
    ∃ tokens behind, Run lexer tokens behind ∧ Listed IsHeredoc heredocs tokens ∧
      behind.halted = false ∧
      MidLine behind (front ++ Datum.listed (heredocs.map Heredoc.mark)) (']' :: tail)
        (bodies ++ closeLines (heredocs.flatMap Heredoc.block)) rest := by
  induction heredocs generalizing lexer front bodies with
  | nil =>
    refine ⟨[], lexer, .done, .none, element.running, ?_⟩
    simpa [Datum.listed, closeLines] using mid
  | cons heredoc heredocs ih =>
    rw [List.flatMap_cons, closeLines_append, List.append_assoc] at mid
    rw [List.flatMap_cons, closeLines_append, ← List.append_assoc]
    cases heredocs with
    | nil =>
      rw [List.map_singleton, Datum.listed_singleton] at mid
      obtain ⟨token, behind, read, isHeredoc, running, mid⟩ :=
        mid.heredoc element (Lexeme.endsName_datum (endsDatum_cons (by decide) _)).apart
      refine ⟨[token], behind, .more read .done, .last isHeredoc, running, ?_⟩
      simpa [Datum.listed_singleton, closeLines] using mid
    | cons next heredocs =>
      rw [List.map_cons, List.map_cons, Datum.listed_cons_cons, ← List.map_cons,
        List.append_assoc] at mid
      obtain ⟨token, behind, read, isHeredoc, running, mid⟩ :=
        mid.heredoc element (Lexeme.endsName_datum (endsDatum_cons (by decide) _)).apart
      obtain ⟨mark, stop, readMark, isComma, last, mid⟩ :=
        MidLine.punct (p := .comma) (by decide) mid running
      obtain ⟨start, same, lastStart, mid⟩ := mid.blank (halted_of_last last)
      obtain ⟨tokens, final, run, listed, running, mid⟩ := ih (.inr (lastStart.trans last)) mid
      have some : tokens ≠ [] := by
        cases listed with
        | last item =>
          cases item
          exact List.cons_ne_nil _ _
        | more _ _ _ => simp
      have spelled : Punct.comma.spelling.toList = [','] := rfl
      refine ⟨token :: mark :: tokens, final, .more read (.more readMark (run.of_next same some)),
        .more isHeredoc isComma listed, running, ?_⟩
      simpa [spelled, Datum.listed_cons_cons] using mid

end Lexer

namespace Heredoc

/-- The lines of an array of heredocs: its own, and the blocks of the heredocs below it. -/
def arrayLines (heredocs : List Heredoc) : List (List Char) :=
  ('[' :: (Datum.listed (heredocs.map mark) ++ [']'])) :: heredocs.flatMap block

/-- An array of heredocs as it is written, each of its lines ended. -/
def array (heredocs : List Heredoc) : String := String.ofList (closeLines (arrayLines heredocs))

theorem lineFeed_not_mem_listed (heredocs : List Heredoc) :
    '\n' ∉ Datum.listed (heredocs.map mark) := by
  induction heredocs with
  | nil => simp [Datum.listed]
  | cons heredoc heredocs ih =>
    cases heredocs with
    | nil =>
      rw [List.map_singleton, Datum.listed_singleton]
      exact heredoc.lineFeed_not_mem_mark
    | cons next heredocs =>
      rw [List.map_cons, List.map_cons, Datum.listed_cons_cons, ← List.map_cons, List.mem_append]
      exact not_or.mpr ⟨heredoc.lineFeed_not_mem_mark, by simpa using ih⟩

end Heredoc

namespace Lexer

theorem ofSource_midLine (heredocs : List Heredoc) (more : String) :
    MidLine (ofSource (Heredoc.array heredocs ++ more)) []
      ('[' :: (Datum.listed (heredocs.map Heredoc.mark) ++ [']'])) []
      (closeLines (heredocs.flatMap Heredoc.block) ++ more.toList) where
  place := by
    have place := ofSource_at (Heredoc.array heredocs ++ more)
    simpa [Heredoc.array, Heredoc.arrayLines, closeLines] using place
  inLine := by simp [Heredoc.lineFeed_not_mem_listed heredocs]
  waits := .inl ⟨rfl, rfl⟩

/-- Behind a value the line feed is a token, and the text goes on behind the bodies. -/
theorem MidLine.lineFeed (mid : MidLine lexer front [] bodies rest) (last : lexer.last = some kind)
    (running : kind.isTerminal = false) (value : kind.isSeparator = false)
    (noDot : leadingDotFollows rest = false) :
    ∃ token behind, lexer.next = (some token, behind) ∧ token.kind = .newLine ∧
      behind.last = some .newLine ∧ behind.At (front ++ '\n' :: bodies) rest ∧
      behind.pending = none := by
  obtain ⟨crossed, idle⟩ := mid.cross
  have separates : lexer.crossLineFeed.separates = true := by
    rw [separates, crossLineFeed_last, last, crossed.ahead, noDot, Option.any_some, value]
    rfl
  have skipped := skipTrivia_lineFeed mid.place.ahead false
  rw [if_pos separates] at skipped
  exact ⟨_, _, next_of_separator ((halted_of_last last).trans running) skipped, rfl, rfl, crossed, idle⟩

end Lexer

open Lexer

/-- The tokens of an array of heredocs with a source behind it: those of the array, a line
break, and those of the source, further on by the lines of the array. -/
theorem scan_array (heredocs : List Heredoc) {more : String} {begins : Token} {rest : List Token}
    (scanned : (scan more).1 = begins :: rest) (noDot : leadingDotFollows more.toList = false) :
    ∃ opening inner closing feed spacing,
      (scan (Heredoc.array heredocs ++ more)).1 = opening :: (inner ++ [closing]) ++ [feed] ++
        { begins.moved (byteLength (Heredoc.array heredocs).toList) with spacing } ::
          rest.map (Token.moved (byteLength (Heredoc.array heredocs).toList)) ∧
      opening.kind = .punct .openBracket ∧ Listed IsHeredoc heredocs inner ∧
      closing.kind = .punct .closeBracket ∧
      (∀ token ∈ opening :: (inner ++ [closing]), token.isTerminal = false) ∧
      feed.kind = .newLine := by
  obtain ⟨opening, start, readOpening, isOpener, lastOpening, mid⟩ :=
    MidLine.punct (p := .openBracket) (by decide) (ofSource_midLine heredocs more) rfl
  obtain ⟨inner, stop, run, listed, running, mid⟩ := mid.listed (.inl lastOpening)
  obtain ⟨closing, behind, readClosing, isCloser, lastClosing, mid⟩ :=
    MidLine.punct (p := .closeBracket) (by decide) mid running
  obtain ⟨feed, below, readFeed, isFeed, lastFeed, place, idle⟩ :=
    mid.lineFeed lastClosing rfl rfl noDot
  obtain ⟨final, run', halted'⟩ := run_of_scan scanned
  have lines : (Heredoc.array heredocs).toList =
      joinLines (Heredoc.arrayLines heredocs) ++ ['\n'] :=
    String.toList_ofList.trans (closeLines_eq (List.cons_ne_nil _ _))
  have stands : below.At (joinLines (Heredoc.arrayLines heredocs) ++ ['\n']) more.toList := by
    have spelled : Punct.openBracket.spelling.toList = ['['] ∧
        Punct.closeBracket.spelling.toList = [']'] := ⟨rfl, rfl⟩
    rw [← lines]
    simpa [Heredoc.array, Heredoc.arrayLines, closeLines, spelled] using place
  obtain ⟨spacing, final', further, halts⟩ := run'.behindLine stands idle (by rw [lastFeed]; rfl)
  have array : Run (ofSource (Heredoc.array heredocs ++ more)) (opening :: (inner ++ [closing]))
      behind := .more readOpening (run.append (.more readClosing .done))
  have whole := (array.snoc readFeed).append further
  have halted : final'.halted = true := by rw [Lexer.halted, halts]; exact halted'
  refine ⟨opening, inner, closing, feed, spacing, ?_, isOpener, listed, isCloser, array.all_running
    (halted_of_last lastClosing), isFeed⟩
  rw [scan_of_run whole halted, lines]

end RubySyntax
