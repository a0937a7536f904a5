import RubySyntax.Proofs.Lexer.Line

/-! The lines below a heredoc belong to its body alone. The lexer keeps to them as
long as no token runs over the end of a line that opens a heredoc. -/
namespace RubySyntax

open Text (byteLength byteLength_append byteLength_cons isLineBreak)
open Lexeme (HeredocOpener)

namespace Lexer

variable {lexer behind : Lexer} {pending : Lexeme.Pending} {front tail bodies : List Char}

/-- A heredoc that is taken has its block, and from here on no token takes any of it. -/
structure Opens (source : List Char) (previous : Option Block) (taken : Taken) (behind : Lexer)
    (opener : HeredocOpener) (block : Block) : Prop where
  found : Block.of? source previous taken.token.span.start opener = some block
  line : block.line = lineEnd source taken.token.span.start
  start : block.start = Block.startBelow previous block.line
  below : block.line < block.start
  filled : block.start < block.stop
  text : taken.token.text = String.ofList (opener.textOf block.body)
  barred : ∀ offset, block.start ≤ offset → offset < block.stop → behind.Barred offset
  before : ∀ other, previous = some other → other.line = block.line ∨ behind.Barred other.line
  ready : Ready source behind (some block)

/-- What is taken leaves the line of the last heredoc and the lines below it as
they are. -/
structure Tidy (source : List Char) (lexer : Lexer) (previous : Option Block) (taken : Taken)
    (behind : Lexer) : Prop where
  spares : ∀ block, previous = some block → taken.Spares block.line
  barred : ∀ offset, lexer.Barred offset → ¬ taken.takes offset ∧ behind.Barred offset
  plain : taken.opener? = none → Ready source behind previous
  opens : ∀ opener, taken.opener? = some opener →
    ∃ block, Opens source previous taken behind opener block

variable {taken : Taken} {previous : Option Block}

theorem not_takes_barred (before : taken.first = lexer.scanner.offset)
    (within : ∀ pending, lexer.pending = some pending → taken.stop ≤ pending.lineEnd + 1)
    (barred : lexer.Barred offset) : ¬ taken.takes offset := by
  rintro ⟨low, high⟩
  obtain passed | ⟨pending, waits, below, _⟩ := barred
  · omega
  · have bound := within pending waits
    omega

theorem tidy_separator (ready : Ready source lexer previous)
    (feed : lexer.scanner.ahead = '\n' :: rest) (start : taken.first = lexer.scanner.offset)
    (kind : taken.token.kind = .newLine) (stop : taken.stop = taken.first + 1)
    (plain : taken.opener? = none) (scanner : behind.scanner = lexer.crossLineFeed.scanner)
    (waits : behind.pending = lexer.crossLineFeed.pending) :
    Tidy source lexer previous taken behind := by
  obtain ⟨crossed, kept⟩ := crossLineFeed_ready feed ready
  constructor
  · exact fun _ _ other => absurd kind other
  · intro offset barred
    refine ⟨not_takes_barred start (fun pending waits => ?_) barred,
      (kept offset barred).congr scanner waits⟩
    have before := ready.offset_le waits
    omega
  · exact fun _ => crossed.congr scanner waits
  · intro opener opens
    rw [plain] at opens
    cases opens

theorem tidy_token (ready : Ready source lexer previous) (place : lexer.At front (chars ++ rest))
    (start : taken.first = byteLength front) (closed : chars.getLast? ≠ some '\n' ∨ rest = [])
    (kind : taken.token.kind ≠ .newLine) (stop : taken.stop = byteLength (front ++ chars))
    (plain : taken.opener? = none) (after : behind.At (front ++ chars) rest)
    (waits : behind.pending = lexer.pending) :
    taken.Swallows previous ∨ Tidy source lexer previous taken behind := by
  have opens : ∀ opener, taken.opener? = some opener → False := by simp [plain]
  cases ready with
  | idle known whole empty passed =>
    obtain ⟨rfl, rfl⟩ := known.unique place
    obtain ⟨stays, kept⟩ := (At.advances place after).ready place whole empty (waits.trans empty) passed
    refine .inr ⟨?_, fun offset barred => ⟨?_, kept offset barred⟩, fun _ => stays,
      fun opener found => (opens opener found).elim⟩
    · rintro block same _ ⟨low, _⟩
      have before := passed block same
      omega
    · refine not_takes_barred (start.trans place.offset.symm) (fun pending found => ?_) barred
      rw [empty] at found
      cases found
  | @onLine _ tail bodies block pending line whole lineEnd blockStop =>
    obtain ⟨rfl, split⟩ := line.place.unique place
    obtain ⟨left, rfl, rfl⟩ | ⟨beyond, rfl, below⟩ := Text.front_of_line split
    · have stays := line.stay after (waits.trans line.waits)
      have bound : taken.stop ≤ pending.lineEnd := by
        rw [stop, line.lineEnd]
        simp
      refine .inr ⟨?_, fun offset barred => ⟨?_, line.barred stays barred⟩,
        fun _ => .onLine stays (by simpa using whole) lineEnd blockStop,
        fun opener found => (opens opener found).elim⟩
      · rintro _ ⟨⟩ _ ⟨_, high⟩
        omega
      · refine not_takes_barred (start.trans place.offset.symm) (fun other found => ?_) barred
        rw [line.waits] at found
        obtain rfl := Option.some.inj found
        exact Nat.le_succ_of_le bound
    · -- A token does not end in the line feed, so it takes the first byte below the line as well.
      have more : beyond ≠ [] := by
        rintro rfl
        obtain visible | rfl := closed
        · exact visible (by simp)
        · exact line.filled (List.append_eq_nil_iff.mp below).1
      have wide : block.line + 1 < taken.stop := by
        have bytes := byteLength_pos more
        have feed : '\n'.utf8Size = 1 := rfl
        rw [stop, lineEnd, line.lineEnd]
        simp only [byteLength_append, byteLength_cons]
        omega
      have low : taken.first ≤ block.line := by
        rw [start, lineEnd, line.lineEnd]
        simp
      exact .inl ⟨block, rfl, fun spares => spares kind ⟨low, by omega⟩, by omega, wide⟩

/-- Where the body of a heredoc begins that is opened between `front` and `back`:
`tail` is left of the line, and the bodies read before it stand `above`. -/
structure Base (source : List Char) (previous : Option Block) (front back : List Char)
    (base : Lexeme.Pending) (tail above : List Char) : Prop where
  whole : front ++ back = source
  split : back = tail ++ '\n' :: (above ++ base.rest)
  inLine : '\n' ∉ tail
  lineEnd : base.lineEnd = byteLength (front ++ tail)
  resume : base.resume = byteLength (front ++ tail ++ '\n' :: above)
  begins : Block.startBelow previous base.lineEnd = base.resume
  known : ∀ block, previous = some block →
    block.line + 1 < byteLength front ∨ block.line = base.lineEnd

theorem Ready.base {base : Lexeme.Pending} (ready : Ready source lexer previous)
    (place : lexer.At front back)
    (same : lexer.pending.getD (.below (byteLength front) back) = base) (more : base.rest ≠ []) :
    ∃ tail above, Base source previous front back base tail above := by
  cases ready with
  | idle known whole empty passed =>
    obtain ⟨rfl, rfl⟩ := place.unique known
    rw [empty, Option.getD_none] at same
    subst same
    obtain ⟨tail, rest, rfl, inLine⟩ := Text.line_split more
    rw [pending_below inLine]
    have feed : '\n'.utf8Size = 1 := rfl
    refine ⟨tail, [], whole, rfl, inLine, by simp, by simp [Nat.add_assoc, feed], ?_,
      fun block found => .inl (passed block found)⟩
    cases previous with
    | none => rfl
    | some block =>
      have before := passed block rfl
      exact if_neg (by dsimp only; omega)
  | @onLine _ tail bodies block pending line whole lineEnd blockStop =>
    obtain ⟨rfl, rfl⟩ := line.place.unique place
    rw [line.waits, Option.getD_some] at same
    subst same
    refine ⟨tail, bodies, whole, rfl, line.inLine, line.lineEnd, line.resume, ?_, ?_⟩
    · rw [Block.startBelow, if_pos lineEnd, blockStop]
    · rintro _ ⟨⟩
      exact .inr lineEnd

namespace Base

variable {source back above : List Char} {base later : Lexeme.Pending}

theorem lineEnd_lt (here : Base source previous front back base tail above) :
    base.lineEnd < base.resume := by
  have feed : '\n'.utf8Size = 1 := rfl
  rw [here.lineEnd, here.resume, byteLength_append (front ++ tail), byteLength_cons]
  omega

theorem dropBytes? (here : Base source previous front back base tail above) :
    Lexeme.dropBytes? base.resume source = some base.rest := by
  have lead : source = (front ++ tail ++ '\n' :: above) ++ base.rest := by
    simp [← here.whole, here.split]
  rw [lead, here.resume, Lexeme.dropBytes?_append]

theorem lineEnd_eq (here : Base source previous front back base tail above) :
    RubySyntax.lineEnd source (byteLength front) = base.lineEnd := by
  rw [← here.whole, here.split, lineEnd_append here.inLine, here.lineEnd]

/-- The block of the heredoc, by the source alone. -/
theorem block {opener : HeredocOpener} (here : Base source previous front back base tail above)
    (found : Lexeme.heredocBody opener.name opener.indented base.rest = some (lines, rest)) :
    Block.of? source previous (byteLength front) opener =
      some ⟨base.lineEnd, base.resume,
        base.resume + (byteLength base.rest - byteLength rest), lines⟩ := by
  simp [Block.of?, here.lineEnd_eq, here.begins, here.dropBytes?, found]

end Base

theorem tidy_heredoc {opener : HeredocOpener} {base later : Lexeme.Pending}
    (ready : Ready source lexer previous) (place : lexer.At front (opener.chars ++ rest))
    (start : taken.first = byteLength front) (advances : opener.chars ≠ [])
    (clean : '\n' ∉ opener.chars) (stop : taken.stop = byteLength (front ++ opener.chars))
    (opens : taken.opener? = some opener) (after : behind.At (front ++ opener.chars) rest)
    (waits : behind.pending = some later)
    (text : taken.token.text = String.ofList (opener.textOf lines))
    (first : taken.token.span.start = taken.first)
    (same : lexer.pending.getD (.below (byteLength front) (opener.chars ++ rest)) = base)
    (found : Lexeme.heredocBody opener.name opener.indented base.rest = some (lines, later.rest))
    (lineSame : later.lineEnd = base.lineEnd)
    (resume : later.resume = base.resume + (byteLength base.rest - byteLength later.rest)) :
    Tidy source lexer previous taken behind := by
  obtain ⟨region, filled, below⟩ := Lexeme.heredocBody_region found
  obtain ⟨tail, above, here⟩ := ready.base place same (by simp [below, filled])
  obtain ⟨left, rfl, rfl⟩ | ⟨beyond, runs, _⟩ := Text.front_of_line here.split.symm
  · have resumed : later.resume = base.resume + byteLength region := by
      rw [resume, below, byteLength_append]
      omega
    have stays := onLine_of_opener here.inLine here.lineEnd here.resume after waits advances below
      filled lineSame resumed
    have isBlock : Block.of? source previous taken.token.span.start opener =
        some ⟨base.lineEnd, base.resume, later.resume, lines⟩ := by
      rw [first, start, here.block found, resume]
    have bound : taken.stop ≤ base.lineEnd := by
      rw [stop, here.lineEnd]
      simp
    have wide := byteLength_pos filled
    have beneath := here.lineEnd_lt
    have barred : ∀ offset, lexer.Barred offset → behind.Barred offset := by
      rintro offset (before | ⟨other, found, low, high⟩)
      · refine .inl (Nat.lt_of_lt_of_le before ?_)
        rw [place.offset, after.offset]
        simp
      · rw [found, Option.getD_some] at same
        subst same
        exact .inr ⟨later, waits, by omega, by omega⟩
    refine ⟨?_, fun offset bar => ⟨?_, barred offset bar⟩, by simp [opens], ?_⟩
    · rintro block same _ ⟨low, high⟩
      obtain before | equal := here.known block same
      · omega
      · omega
    · refine not_takes_barred (start.trans place.offset.symm) (fun other found => ?_) bar
      rw [found, Option.getD_some] at same
      subst same
      exact Nat.le_succ_of_le bound
    · rintro _ found
      obtain rfl := Option.some.inj (opens.symm.trans found)
      have placed : base.lineEnd = lineEnd source taken.token.span.start := by
        rw [first, start, here.lineEnd_eq]
      refine ⟨_, isBlock, placed, here.begins.symm, beneath, ?_, text, ?_, ?_,
        .onLine stays ?_ lineSame.symm rfl⟩
      · show base.resume < later.resume
        omega
      · intro offset low high
        exact .inr ⟨later, waits, by dsimp only at low; omega, high⟩
      · refine fun other same => (here.known other same).symm.imp id fun passed => .inl ?_
        rw [after.offset, byteLength_append]
        omega
      · simpa [below] using here.whole
  · exact absurd (by simp [runs]) clean

theorem Takes.tidy (takes : Takes lexer taken behind front back) (place : lexer.At front back)
    (first : taken.first = byteLength front) (ready : Ready source lexer previous) :
    taken.Swallows previous ∨ Tidy source lexer previous taken behind := by
  have start : taken.first = lexer.scanner.offset := first.trans place.offset.symm
  cases takes with
  | separator rest feed kind stop plain scanner pending =>
    exact .inr (tidy_separator ready (place.ahead.trans feed) start kind stop plain scanner pending)
  | token chars rest split closed kind stop plain after pending =>
    subst split
    exact tidy_token ready place first closed kind stop plain after pending
  | heredoc opener rest lines later split advances clean _ stop opens after pending text same found
      lineEnd resume =>
    subst split
    exact .inr (tidy_heredoc ready place first advances clean stop opens after pending text same rfl
      found lineEnd resume)

/-- The next token leaves everything tidy, or it runs over the end of the line of
the last heredoc. -/
theorem nextTaken_tidy (ready : Ready source lexer previous) :
    lexer.nextTaken.1.Swallows previous ∨
      Tidy source lexer previous lexer.nextTaken.1 lexer.nextTaken.2 := by
  obtain ⟨front, back, place⟩ : ∃ front back, lexer.At front back := by
    cases ready with
    | idle place _ _ _ => exact ⟨_, _, place⟩
    | onLine line _ _ _ => exact ⟨_, _, line.place⟩
  obtain ⟨here, passed, rest, passes, rfl, reached, first, _, takes⟩ := nextTaken_takes place
  obtain ⟨readyHere, kept⟩ := passes.ready ready
  refine (takes.tidy reached first readyHere).imp id fun tidy => ⟨tidy.spares, ?_, tidy.plain, tidy.opens⟩
  exact fun offset barred => tidy.barred offset (kept offset barred)

/-- No token of a list runs over the end of the line of the last heredoc. -/
def SparesAll (previous : Option Block) (tokens : List Taken) : Prop :=
  ∀ block, previous = some block → ∀ taken ∈ tokens, taken.Spares block.line

theorem Swallows.not_spares {tokens : List Taken} (swallows : taken.Swallows previous)
    (spares : SparesAll previous (taken :: tokens)) : False := by
  obtain ⟨block, same, runs, _⟩ := swallows
  exact runs (spares block same taken List.mem_cons_self)

theorem SparesAll.of_cons {later : List Taken} (spares : SparesAll previous (taken :: later)) :
    SparesAll previous later :=
  fun block same other member => spares block same other (List.mem_cons_of_mem _ member)

theorem SparesAll.cons {later : List Taken}
    (head : ∀ block, previous = some block → taken.Spares block.line)
    (spares : SparesAll previous later) : SparesAll previous (taken :: later) := by
  intro block same other member
  obtain rfl | member := List.mem_cons.mp member
  · exact head block same
  · exact spares block same other member

theorem Opens.sparesAll {block : Block} {later : List Taken}
    (opened : Opens source previous taken behind opener block)
    (head : ∀ other ∈ later, other.Spares (lineEnd source taken.token.span.start)) :
    SparesAll (some block) later := by
  rintro _ ⟨⟩ other member
  rw [opened.line]
  exact head other member

theorem Tidy.carry {later : List Taken} (tidy : Tidy source lexer previous taken behind)
    (undivided : Undivided source (taken :: later)) (spares : SparesAll previous (taken :: later)) :
    ∃ after, Ready source behind after ∧ SparesAll after later := by
  obtain ⟨head, rest⟩ := List.pairwise_cons.mp undivided
  cases opens : taken.opener? with
  | none =>
    exact ⟨previous, tidy.plain opens, spares.of_cons⟩
  | some opener =>
    obtain ⟨block, opened⟩ := tidy.opens opener opens
    refine ⟨some block, opened.ready, opened.sparesAll fun other member => ?_⟩
    exact head other member (by simp [opens])

/-- As long as no token runs over the end of a line that opens a heredoc, none
takes what is behind the cursor or read ahead. -/
theorem takings_barred (count : Nat) (ready : Ready source lexer previous)
    (undivided : Undivided source (takings count lexer))
    (spares : SparesAll previous (takings count lexer)) (barred : lexer.Barred offset) :
    ∀ taken ∈ takings count lexer, ¬ taken.takes offset := by
  induction count generalizing lexer previous with
  | zero => exact fun _ member => absurd member List.not_mem_nil
  | succ count ih =>
    rw [takings] at undivided spares ⊢
    split at undivided
    · rename_i halted
      simp [halted]
    · rename_i running
      rw [if_neg running] at spares ⊢
      obtain swallows | tidy := nextTaken_tidy ready
      · exact (Swallows.not_spares swallows spares).elim
      · obtain ⟨after, next, sparesAfter⟩ := tidy.carry undivided spares
        obtain ⟨misses, kept⟩ := tidy.barred offset barred
        intro taken member
        obtain rfl | member := List.mem_cons.mp member
        · exact misses
        · exact ih next (List.pairwise_cons.mp undivided).2 sparesAfter kept taken member

theorem isolated_of_undivided (count : Nat) (ready : Ready source lexer previous)
    (undivided : Undivided source (takings count lexer))
    (spares : SparesAll previous (takings count lexer)) :
    Isolated source previous (takings count lexer) := by
  induction count generalizing lexer previous with
  | zero => exact trivial
  | succ count ih =>
    rw [takings] at undivided spares ⊢
    split at undivided
    · rename_i halted
      simp [halted, Isolated]
    · rename_i running
      rw [if_neg running] at spares ⊢
      obtain swallows | tidy := nextTaken_tidy ready
      · exact (Swallows.not_spares swallows spares).elim
      · obtain ⟨head, rest⟩ := List.pairwise_cons.mp undivided
        rw [Isolated]
        cases opens : lexer.nextTaken.1.opener? with
        | none =>
          exact ih (tidy.plain opens) rest spares.of_cons
        | some opener =>
          obtain ⟨block, opened⟩ := tidy.opens opener opens
          have sparesBlock : SparesAll (some block) (takings count lexer.nextTaken.2) :=
            opened.sparesAll fun other member => head other member (by simp [opens])
          simp only [opened.found]
          refine ⟨opened.below, opened.text, fun other member meets => ?_,
            ih opened.ready rest sparesBlock⟩
          obtain ⟨offset, takes, low, high⟩ := meets.offset
          exact takings_barred count opened.ready rest sparesBlock (opened.barred offset low high)
            other member takes

/-- The first byte below a line is in the block of the first heredoc on it. -/
theorem Opens.misses_first {block : Block} {other : Taken}
    (opened : Opens source previous taken behind opener block) (apart : ¬ other.Meets block)
    (clear : ∀ earlier, previous = some earlier → ¬ other.takes (earlier.line + 1)) :
    ¬ other.takes (block.line + 1) := by
  have filled := opened.filled
  have start := opened.start
  have first (same : block.start = block.line + 1) : ¬ other.takes (block.line + 1) := by
    rintro ⟨low, high⟩
    exact apart (by unfold Taken.Meets; omega)
  cases previous with
  | none => exact first start
  | some earlier =>
    by_cases same : earlier.line = block.line
    · exact same ▸ clear earlier rfl
    · exact first (start.trans (if_neg same))

/-- A token that runs over the end of a line takes the first byte below it as well. -/
theorem undivided_of_isolated (count : Nat) (ready : Ready source lexer previous)
    (isolated : Isolated source previous (takings count lexer))
    (below : ∀ block, previous = some block →
      ∀ taken ∈ takings count lexer, ¬ taken.takes (block.line + 1)) :
    Undivided source (takings count lexer) ∧ SparesAll previous (takings count lexer) := by
  induction count generalizing lexer previous with
  | zero => exact ⟨.nil, fun _ _ _ member => absurd member List.not_mem_nil⟩
  | succ count ih =>
    rw [takings] at isolated below ⊢
    split at isolated
    · rename_i halted
      rw [if_pos halted]
      exact ⟨.nil, fun _ _ _ member => absurd member List.not_mem_nil⟩
    · rename_i running
      rw [if_neg running] at below ⊢
      obtain ⟨block, same, _, takes⟩ | tidy := nextTaken_tidy ready
      · exact absurd takes (below block same _ List.mem_cons_self)
      · rw [Isolated] at isolated
        cases opens : lexer.nextTaken.1.opener? with
        | none =>
          simp only [opens] at isolated
          obtain ⟨undivided, spares⟩ := ih (tidy.plain opens) isolated fun block same other member =>
            below block same other (List.mem_cons_of_mem _ member)
          refine ⟨.cons (fun _ _ absent => ?_) undivided, .cons tidy.spares spares⟩
          simp [opens] at absent
        | some opener =>
          obtain ⟨block, opened⟩ := tidy.opens opener opens
          simp only [opens, opened.found] at isolated
          obtain ⟨_, _, apart, isolated⟩ := isolated
          have belowBlock : ∀ next, some block = some next →
              ∀ other ∈ takings count lexer.nextTaken.2, ¬ other.takes (next.line + 1) := by
            rintro _ ⟨⟩ other member
            exact opened.misses_first (apart other member) fun earlier same =>
              below earlier same other (List.mem_cons_of_mem _ member)
          obtain ⟨undivided, spares⟩ := ih opened.ready isolated belowBlock
          refine ⟨.cons (fun other member _ => ?_) undivided, .cons tidy.spares ?_⟩
          · rw [← opened.line]
            exact spares block rfl other member
          · intro earlier same other member
            obtain line | barred := opened.before earlier same
            · rw [line]
              exact spares block rfl other member
            · exact fun _ => takings_barred count opened.ready undivided spares barred other member

end Lexer

/-- A heredoc has the text of the lines below its own, and these lines go to no
later token, exactly if no token runs over the end of the line of a heredoc. -/
theorem isolated_iff_undivided (source : String) :
    (takings source).map Taken.token = (scan source).1 ∧
      (∀ taken ∈ takings source, taken.Bounds) ∧
      (Isolated source.toList none (takings source) ↔ Undivided source.toList (takings source)) := by
  have start : Lexer.Ready source.toList (.ofSource source) none :=
    .idle (Lexer.ofSource_at source) rfl rfl (by simp)
  refine ⟨Lexer.takings_tokens _ _, Lexer.takings_bounds _ (Lexer.ofSource_at source), ?_, ?_⟩
  · intro isolated
    exact (Lexer.undivided_of_isolated _ start isolated (by simp)).1
  · intro undivided
    exact Lexer.isolated_of_undivided _ start undivided (by simp [Lexer.SparesAll])

/-- Where a string runs over the end of the line, the lines below are read as code,
and the next heredoc has its text from in front of its own line. -/
theorem not_isolated_of_string_over_line :
    ¬ Isolated "[<<A, 'x\nbody\nA\ny']\n<<B\nb\nB\n".toList none
      (takings "[<<A, 'x\nbody\nA\ny']\n<<B\nb\nB\n") := by
  decide +kernel

end RubySyntax
