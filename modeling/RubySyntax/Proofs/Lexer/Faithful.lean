import RubySyntax.Proofs.Lexeme.Written
import RubySyntax.Proofs.Lexer.Block

namespace RubySyntax

open Text (byteLength byteLength_append Span)
open Lexeme (dedent)

/-- The span is the place of `slice` in the source, so both its bounds are
boundaries of characters. -/
def Text.Span.Covers (span : Span) (source slice : List Char) : Prop :=
  ∃ front back, source = front ++ slice ++ back ∧
    span.start = byteLength front ∧ span.length = byteLength slice

theorem Text.Span.covers_ofBounds (front slice back : List Char) :
    (Span.ofBounds (byteLength front) (byteLength (front ++ slice))).Covers
      (front ++ slice ++ back) slice :=
  ⟨front, back, rfl, rfl, by simp [Span.ofBounds]⟩

theorem Text.Span.Covers.stop_le {span : Span} (covers : span.Covers source slice) :
    span.stop ≤ byteLength source := by
  obtain ⟨front, back, rfl, start, length⟩ := covers
  rw [Span.stop, start, length, byteLength_append, byteLength_append]
  omega

/-- The text of a token belongs to the slice under its span. A token that stands
for a heredoc has its signs and its name there; its text is its body, a part of
the source, with the common indentation taken away if there is a tilde. -/
def Taken.Renders (source slice : List Char) (taken : Taken) : Prop :=
  match taken.opener? with
  | none => slice = taken.token.kind.written taken.token.text.toList
  | some _ =>
    ['<', '<'] <+: slice ∧
      ∃ lines, lines <:+: source ∧
        taken.token.text.toList = if ['<', '<', '~'].isPrefixOf slice then dedent lines else lines

/-- The span of a token and its text agree about the source. -/
def Taken.Faithful (source : List Char) (taken : Taken) : Prop :=
  ∃ slice, taken.token.span.Covers source slice ∧ taken.Renders source slice

theorem Taken.Renders.plain {taken : Taken} (plain : taken.opener? = none)
    (written : slice = taken.token.kind.written taken.token.text.toList) :
    taken.Renders source slice := by
  unfold Taken.Renders
  rw [plain]
  exact written

namespace Lexer

variable {lexer behind here stop : Lexer}

/-- What is read ahead is the end of the source. -/
def ReadsAhead (source : List Char) (lexer : Lexer) : Prop :=
  ∀ pending, lexer.pending = some pending → pending.rest <:+ source

theorem ReadsAhead.of_none (none : lexer.pending = none) : lexer.ReadsAhead source := by
  intro pending waits
  rw [none] at waits
  cases waits

theorem ReadsAhead.congr (reads : lexer.ReadsAhead source) (same : behind.pending = lexer.pending) :
    behind.ReadsAhead source := by
  intro pending waits
  exact reads pending (same ▸ waits)

theorem ReadsAhead.resumeAfter (reads : lexer.ReadsAhead source) (lineEnd : Nat) :
    (lexer.resumeAfter lineEnd).ReadsAhead source := by
  unfold Lexer.resumeAfter
  split
  · exact reads
  · split
    · exact .of_none rfl
    · exact reads

theorem ReadsAhead.crossLineFeed (reads : lexer.ReadsAhead source) :
    lexer.crossLineFeed.ReadsAhead source := by
  have skipped : (lexer.skip 1).ReadsAhead source := reads.congr rfl
  exact skipped.resumeAfter _

theorem Piece.readsAhead (piece : Piece lexer behind) (reads : lexer.ReadsAhead source) :
    behind.ReadsAhead source := by
  cases piece with
  | blank _ _ => exact reads.congr rfl
  | lineBreak _ _ => exact reads.crossLineFeed.congr rfl
  | comment continued _ =>
    have skipped : lexer.skipLine.ReadsAhead source := reads.congr rfl
    unfold skipComment
    split
    · exact skipped.crossLineFeed
    · exact skipped
  | continuation _ =>
    have skipped : (lexer.skip (Lexer.continuation lexer.scanner.ahead - 1)).ReadsAhead source :=
      reads.congr rfl
    exact skipped.crossLineFeed.congr rfl
  | blockComment _ _ _ => exact reads.congr rfl

theorem Passes.readsAhead (passes : Passes lexer stop) (reads : lexer.ReadsAhead source) :
    stop.ReadsAhead source := by
  induction passes with
  | refl => exact reads
  | tail _ piece ih => exact piece.readsAhead ih

/-- A heredoc is looked for in the source below its line. -/
theorem ReadsAhead.base (reads : lexer.ReadsAhead (front ++ back)) :
    (lexer.pending.getD (.below offset back)).rest <:+ front ++ back := by
  cases waits : lexer.pending with
  | none => exact (List.drop_suffix _ back).trans (List.suffix_append front back)
  | some pending => exact reads pending waits

/-- The lexer stands between the two parts of its source. -/
structure Within (lexer : Lexer) (source front back : List Char) : Prop where
  whole : source = front ++ back
  place : lexer.At front back
  reads : lexer.ReadsAhead source

theorem ofSource_within (source : String) :
    (ofSource source).Within source.toList [] source.toList :=
  ⟨rfl, ofSource_at source, .of_none rfl⟩

theorem Passes.within (passes : Passes lexer here) (within : lexer.Within source front back) :
    ∃ passed rest, here.Within source (front ++ passed) rest := by
  obtain ⟨passed, rest, rfl, place⟩ := passes.advances front back within.place
  exact ⟨passed, rest, by rw [within.whole, List.append_assoc], place, passes.readsAhead within.reads⟩

/-- What is behind the cut of a heredoc is read ahead from the source. -/
theorem Takes.readsAhead (takes : Takes lexer taken behind front back)
    (within : lexer.Within source front back) : behind.ReadsAhead source := by
  obtain ⟨rfl, place, reads⟩ := within
  cases takes with
  | separator _ _ _ _ _ _ pending => exact reads.crossLineFeed.congr pending
  | token _ _ _ _ _ _ _ _ pending => exact reads.congr pending
  | heredoc _ _ _ bodies _ _ _ _ _ _ _ pending _ _ found _ _ =>
    intro other waits
    rw [pending] at waits
    cases waits
    exact (Lexeme.heredocBody_parts found).2.trans reads.base

/-- Behind a token the lexer stands in the same source, past all that the token takes. -/
theorem Takes.within (takes : Takes lexer taken behind front back)
    (within : lexer.Within source front back) (first : taken.first = byteLength front) :
    ∃ passed rest, behind.Within source (front ++ passed) rest ∧
      taken.stop ≤ byteLength (front ++ passed) := by
  have reads := takes.readsAhead within
  obtain ⟨rfl, place, _⟩ := within
  cases takes with
  | separator below feed _ stop _ scanner _ =>
    subst feed
    have passed : (lexer.skip 1).At (front ++ ['\n']) below := place.skip 1
    obtain ⟨more, rest, rfl, crossed⟩ :=
      resumeAfter_advances (lexer.skip 1) lexer.scanner.offset _ _ passed
    rw [List.append_assoc] at crossed
    refine ⟨['\n'] ++ more, rest, ⟨by simp, scanner.trans crossed, reads⟩, ?_⟩
    have wide : byteLength ['\n'] = 1 := rfl
    rw [stop, first, byteLength_append, byteLength_append, wide]
    omega
  | token chars rest split _ _ stop _ after _ =>
    subst split
    exact ⟨chars, rest, ⟨(List.append_assoc ..).symm, after, reads⟩, stop.le⟩
  | heredoc opener rest _ _ split _ _ _ stop _ after _ _ _ _ _ _ =>
    subst split
    exact ⟨opener.chars, rest, ⟨(List.append_assoc ..).symm, after, reads⟩, stop.le⟩

theorem cut_faithful {lexeme : Lexeme} {bodies : Option Lexeme.Pending}
    (within : lexer.Within source front back)
    (read : Lexeme.read lexer.context (byteLength front) lexer.pending back = .ok (lexeme, bodies))
    (sound : lexeme.Sound back)
    (emitted : { lexer with pending := bodies }.cut lexeme = (token, after)) :
    (lexer.taking token after).Faithful source := by
  obtain ⟨rest, rfl⟩ := sound.extent.front
  obtain ⟨rfl, place, reads⟩ := within
  have start : { lexer with pending := bodies }.At front (lexeme.chars ++ rest) := place
  have span := start.cut_span
  have kind : token.kind = lexeme.kind := (congrArg (·.1.kind) emitted).symm
  have text : token.text = String.ofList lexeme.text := (congrArg (·.1.text) emitted).symm
  rw [emitted] at span
  dsimp only at span
  have source : front ++ (lexeme.chars ++ rest) =
      front ++ lexeme.opening ++ lexeme.body ++ (lexeme.closing ++ lexeme.options ++ rest) := by
    simp [Lexeme.chars]
  refine ⟨lexeme.body, ?_, ?_⟩
  · show token.span.Covers _ _
    rw [span, source]
    exact Span.covers_ofBounds _ _ _
  obtain ⟨plain, rfl⟩ | ⟨opener, later, found, rfl, marks, opened, heredoc⟩ :=
    Lexeme.read_eq_ok read
  · refine .plain ((place.taking_opener? sound kind after).trans plain) ?_
    show lexeme.body = token.kind.written token.text.toList
    rw [kind, text, String.toList_ofList]
    exact (Lexeme.read_written read plain).body
  · obtain ⟨same, lines, below, openedSame, body, rfl, -⟩ := Lexeme.heredoc_eq_ok heredoc
    obtain rfl : opener = same := Except.ok.inj (opened.symm.trans openedSame)
    obtain ⟨signs, tilde⟩ := Lexeme.heredocOpener_squiggly opened
    have opens := (place.taking_opener? sound kind after).trans found
    unfold Taken.Renders
    rw [opens]
    refine ⟨signs, lines, ?_, ?_⟩
    · exact (Lexeme.heredocBody_parts body).1.isInfix.trans reads.base.isInfix
    · show token.text.toList = _
      rw [text, String.toList_ofList, tilde]
      rfl

theorem Emits.faithful (emits : Emits lexer token after) (here : AtToken lexer)
    (within : lexer.Within source front back) : (lexer.taking token after).Faithful source := by
  obtain ⟨whole, place, reads⟩ := id within
  cases emits with
  | separator separator =>
    obtain ⟨rest, ahead⟩ := separator.lineFeed
    exact absurd ahead (here.inLine rest)
  | endOfInput ended =>
    rw [place.ahead] at ended
    subst ended whole
    refine ⟨[], ?_, .plain rfl rfl⟩
    show (lexer.cut { kind := .endOfFile, body := [] }).1.span.Covers _ _
    have span := @At.cut_span lexer front [] { kind := .endOfFile, body := [] } place
    rw [span]
    simpa using Span.covers_ofBounds front [] []
  | lexeme _ read sound =>
    rw [place.ahead] at read sound
    rw [place.offset] at read
    exact cut_faithful within read sound rfl
  | @fault fault _ _ sound =>
    rw [place.ahead] at sound
    obtain ⟨rest, rfl⟩ := sound.front
    subst whole
    refine ⟨fault.body, ?_, .plain rfl ?_⟩
    · show (lexer.fail fault).1.span.Covers _ _
      rw [place.fail_span]
      simpa [Lexeme.Fault.chars] using
        Span.covers_ofBounds (front ++ fault.opening) fault.body rest
    · show fault.body = (String.ofList ((lexer.skip fault.opening.length).scanner.skip
          fault.body.length).pending).toList
      have opened : (lexer.skip fault.opening.length).At (front ++ fault.opening)
          (fault.body ++ rest) := by
        simp only [Lexeme.Fault.chars, List.append_assoc] at place
        exact place.skip_append
      rw [opened, Scanner.pending_skip_between, List.take_left, String.toList_ofList]

theorem nextTaken_faithful (within : lexer.Within source front back) :
    lexer.nextTaken.1.Faithful source := by
  obtain ⟨here, passes, cases⟩ := skipTrivia_cases false lexer
  obtain ⟨passed, rest, reached⟩ := passes.within within
  rcases cases with ⟨token, skipped⟩ | ⟨separator, skipped⟩
  · rw [nextTaken_of_token skipped]
    exact (readToken_emits token).faithful token reached
  · obtain ⟨below, ahead⟩ := separator.lineFeed
    rw [reached.place.ahead] at ahead
    subst ahead
    simp only [nextTaken, skipped]
    refine ⟨['\n'], ⟨front ++ passed, below, by simp [reached.whole], ?_, rfl⟩, .plain rfl ?_⟩
    · exact reached.place.offset
    · simp [finish, newLine, Token.Kind.written]

/-- The next token takes nothing that is passed already, and the lexer stands
behind it in the same source. -/
theorem nextTaken_within (within : lexer.Within source front back) :
    lexer.nextTaken.1.Bounds ∧ byteLength front ≤ lexer.nextTaken.1.first ∧
      ∃ passed rest, lexer.nextTaken.2.Within source passed rest ∧
        lexer.nextTaken.1.stop ≤ byteLength passed := by
  obtain ⟨here, passed, rest, passes, rfl, place, first, bounds, takes⟩ :=
    nextTaken_takes within.place
  have reached : here.Within source (front ++ passed) rest :=
    ⟨by rw [within.whole, List.append_assoc], place, passes.readsAhead within.reads⟩
  obtain ⟨more, left, behind, stop⟩ := takes.within reached first
  exact ⟨bounds, by simp [first], _, _, behind, stop⟩

/-- The tokens that follow are faithful and take what is ahead, one behind the other. -/
theorem takings_faithful (count : Nat) (within : lexer.Within source front back) :
    (∀ taken ∈ takings count lexer, taken.Faithful source ∧ byteLength front ≤ taken.first) ∧
      (takings count lexer).Pairwise fun taken later => taken.stop ≤ later.first := by
  induction count generalizing lexer front back with
  | zero => exact ⟨by simp [takings], .nil⟩
  | succ count ih =>
    rw [takings]
    split
    · exact ⟨by simp, .nil⟩
    · obtain ⟨bounds, first, passed, rest, behind, stop⟩ := nextTaken_within within
      obtain ⟨later, ordered⟩ := ih behind
      refine ⟨?_, .cons (fun taken member => stop.trans (later taken member).2) ordered⟩
      intro taken member
      rcases List.mem_cons.mp member with rfl | member
      · exact ⟨nextTaken_faithful within, first⟩
      · have lower := bounds.lower
        have upper := bounds.upper
        have bound := (later taken member).2
        rw [Span.stop] at upper
        exact ⟨(later taken member).1, by omega⟩

theorem Emits.constant (emits : Emits lexer token after) (constant : token.kind = .constant) :
    token.text.toList.head?.any Text.isConstantStart = true := by
  cases emits with
  | separator _ => cases constant
  | endOfInput _ => cases constant
  | @lexeme lexeme bodies _ read _ =>
    show (String.ofList lexeme.text).toList.head?.any Text.isConstantStart = true
    rw [String.toList_ofList]
    have kind : lexeme.kind = .constant := constant
    obtain ⟨plain, _⟩ | ⟨opener, later, _, _, _, _, heredoc⟩ := Lexeme.read_eq_ok read
    · exact (Lexeme.read_written read plain).constant kind
    · obtain ⟨_, _, _, _, _, rfl, -⟩ := Lexeme.heredoc_eq_ok heredoc
      cases kind
  | fault _ _ _ => cases constant

theorem next_constant (read : lexer.next = (some token, behind)) (constant : token.kind = .constant) :
    token.text.toList.head?.any Text.isConstantStart = true := by
  obtain ⟨stop, emitted, after, _, emits, same⟩ := next_emits (running_of_next read)
  obtain ⟨tokenSame, rfl⟩ := Prod.mk.inj (same.symm.trans read)
  cases Option.some.inj tokenSame
  exact emits.constant constant

theorem Run.constant (run : Run lexer tokens behind) :
    ∀ token ∈ tokens, token.kind = .constant →
      token.text.toList.head?.any Text.isConstantStart = true := by
  induction run with
  | done => simp
  | more read _ ih =>
    intro token member
    rcases List.mem_cons.mp member with rfl | member
    · exact next_constant read
    · exact ih token member

end Lexer

/-- The name of a constant begins like one. -/
theorem scan_constant (source : String) : ∀ token ∈ (scan source).1, token.kind = .constant →
    token.text.toList.head?.any Text.isConstantStart = true := by
  obtain ⟨front, last, final, same, ended⟩ := Lexer.toEnd_ended source
  rw [Lexer.scan_of_run ended.run (ended.run.halted.trans ended.terminal)]
  exact ended.run.constant

/-- Token positions are faithful. Every span of a scanned source is the place of a
part of it, and the text of the token is that part, but for a label, which has a
colon behind its text, and for a heredoc, whose text is a part of the source found
elsewhere. The spans are in order and do not overlap. -/
theorem scan_faithful (source : String) :
    (takings source).map Taken.token = (scan source).1 ∧
      (∀ taken ∈ takings source, taken.Faithful source.toList ∧
        taken.token.span.stop ≤ byteLength source.toList) ∧
      (scan source).1.Pairwise fun token later => token.span.stop ≤ later.span.start := by
  have tokens : (takings source).map Taken.token = (scan source).1 := Lexer.takings_tokens _ _
  obtain ⟨faithful, ordered⟩ := Lexer.takings_faithful (source.toList.length + 1)
    (Lexer.ofSource_within source)
  have bounds := Lexer.takings_bounds (source.toList.length + 1) (Lexer.ofSource_at source)
  refine ⟨tokens, ?_, ?_⟩
  · intro taken member
    obtain ⟨slice, covers, renders⟩ := (faithful taken member).1
    exact ⟨⟨slice, covers, renders⟩, covers.stop_le⟩
  · rw [← tokens, List.pairwise_map]
    refine ordered.imp_of_mem fun first second apart => ?_
    exact (bounds _ first).upper.trans (apart.trans (bounds _ second).lower)

end RubySyntax
