import Mathlib.Data.List.Find
import RubySyntax.Proofs.Lexeme.Read

/-! White space behind the input. No recogniser tells the end of the input from white
space, so a token that ends the input is read as well where white space and more text
follow it, and whatever white space that is. -/
namespace RubySyntax

open Text

namespace Text

variable {p : Char → Bool} {c e : Char} {input : List Char}

def spaces : List Char := [' ', '\t', '\r', '\x0b', '\x0c', '\u00a0', '\ufeff', '\n']

/-- What is found of every space holds of white space. -/
theorem not_of_isSpace (apart : spaces.all (fun c => !p c) = true) (space : isSpace e = true) :
    p e = false := by
  have member : e ∈ spaces := by
    simpa [isSpace, isBlank, isLineBreak, spaces, or_assoc] using space
  simpa using List.all_eq_true.mp apart e member

/-- White space and the backslash of a continued line: no token but a literal goes over
either of them. -/
def isStop (c : Char) : Bool := isSpace c || c == '\\'

theorem isStop_of_isSpace (space : isSpace e = true) : isStop e = true := by
  rw [isStop, space, Bool.true_or]

theorem not_of_isStop (apart : ('\\' :: spaces).all (fun c => !p c) = true)
    (stop : isStop e = true) : p e = false := by
  obtain ⟨mark, others⟩ := Bool.and_eq_true_iff.mp apart
  obtain space | same := Bool.or_eq_true_iff.mp stop
  · exact not_of_isSpace others space
  · rw [beq_iff_eq.mp same]
    simpa using mark

theorem ne_of_isStop (visible : isStop c = false) (stop : isStop e = true) : c ≠ e := by
  rintro rfl
  rw [visible] at stop
  cases stop

theorem takeWhile_stop (stops : p e = false) (input more : List Char) :
    (input ++ e :: more).takeWhile p = input.takeWhile p := by
  induction input with
  | nil => simp [stops]
  | cons c rest ih => simp [List.takeWhile_cons, ih]

theorem dropWhile_stop (stops : p e = false) (input more : List Char) :
    (input ++ e :: more).dropWhile p = input.dropWhile p ++ e :: more := by
  induction input with
  | nil => simp [stops]
  | cons c rest ih =>
    rw [List.cons_append, List.dropWhile_cons, List.dropWhile_cons, ih]
    split
    · rfl
    · rfl

theorem head?_any_stop (stops : p e = false) (input more : List Char) :
    (input ++ e :: more).head?.any p = input.head?.any p := by
  cases input with
  | nil => exact stops
  | cons c rest => rfl

theorem head?_all_stop (holds : p e = true) (input more : List Char) :
    (input ++ e :: more).head?.all p = input.head?.all p := by
  cases input with
  | nil => exact holds
  | cons c rest => rfl

theorem head?_beq_stop (other : c ≠ e) (input more : List Char) :
    ((input ++ e :: more).head? == some c) = (input.head? == some c) := by
  cases input with
  | nil => exact beq_false_of_ne fun same => other (Option.some.inj same).symm
  | cons d rest => rfl

theorem head?_bne_stop (other : c ≠ e) (input more : List Char) :
    ((input ++ e :: more).head? != some c) = (input.head? != some c) :=
  congrArg not (head?_beq_stop other input more)

theorem filter_take_one_stop (stops : p e = false) (input more : List Char) :
    ((input ++ e :: more).take 1).filter p = (input.take 1).filter p := by
  cases input with
  | nil => simp [stops]
  | cons c rest => simp

theorem drop_stop {front : List Char} (within : front <+: input) (more : List Char) :
    (input ++ e :: more).drop front.length = input.drop front.length ++ e :: more :=
  List.drop_append_of_le_length within.length_le

end Text

namespace Lexeme

variable {e : Char} {input more : List Char} {context : Context}

section Classes

variable (stop : isStop e = true)

include stop

theorem isDigit_stop : isDigit e = false := not_of_isStop (by decide) stop

theorem isDigitOrSeparator_stop : isDigitOrSeparator e = false := not_of_isStop (by decide) stop

theorem isIdentifierPart_stop : isIdentifierPart e = false :=
  not_of_isStop (by decide +kernel) stop

theorem isIdentifierStart_stop : isIdentifierStart e = false :=
  Bool.eq_false_iff.mpr fun start =>
    Bool.eq_false_iff.mp (isIdentifierPart_stop stop) (isIdentifierPart_of_start start)

theorem isConstantStart_stop : isConstantStart e = false := not_of_isStop (by decide +kernel) stop

theorem isHeredocMark_stop : isHeredocMark e = false := not_of_isStop (by decide) stop

theorem closingDelimiter_stop : closingDelimiter e = none := by
  have apart : (closingDelimiter e).isSome = false :=
    not_of_isStop (p := fun c => (closingDelimiter c).isSome) (by decide) stop
  exact Option.not_isSome_iff_eq_none.mp (Bool.eq_false_iff.mp apart)

theorem stop_not_mem_spelling (p : Token.Punct) : e ∉ p.spelling.toList := by
  intro member
  obtain ⟨noSpace, noMark⟩ := (spelling_visible p).2 e member
  rw [isStop, noSpace, Bool.false_or] at stop
  exact noMark (beq_iff_eq.mp stop)

theorem stop_not_mem_operatorSymbol {operator : List Char} (member : operator ∈ operatorSymbols) :
    e ∉ operator := by
  have clean : operatorSymbols.all (fun operator => operator.all fun c => !isStop c) = true := by
    decide
  intro inside
  have visible := List.all_eq_true.mp (List.all_eq_true.mp clean operator member) e inside
  rw [stop] at visible
  cases visible

end Classes

/-- Two readings hand out the same lexemes of at most so many characters. -/
def Agree (width : Nat) (reading other : Reading) : Prop :=
  ∀ lexeme : Lexeme, lexeme.chars.length ≤ width → (reading = .ok lexeme ↔ other = .ok lexeme)

namespace Agree

variable {width : Nat} {reading other : Reading}

theorem refl (width : Nat) (reading : Reading) : Agree width reading reading := fun _ _ => Iff.rfl

theorem of_error (width : Nat) (fault other : Fault) : Agree width (.error fault) (.error other) :=
  fun _ _ => ⟨nofun, nofun⟩

theorem ite {c c' : Prop} [Decidable c] [Decidable c'] {yes yes' no no' : Reading}
    (same : c' ↔ c) (first : c → Agree width yes yes') (second : ¬ c → Agree width no no') :
    Agree width (if c then yes else no) (if c' then yes' else no') := by
  by_cases holds : c
  · rw [if_pos holds, if_pos (same.mpr holds)]
    exact first holds
  · rw [if_neg holds, if_neg (holds ∘ same.mp)]
    exact second holds

end Agree

section

variable (stop : isStop e = true)

include stop

theorem fraction_stop (input more : List Char) :
    fraction (input ++ e :: more) = fraction input := by
  have point : '.' ≠ e := ne_of_isStop (by decide) stop
  cases input with
  | nil => simp [fraction, point.symm]
  | cons c rest =>
    by_cases point : c = '.'
    · subst point
      have digit := head?_any_stop (isDigit_stop stop) rest more
      simp only [List.cons_append, fraction, digit, takeWhile_stop (isDigitOrSeparator_stop stop)]
    · simp [fraction, point]

theorem exponent_stop (input more : List Char) :
    exponent (input ++ e :: more) = exponent input := by
  cases input with
  | nil =>
    have letter : (e == 'e' || e == 'E') = false :=
      not_of_isStop (p := fun c => c == 'e' || c == 'E') (by decide) stop
    simp only [Bool.or_eq_false_iff, beq_eq_false_iff_ne] at letter
    simp [exponent, letter]
  | cons letter rest =>
    have apart : (e == '+' || e == '-') = false :=
      not_of_isStop (p := fun c => c == '+' || c == '-') (by decide) stop
    have sign := filter_take_one_stop (p := fun c => c == '+' || c == '-') apart rest more
    simp only [List.cons_append, exponent, sign, drop_stop (filter_take_one _ rest),
      takeWhile_stop (isDigit_stop stop)]

theorem number_stop (input more : List Char) :
    number (input ++ e :: more) = number input := by
  have whole := takeWhile_stop (isDigitOrSeparator_stop stop) input more
  unfold number
  simp only [whole, drop_stop (List.takeWhile_prefix _), fraction_stop stop,
    drop_stop (fraction_front _), exponent_stop stop]

theorem nameMark_stop (input more : List Char) :
    nameMark (input ++ e :: more) = nameMark input := by
  cases input with
  | nil =>
    have mark : (e == '?' || e == '!') = false :=
      not_of_isStop (p := fun c => c == '?' || c == '!') (by decide) stop
    simp only [Bool.or_eq_false_iff, beq_eq_false_iff_ne] at mark
    simp [nameMark, mark]
  | cons mark rest =>
    have assigns : '=' ≠ e := ne_of_isStop (by decide) stop
    simp only [List.cons_append, nameMark, head?_bne_stop assigns]

theorem colonFollows_stop (input more : List Char) :
    colonFollows (input ++ e :: more) = colonFollows input := by
  have colon : ':' ≠ e := ne_of_isStop (by decide) stop
  cases input with
  | nil => simp [colonFollows, colon.symm]
  | cons c rest =>
    have second := head?_bne_stop colon rest more
    simp only [List.head?_eq_getElem?] at second
    simp only [List.cons_append, colonFollows, List.head?_cons, List.getElem?_cons_succ, second]

theorem nameText_stop (input more : List Char) :
    nameText (input ++ e :: more) = nameText input := by
  unfold nameText
  simp only [takeWhile_stop (isIdentifierPart_stop stop), drop_stop (List.takeWhile_prefix _),
    nameMark_stop stop, head?_any_stop (isConstantStart_stop stop)]

theorem name_stop (context : Context) (input more : List Char) :
    name context (input ++ e :: more) = name context input := by
  unfold name
  simp only [nameText_stop stop, drop_stop (nameText_front input), colonFollows_stop stop]

/-- A backslash behind the sigil is the name of a variable and goes over the end. -/
theorem globalVariable_stop (kind : Token.Kind) (before input more : List Char) :
    Agree (before ++ '$' :: input).length (globalVariable kind before input)
      (globalVariable kind before (input ++ e :: more)) := by
  cases input with
  | nil =>
    refine fun lexeme within => ⟨nofun, fun read => ?_⟩
    unfold globalVariable at read
    dsimp only at read
    split at read
    · cases read
    · rename_i named
      cases read
      rw [List.isEmpty_iff, ← List.length_eq_zero_iff] at named
      simp only [Lexeme.chars, List.append_nil, List.length_append, List.length_cons,
        List.length_nil] at within
      omega
  | cons c rest =>
    have same : globalName (c :: rest ++ e :: more) = globalName (c :: rest) := by
      unfold globalName
      rw [takeWhile_stop (isIdentifierPart_stop stop)]
      rfl
    unfold globalVariable
    rw [same]
    exact .refl _ _

theorem atSigns_stop (c : Char) (rest more : List Char) :
    atSigns (c :: rest ++ e :: more) = atSigns (c :: rest) := by
  have second := head?_beq_stop (show '@' ≠ e from ne_of_isStop (by decide) stop) rest more
  simp only [List.head?_eq_getElem?] at second
  simp only [List.cons_append, atSigns, List.getElem?_cons_succ, second]

theorem sigilVariable_stop (sigil : c = '@' ∨ c = '$') (rest more : List Char) :
    Agree (c :: rest).length (sigilVariable (c :: rest)) (sigilVariable (c :: rest ++ e :: more)) := by
  rcases sigil with rfl | rfl
  · unfold sigilVariable
    simp only [atSigns_stop stop, drop_stop (atSigns_front rest),
      head?_any_stop (isIdentifierStart_stop stop), takeWhile_stop (isIdentifierPart_stop stop)]
    exact .refl _ _
  · exact globalVariable_stop stop .globalVariable [] rest more

theorem operator_stop (c : Char) (rest more : List Char) :
    operator (c :: rest ++ e :: more) = operator (c :: rest) := by
  have found : Token.Punct.read? (c :: rest ++ e :: more) = Token.Punct.read? (c :: rest) := by
    unfold Token.Punct.read?
    congr 1
    funext p
    exact isPrefixOf_append_cons (stop_not_mem_spelling stop p) _ more
  unfold operator
  rw [found]
  rfl

/-- A body that ends in front of the white space ends there whatever follows. -/
theorem bodyWidth_stop (more : List Char) (within : last < width + input.length) :
    bodyWidth frame outer width input = some last ↔
      bodyWidth frame outer width (input ++ e :: more) = some last := by
  have begins (rest : List Char) :=
    head?_beq_stop (show '{' ≠ e from ne_of_isStop (by decide) stop) rest more
  fun_induction bodyWidth frame outer width input with
  | case1 frame outer width =>
    refine ⟨fun found => ?_, fun found => ?_⟩
    · cases found
    · have bound := (bodyWidth_delimiter found).1
      rw [List.length_nil] at within
      omega
  | case2 frame outer width rest ih =>
    rw [List.cons_append, bodyWidth.eq_def _ _ _ ('\\' :: _)]
    cases rest with
    | nil =>
      rw [List.drop_nil, bodyWidth]
      refine ⟨fun found => ?_, fun found => ?_⟩
      · cases found
      · have bound := (bodyWidth_delimiter found).1
        rw [List.length_singleton] at within
        omega
    | cons c rest =>
      refine ih ?_
      simp only [List.length_cons, List.drop_succ_cons, List.drop_zero] at within ⊢
      omega
  | case3 frame outer width c rest visible region ih =>
    rw [List.cons_append, bodyWidth.eq_def _ _ _ (c :: _)]
    simp only [if_neg visible, begins, if_pos region]
    cases rest with
    | nil => simp at region
    | cons d rest =>
      refine ih ?_
      simp only [List.length_cons, List.drop_succ_cons, List.drop_zero] at within ⊢
      omega
  | case4 frame outer width c rest visible noRegion next stays ih =>
    rw [List.cons_append, bodyWidth.eq_def _ _ _ (c :: _)]
    simp only [if_neg visible, begins, if_neg noRegion, stays]
    refine ih ?_
    rw [List.length_cons] at within
    omega
  | case5 frame outer width c rest visible noRegion inner enters ih =>
    rw [List.cons_append, bodyWidth.eq_def _ _ _ (c :: _)]
    simp only [if_neg visible, begins, if_neg noRegion, enters]
    refine ih ?_
    rw [List.length_cons] at within
    omega
  | case6 frame width c rest visible noRegion leaves =>
    rw [List.cons_append, bodyWidth.eq_def _ _ _ (c :: _)]
    simp only [if_neg visible, begins, if_neg noRegion, leaves]
  | case7 frame width c rest visible noRegion leaves next outer ih =>
    rw [List.cons_append, bodyWidth.eq_def _ _ _ (c :: _)]
    simp only [if_neg visible, begins, if_neg noRegion, leaves]
    refine ih ?_
    rw [List.length_cons] at within
    omega


theorem delimited_stop {body closing : List Char} (more : List Char)
    (within : body.length < input.length) :
    delimited frame input = some (body, closing) ↔
      delimited frame (input ++ e :: more) = some (body, closing) := by
  have widths (last : Nat) (within : last < input.length) :
      bodyWidth frame [] 0 input = some last ↔
        bodyWidth frame [] 0 (input ++ e :: more) = some last :=
    bodyWidth_stop stop more (by omega)
  have cut (last : Nat) (within : last < input.length) :
      ((input ++ e :: more).take last, ((input ++ e :: more).drop last).take 1) =
        (input.take last, (input.drop last).take 1) := by
    have rest : 0 < (input.drop last).length := by
      rw [List.length_drop]
      omega
    rw [List.take_append_of_le_length within.le, List.drop_append_of_le_length within.le,
      List.take_append_of_le_length rest]
  have ends {input : List Char} {last : Nat} (found : bodyWidth frame [] 0 input = some last) :
      last < input.length := by
    obtain ⟨_, head⟩ := bodyWidth_delimiter found
    rw [Nat.sub_zero, List.head?_drop] at head
    exact (List.getElem?_eq_some_iff.mp head).1
  unfold delimited
  rw [Option.map_eq_some_iff, Option.map_eq_some_iff]
  constructor
  · rintro ⟨last, found, same⟩
    have within := ends found
    exact ⟨last, (widths last within).mp found, (cut last within).trans same⟩
  · rintro ⟨last, found, same⟩
    obtain rfl : body.length = last := by
      rw [← (Prod.mk.inj same).1, List.length_take]
      exact Nat.min_eq_left (ends found).le
    exact ⟨_, (widths _ within).mpr found, (cut _ within).symm.trans same⟩

theorem literal_stop (kind : Token.LiteralKind) (opening : List Char) (frame : Frame)
    (message : Diagnostic.Message) (args : List String) (input more : List Char) :
    Agree (opening ++ input).length (literal kind opening frame message args input)
      (literal kind opening frame message args (input ++ e :: more)) := by
  have read (input : List Char) (lexeme : Lexeme) :
      literal kind opening frame message args input = .ok lexeme ↔
        ∃ body closing, delimited frame input = some (body, closing) ∧
          lexeme = { kind := .literal kind, opening, body, closing } := by
    unfold literal
    split
    · rename_i body closing found
      simp [found, eq_comm]
    · rename_i failed
      simp [failed]
  intro lexeme within
  have shorter {text body closing : List Char} (found : delimited frame text = some (body, closing))
      (same : lexeme = { kind := .literal kind, opening, body, closing }) :
      body.length < input.length := by
    rw [same, (delimited_closing found).1] at within
    simp only [Lexeme.chars, List.append_nil, List.length_append, List.length_singleton] at within
    omega
  rw [read, read]
  constructor
  · rintro ⟨body, closing, found, same⟩
    exact ⟨body, closing, (delimited_stop stop more (shorter found same)).mp found, same⟩
  · rintro ⟨body, closing, found, same⟩
    exact ⟨body, closing, (delimited_stop stop more (shorter found same)).mpr found, same⟩

theorem quoted_stop (kind : Token.LiteralKind) (quote c : Char) (rest more : List Char) :
    Agree (c :: rest).length (quoted kind quote (c :: rest))
      (quoted kind quote (c :: rest ++ e :: more)) :=
  literal_stop stop kind [quote] _ _ _ rest more

theorem withOptions_stop {lexeme : Lexeme} (front : lexeme.chars <+: input) (more : List Char) :
    withOptions (input ++ e :: more) lexeme = withOptions input lexeme := by
  have apart : regexOptions.contains e = false :=
    not_of_isStop (p := fun c => regexOptions.contains c) (by decide) stop
  have letters := takeWhile_stop (p := fun c => regexOptions.contains c) apart
    (input.drop lexeme.chars.length) more
  unfold withOptions
  rw [drop_stop front, letters]

theorem Agree.withOptions {reading other : Reading} (agree : Agree input.length reading other)
    (sound : reading.Sound input) (plain : ∀ lexeme, other = .ok lexeme → lexeme.options = [])
    (more : List Char) :
    Agree input.length (reading.map (withOptions input))
      (other.map (Lexeme.withOptions (input ++ e :: more))) := by
  have same {lexeme : Lexeme} (read : reading = .ok lexeme) :
      Lexeme.withOptions (input ++ e :: more) lexeme = Lexeme.withOptions input lexeme := by
    rw [read] at sound
    exact withOptions_stop stop (show Lexeme.Sound input lexeme from sound).extent.front more
  have mapped {reading : Reading} {f : Lexeme → Lexeme} {lexeme : Lexeme} :
      reading.map f = .ok lexeme ↔ ∃ first, reading = .ok first ∧ f first = lexeme := by
    cases reading <;> simp [Except.map]
  intro lexeme within
  rw [mapped, mapped]
  constructor
  · rintro ⟨first, read, rfl⟩
    have front := sound
    rw [read] at front
    have bound := (show Lexeme.Sound input first from front).extent.front.length_le
    exact ⟨first, (agree first bound).mp read, same read⟩
  · rintro ⟨first, read, rfl⟩
    have bound : first.chars.length ≤ input.length := by
      have without := plain first read
      simp only [Lexeme.chars, Lexeme.withOptions, without, List.append_nil, List.length_append]
        at within ⊢
      omega
    have read := (agree first bound).mpr read
    exact ⟨first, read, (same read).symm⟩

theorem regex_stop (rest more : List Char) :
    Agree ('/' :: rest).length (regex ('/' :: rest)) (regex ('/' :: rest ++ e :: more)) := by
  have closes : (Frame.regex false).delimiter ≠ '\n' := by decide
  have sound := literal_sound closes (List.cons_ne_nil '/' []) .regex .unterminatedRegex [] rest
  exact Agree.withOptions stop (literal_stop stop _ _ _ _ _ rest more) sound
    (fun _ => literal_options) more

theorem symbolName_stop (input more : List Char) :
    symbolName (input ++ e :: more) = symbolName input := by
  have mark : (e == '!' || e == '?') = false :=
    not_of_isStop (p := fun c => c == '!' || c == '?') (by decide) stop
  have apart : (isIdentifierPart e || e == '!' || e == '?') = false := by
    rw [isIdentifierPart_stop stop, Bool.false_or, mark]
  have stem := takeWhile_stop (p := fun c => isIdentifierPart c || c == '!' || c == '?') apart
    input more
  unfold symbolName
  simp only [stem, drop_stop (List.takeWhile_prefix _)]
  cases input.drop (input.takeWhile fun c => isIdentifierPart c || c == '!' || c == '?').length with
  | nil =>
    have setter : '=' ≠ e := ne_of_isStop (by decide) stop
    simp [setter.symm]
  | cons c rest =>
    have apart : (e == '=' || e == '~' || e == '>') = false :=
      not_of_isStop (p := fun c => c == '=' || c == '~' || c == '>') (by decide) stop
    have assigns := head?_any_stop (p := fun c => c == '=' || c == '~' || c == '>') apart rest more
    by_cases setter : c = '='
    · subst setter
      simp only [List.cons_append, assigns]
    · simp [setter]

theorem symbol_stop (c : Char) (rest more : List Char) :
    Agree (':' :: c :: rest).length (symbol (':' :: c :: rest))
      (symbol (':' :: c :: rest ++ e :: more)) := by
  unfold symbol
  simp only [List.cons_append, List.drop_succ_cons, List.drop_zero]
  refine .ite Iff.rfl (fun _ => literal_stop stop .symbol [':', c] _ _ _ rest more) fun _ => ?_
  refine .ite Iff.rfl (fun sigil => ?_) fun _ => ?_
  · subst sigil
    rw [← List.cons_append, atSigns_stop stop, drop_stop (atSigns_front rest),
      takeWhile_stop (isIdentifierPart_stop stop)]
    exact .refl _ _
  refine .ite Iff.rfl (fun sigil => ?_) fun _ => ?_
  · subst sigil
    exact globalVariable_stop stop (.literal .symbol) [':'] rest more
  refine .ite Iff.rfl (fun _ => ?_) fun _ => ?_
  · rw [← List.cons_append, symbolName_stop stop]
    exact .refl _ _
  · have found : (operatorSymbols.find? fun operator =>
          operator.isPrefixOf (c :: (rest ++ e :: more))) =
        operatorSymbols.find? fun operator => operator.isPrefixOf (c :: rest) := by
      refine List.find?_congr fun operator member => ?_
      exact isPrefixOf_append_cons (stop_not_mem_operatorSymbol stop member) (c :: rest) more
    rw [found]
    exact .refl _ _

theorem percentLetter_stop (rest more : List Char) :
    percentLetter ('%' :: rest ++ e :: more) = percentLetter ('%' :: rest) := by
  cases rest with
  | nil =>
    have apart : e.isAlpha = false := not_of_isStop (p := Char.isAlpha) (by decide) stop
    simp [percentLetter, apart]
  | cons c rest => rfl

theorem percent_stop (rest more : List Char) :
    Agree ('%' :: rest).length (percent ('%' :: rest)) (percent ('%' :: rest ++ e :: more)) := by
  have front := percentLetter_front rest
  unfold percent
  rw [percentLetter_stop stop]
  dsimp only
  rw [drop_stop front]
  cases percentKind (percentLetter ('%' :: rest)) with
  | none => exact .of_error _ _ _
  | some found =>
    obtain ⟨kind, interpolates⟩ := found
    cases left : ('%' :: rest).drop ('%' :: (percentLetter ('%' :: rest)).toList).length with
    | nil =>
      simp only [List.nil_append, closingDelimiter_stop stop]
      exact .of_error _ _ _
    | cons opener behind =>
      have taken : '%' :: (percentLetter ('%' :: rest)).toList ++ [opener] ++ behind =
          '%' :: rest := by
        rw [List.append_assoc, List.singleton_append, ← left]
        exact List.prefix_iff_eq_append.mp front
      cases closes : closingDelimiter opener with
      | none =>
        simp only [List.cons_append, closes]
        exact .of_error _ _ _
      | some closer =>
        simp only [List.cons_append, closes]
        have agree (nested : Option Char) := literal_stop stop kind
          ('%' :: (percentLetter ('%' :: rest)).toList ++ [opener])
          (.body nested closer interpolates 0) .unterminatedPercentLiteral
          [String.ofList [closer]] behind more
        rw [taken] at agree
        refine .ite Iff.rfl (fun _ => ?_) fun _ => agree _
        have opens : '%' :: (percentLetter ('%' :: rest)).toList ++ [opener] ≠ [] :=
          List.cons_ne_nil _ _
        have visible (nested : Option Char) :
            (Frame.body nested closer interpolates 0).delimiter ≠ '\n' :=
          closingDelimiter_ne_lineFeed closes
        have sound (nested : Option Char) := literal_sound (visible nested) opens kind
          .unterminatedPercentLiteral [String.ofList [closer]] behind
        rw [taken] at sound
        exact Agree.withOptions stop (agree _) (sound _) (fun _ => literal_options) more

theorem percentFollows_stop (context : Context) (c : Char) (rest more : List Char) :
    percentFollows context (c :: rest ++ e :: more) = percentFollows context (c :: rest) := by
  cases rest with
  | nil =>
    have bracket : ['(', '[', '{', '<'].contains e = false :=
      not_of_isStop (p := fun c => ['(', '[', '{', '<'].contains c) (by decide) stop
    have letter : e.isAlpha = false := not_of_isStop (p := Char.isAlpha) (by decide) stop
    simp only [percentFollows, List.cons_append, List.nil_append, List.getElem?_cons_succ,
      List.getElem?_cons_zero, bracket, letter]
    simp
  | cons d rest =>
    have opener := head?_any_stop (p := fun c => (closingDelimiter c).isSome)
      (by rw [closingDelimiter_stop stop]; rfl) rest more
    rw [List.head?_eq_getElem?, List.head?_eq_getElem?] at opener
    simp only [percentFollows, Context.startsOperand, Context.isCommandArgument, List.cons_append,
      List.getElem?_cons_succ, List.getElem?_cons_zero, opener]

theorem heredocFollows_stop (context : Context) (c : Char) (rest more : List Char) :
    heredocFollows context (c :: rest ++ e :: more) = heredocFollows context (c :: rest) := by
  have other (input : List Char) (further : ¬ ['<', '<'] <+: input) :
      heredocFollows context input = false := Bool.eq_false_iff.mpr (further ∘ heredocFollows_front)
  by_cases signs : ['<', '<'] <+: c :: rest
  · obtain ⟨after, same⟩ := signs
    obtain ⟨rfl, rfl⟩ := List.cons.inj same
    have stops := isHeredocMark_stop stop
    have mark := head?_any_stop stops after more
    have command : context.isCommandArgument ('<' :: '<' :: (after ++ e :: more)) =
        context.isCommandArgument ('<' :: '<' :: after) := rfl
    have quote : (e == '\'' || e == '"') = false :=
      not_of_isStop (p := fun c => c == '\'' || c == '"') (by decide) stop
    have name := head?_any_stop (p := fun c => c == '\'' || c == '"' || (isIdentifierStart c &&
        (context.expectsOperand || after.head?.any isHeredocMark || isConstantStart c)))
      (by rw [quote, isIdentifierStart_stop stop]; rfl) (after.dropWhile isHeredocMark) more
    show heredocFollows context ('<' :: '<' :: (after ++ e :: more)) =
      heredocFollows context ('<' :: '<' :: after)
    simp only [heredocFollows, command, mark, dropWhile_stop stops, name]
  · have sign : e ∉ ['<', '<'] := by
      have apart : '<' ≠ e := ne_of_isStop (by decide) stop
      simp [apart.symm]
    rw [other _ signs, other]
    rwa [← List.isPrefixOf_iff_prefix, isPrefixOf_append_cons sign, List.isPrefixOf_iff_prefix]

/-- No operator symbol begins with white space or with a backslash. -/
theorem symbolFollows_colon_stop (context : Context) (more : List Char) :
    symbolFollows context (':' :: e :: more) = false := by
  have noOperator : (operatorSymbols.any fun operator => operator.isPrefixOf (e :: more) &&
      endsOperatorSymbol ((e :: more).drop operator.length)) = false := by
    refine List.any_eq_false.mpr fun operator member begins => ?_
    have begins := (Bool.and_eq_true_iff.mp begins).1
    rw [← List.nil_append (e :: more),
      isPrefixOf_append_cons (stop_not_mem_operatorSymbol stop member),
      List.isPrefixOf_iff_prefix, List.prefix_nil] at begins
    subst begins
    revert member
    decide
  have start : (e == '"' || e == '\'' || e == '@' || e == '$') = false :=
    not_of_isStop (p := fun c => c == '"' || c == '\'' || c == '@' || c == '$') (by decide) stop
  simp only [Bool.or_eq_false_iff, beq_eq_false_iff_ne, and_assoc] at start
  obtain ⟨double, single, sign, dollar⟩ := start
  simp [symbolFollows, noOperator, isIdentifierStart_stop stop, double, single, sign, dollar]

/-- A colon begins a symbol or not, whatever comes behind the input, unless the name of an
operator ends there. -/
theorem symbolFollows_stop (context : Context) (c : Char) (rest more : List Char)
    (ends : ∀ operator ∈ operatorSymbols, c :: rest = ':' :: operator →
      endsOperatorSymbol (e :: more) = true) :
    symbolFollows context (c :: rest ++ e :: more) = symbolFollows context (c :: rest) := by
  by_cases colon : c = ':'
  · subst colon
    cases rest with
    | nil => exact symbolFollows_colon_stop stop context more
    | cons d rest =>
      have operators : (operatorSymbols.any fun operator =>
            operator.isPrefixOf (d :: (rest ++ e :: more)) &&
              endsOperatorSymbol ((d :: (rest ++ e :: more)).drop operator.length)) =
          operatorSymbols.any fun operator =>
            operator.isPrefixOf (d :: rest) && endsOperatorSymbol ((d :: rest).drop operator.length) := by
        rw [Bool.eq_iff_iff, List.any_eq_true, List.any_eq_true]
        refine exists_congr fun operator => and_congr_right fun member => ?_
        rw [← List.cons_append, isPrefixOf_append_cons (stop_not_mem_operatorSymbol stop member)]
        cases front : operator.isPrefixOf (d :: rest) with
        | false => rfl
        | true =>
          obtain ⟨after, same⟩ := List.isPrefixOf_iff_prefix.mp front
          rw [drop_stop ⟨after, same⟩, ← same, List.drop_left]
          cases after with
          | nil =>
            rw [List.append_nil] at same
            rw [List.nil_append, ends operator member (by rw [same])]
            rfl
          | cons f after => rfl
      simp only [List.cons_append, symbolFollows, operators]
  · simp [symbolFollows, colon]

/-- The same recogniser reads the token, unless a sign in front of `e` stands where an
operand may begin. -/
theorem readFrom_stop (context : Context) (c : Char) (rest more : List Char)
    (symbol : symbolFollows context (c :: rest ++ e :: more) = symbolFollows context (c :: rest))
    (question : c = '?' → context.namesMethod = false →
      characterFollows context (c :: rest ++ e :: more) = characterFollows context (c :: rest))
    (slash : c = '/' → context.namesMethod = false →
      context.startsOperand (c :: rest ++ e :: more) = context.startsOperand (c :: rest)) :
    Agree (c :: rest).length (readFrom context c (c :: rest))
      (readFrom context c (c :: rest ++ e :: more)) := by
  unfold readFrom
  rw [symbol, percentFollows_stop stop]
  refine .ite Iff.rfl (fun _ => ?_) fun _ => ?_
  · rw [number_stop stop]
    exact .refl _ _
  refine .ite Iff.rfl (fun _ => quoted_stop stop _ _ c rest more) fun _ => ?_
  refine .ite Iff.rfl (fun _ => quoted_stop stop _ _ c rest more) fun _ => ?_
  refine .ite Iff.rfl (fun _ => quoted_stop stop _ _ c rest more) fun _ => ?_
  refine .ite Iff.rfl (fun sigil => ?_) fun _ => ?_
  · exact sigilVariable_stop stop (by simpa using sigil) rest more
  refine .ite Iff.rfl (fun follows => ?_) fun _ => ?_
  · obtain rfl := symbolFollows_colon follows
    cases rest with
    | nil => cases follows
    | cons d rest => exact symbol_stop stop d rest more
  refine .ite ?_ (fun question => ?_) fun _ => ?_
  · by_cases sign : c = '?'
    · cases names : context.namesMethod with
      | true => simp
      | false => rw [question sign names]
    · simp [sign]
  · simp only [Bool.and_eq_true, decide_eq_true_eq] at question
    obtain ⟨⟨rfl, _⟩, follows⟩ := question
    cases rest with
    | nil => simp [characterFollows] at follows
    | cons d rest => exact .refl _ _
  refine .ite Iff.rfl (fun percent => ?_) fun _ => ?_
  · simp only [Bool.and_eq_true, decide_eq_true_eq] at percent
    obtain ⟨⟨rfl, _⟩, _⟩ := percent
    exact percent_stop stop rest more
  refine .ite ?_ (fun slash => ?_) fun _ => ?_
  · by_cases sign : c = '/'
    · cases names : context.namesMethod with
      | true => simp
      | false => rw [slash sign names]
    · simp [sign]
  · simp only [Bool.and_eq_true, decide_eq_true_eq] at slash
    obtain ⟨⟨rfl, _⟩, _⟩ := slash
    exact regex_stop stop rest more
  refine .ite Iff.rfl (fun _ => ?_) fun _ => ?_
  · rw [name_stop stop]
    exact .refl _ _
  · rw [operator_stop stop]
    exact .refl _ _

end

section

variable (space : isSpace e = true)

include space

/-- White space and the end of the input follow a sign alike. -/
theorem startsOperand_space (context : Context) (c : Char) (rest more : List Char) :
    context.startsOperand (c :: rest ++ e :: more) = context.startsOperand (c :: rest) := by
  have glued := head?_any_stop (p := fun c => !isSpace c) (by rw [space]; rfl) rest more
  rw [List.head?_eq_getElem?, List.head?_eq_getElem?] at glued
  simp only [Context.startsOperand, Context.isCommandArgument, List.cons_append,
    List.getElem?_cons_succ, glued]

theorem characterFollows_space (context : Context) (c : Char) (rest more : List Char) :
    characterFollows context (c :: rest ++ e :: more) = characterFollows context (c :: rest) := by
  unfold characterFollows
  rw [startsOperand_space space]
  cases rest with
  | nil =>
    have apart : isPrintable e = false := not_of_isSpace (by decide) space
    simp [apart]
  | cons d rest =>
    have part := head?_any_stop (isIdentifierPart_stop (isStop_of_isSpace space)) rest more
    rw [List.head?_eq_getElem?, List.head?_eq_getElem?] at part
    simp only [List.cons_append, List.getElem?_cons_succ, List.getElem?_cons_zero, part]

theorem heredocFollows_space (context : Context) (c : Char) (rest more : List Char) :
    heredocFollows context (c :: rest ++ e :: more) = heredocFollows context (c :: rest) :=
  heredocFollows_stop (isStop_of_isSpace space) context c rest more

theorem readFrom_space (context : Context) (c : Char) (rest more : List Char) :
    Agree (c :: rest).length (readFrom context c (c :: rest))
      (readFrom context c (c :: rest ++ e :: more)) := by
  have stop := isStop_of_isSpace space
  have symbol := symbolFollows_stop stop context c rest more fun _ _ _ => by
    simp [endsOperatorSymbol, space]
  exact readFrom_stop stop context c rest more symbol
    (fun _ _ => characterFollows_space space context c rest more)
    (fun _ _ => startsOperand_space space context c rest more)

end

/-- A question mark and a slash in front of a backslash begin a literal that goes over it,
or are the operators that they are in front of nothing. -/
theorem readFrom_of_backslash {rest : List Char} {lexeme : Lexeme}
    (read : readFrom context c (c :: rest ++ '\\' :: more) = .ok lexeme)
    (within : lexeme.chars.length ≤ (c :: rest).length)
    (noOperator : ∀ operator ∈ operatorSymbols, c :: rest ≠ ':' :: operator) :
    readFrom context c (c :: rest) = .ok lexeme := by
  have stop : isStop '\\' = true := by decide
  have symbol := symbolFollows_stop stop context c rest more fun operator member same =>
    absurd same (noOperator operator member)
  refine (readFrom_stop stop context c rest more symbol (fun sign names => ?_) (fun sign names => ?_)
    lexeme within).mpr read
  · subst sign
    cases rest with
    | cons d rest =>
      have part := head?_any_stop (isIdentifierPart_stop stop) rest more
      rw [List.head?_eq_getElem?, List.head?_eq_getElem?] at part
      simp only [characterFollows, Context.startsOperand, Context.isCommandArgument,
        List.cons_append, List.getElem?_cons_succ, List.getElem?_cons_zero, part]
    | nil =>
      cases follows : characterFollows context ('?' :: '\\' :: more) with
      | false => exact follows.trans (by simp [characterFollows])
      | true =>
        have literal : readFrom context '?' ('?' :: '\\' :: more) =
            character ('?' :: '\\' :: more) := by
          simp [readFrom, symbolFollows, names, follows, show isDigit '?' = false by decide]
        have taken := literal.symm.trans read
        cases taken
        exact absurd within (by simp [Lexeme.chars])
  · subst sign
    cases rest with
    | cons d rest => rfl
    | nil =>
      cases starts : context.startsOperand ('/' :: '\\' :: more) with
      | false =>
        refine starts.trans (Eq.symm ?_)
        simp only [Context.startsOperand, Bool.or_eq_false_iff] at starts
        simp [Context.startsOperand, Context.isCommandArgument, starts.1]
      | true =>
        have literal : readFrom context '/' ('/' :: '\\' :: more) =
            regex ('/' :: '\\' :: more) := by
          simp [readFrom, symbolFollows, names, starts, show isDigit '/' = false by decide]
        have alone := (regex_stop stop [] more lexeme within).mpr (literal.symm.trans read)
        simp [regex, Lexeme.literal, delimited, bodyWidth, Except.map] at alone

/-- Where no heredoc is opened, one recogniser reads the token. -/
theorem read_plain {offset : Nat} {pending bodies : Option Pending} {rest : List Char}
    {lexeme : Lexeme} (plain : (!context.namesMethod && heredocFollows context (c :: rest)) = false) :
    read context offset pending (c :: rest) = .ok (lexeme, bodies) ↔
      readFrom context c (c :: rest) = .ok lexeme ∧ pending = bodies := by
  have mapped {reading : Reading} :
      (reading.map fun lexeme => (lexeme, pending)) = .ok (lexeme, bodies) ↔
        reading = .ok lexeme ∧ pending = bodies := by
    cases reading <;> simp [Except.map]
  unfold read
  rw [if_neg (Bool.eq_false_iff.mp plain)]
  exact mapped

/-- Where no heredoc is opened, a token that ends in front of the white space is read as
well where nothing follows. -/
theorem read_space (space : isSpace e = true) (context : Context) (offset : Nat)
    (pending : Option Pending) (c : Char) (rest more : List Char) {lexeme : Lexeme}
    {bodies : Option Pending}
    (plain : (!context.namesMethod && heredocFollows context (c :: rest)) = false)
    (within : lexeme.chars.length ≤ (c :: rest).length) :
    read context offset pending (c :: rest) = .ok (lexeme, bodies) ↔
      read context offset pending (c :: rest ++ e :: more) = .ok (lexeme, bodies) := by
  have plain' : (!context.namesMethod && heredocFollows context (c :: (rest ++ e :: more))) =
      false := by
    rw [← List.cons_append, heredocFollows_space space]
    exact plain
  rw [read_plain plain, List.cons_append, read_plain plain']
  exact and_congr_left fun _ => readFrom_space space context c rest more lexeme within

/-- So is one that ends in front of a backslash, if it does not name an operator there. -/
theorem read_of_backslash {context : Context} {offset : Nat} {pending bodies : Option Pending}
    {rest : List Char} {lexeme : Lexeme}
    (plain : (!context.namesMethod && heredocFollows context (c :: rest)) = false)
    (read : Lexeme.read context offset pending (c :: rest ++ '\\' :: more) = .ok (lexeme, bodies))
    (within : lexeme.chars.length ≤ (c :: rest).length)
    (noOperator : ∀ operator ∈ operatorSymbols, c :: rest ≠ ':' :: operator) :
    Lexeme.read context offset pending (c :: rest) = .ok (lexeme, bodies) := by
  have stop : isStop '\\' = true := by decide
  have plain' : (!context.namesMethod && heredocFollows context (c :: (rest ++ '\\' :: more))) =
      false := by
    rw [← List.cons_append, heredocFollows_stop stop]
    exact plain
  rw [List.cons_append, read_plain plain'] at read
  rw [read_plain plain]
  exact ⟨readFrom_of_backslash read.1 within noOperator, read.2⟩

/-- A backslash begins no token. -/
theorem read_backslash (context : Context) (offset : Nat) (pending : Option Pending)
    (rest : List Char) : ∃ fault, read context offset pending ('\\' :: rest) = .error fault := by
  have noOperator : Token.Punct.read? ('\\' :: rest) = none := by
    refine List.find?_eq_none.mpr fun p _ front => ?_
    obtain ⟨first, tail, split⟩ := List.exists_cons_of_ne_nil (spelling_ne_nil p)
    have clean := stop_not_mem_spelling (show isStop '\\' = true by decide) p
    rw [split] at front clean
    obtain ⟨rfl, _⟩ := List.cons_prefix_cons.mp (List.isPrefixOf_iff_prefix.mp front)
    exact clean List.mem_cons_self
  have digit : isDigit '\\' = false := by decide
  have start : isIdentifierStart '\\' = false := by decide
  unfold read
  simp [heredocFollows, readFrom, digit, start, symbolFollows, operator, noOperator, Except.map]

end Lexeme

end RubySyntax
