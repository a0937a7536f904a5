import RubySyntax.Proofs.Lexeme.Extent

namespace RubySyntax.Lexeme

open Text

/-- The character that closes what a frame stands for. -/
def Frame.delimiter : Frame → Char
  | body _ closer _ _ => closer
  | region _ => '}'
  | regex _ => '/'

theorem Frame.move_leave {frame : Frame} (leaves : frame.move c = .leave) :
    c = frame.delimiter := by
  cases frame with
  | body opener closer interpolates depth =>
    unfold Frame.move at leaves
    grind [Frame.delimiter]
  | region depth =>
    unfold Frame.move at leaves
    grind [Frame.delimiter]
  | regex inClass =>
    unfold Frame.move at leaves
    grind [Frame.delimiter]

theorem Frame.move_stay {frame next : Frame} (stays : frame.move c = .stay next) :
    next.delimiter = frame.delimiter := by
  cases frame with
  | body opener closer interpolates depth =>
    unfold Frame.move at stays
    grind [Frame.delimiter]
  | region depth =>
    unfold Frame.move at stays
    grind [Frame.delimiter]
  | regex inClass =>
    unfold Frame.move at stays
    grind [Frame.delimiter]

theorem drop_sub_cons (bound : width + 1 ≤ last) (c : Char) (rest : List Char) :
    (c :: rest).drop (last - width) = rest.drop (last - (width + 1)) := by
  have count : last - width = last - (width + 1) + 1 := by omega
  rw [count, List.drop_succ_cons]

theorem drop_sub_cons_drop (bound : width + 2 ≤ last) (c : Char) (rest : List Char) :
    (c :: rest).drop (last - width) = (rest.drop 1).drop (last - (width + 2)) := by
  have count : last - (width + 1) = 1 + (last - (width + 2)) := by omega
  rw [drop_sub_cons (by omega), count, List.drop_drop]

/-- Behind the body stands the delimiter of the outermost frame. -/
theorem bodyWidth_delimiter (found : bodyWidth frame outer width input = some last) :
    width ≤ last ∧
      (input.drop (last - width)).head? = some (outer.getLastD frame).delimiter := by
  fun_induction bodyWidth frame outer width input with
  | case1 => cases found
  | case2 frame outer width rest ih =>
    obtain ⟨bound, head⟩ := ih found
    exact ⟨by omega, by rw [drop_sub_cons_drop bound, head]⟩
  | case3 frame outer width c rest _ _ ih =>
    obtain ⟨bound, head⟩ := ih found
    exact ⟨by omega, by rw [drop_sub_cons_drop bound, head, List.getLastD_cons]⟩
  | case4 frame outer width c rest _ _ next stays ih =>
    obtain ⟨bound, head⟩ := ih found
    refine ⟨by omega, ?_⟩
    rw [drop_sub_cons bound, head]
    cases outer with
    | nil => exact congrArg some (Frame.move_stay stays)
    | cons first outer => simp only [List.getLastD_cons]
  | case5 frame outer width c rest _ _ inner _ ih =>
    obtain ⟨bound, head⟩ := ih found
    exact ⟨by omega, by rw [drop_sub_cons bound, head, List.getLastD_cons]⟩
  | case6 frame width c rest _ _ leaves =>
    cases found
    simp [Frame.move_leave leaves]
  | case7 frame width c rest _ _ leaves next outer ih =>
    obtain ⟨bound, head⟩ := ih found
    exact ⟨by omega, by rw [drop_sub_cons bound, head, List.getLastD_cons]⟩

theorem delimited_closing {body closing : List Char}
    (found : delimited frame input = some (body, closing)) :
    closing = [frame.delimiter] ∧ body ++ closing <+: input := by
  obtain ⟨last, width, same⟩ := Option.map_eq_some_iff.mp found
  obtain ⟨rfl, rfl⟩ := Prod.mk.inj same
  obtain ⟨_, head⟩ := bodyWidth_delimiter width
  rw [Nat.sub_zero, List.head?_drop] at head
  obtain ⟨within, delimiter⟩ := List.getElem?_eq_some_iff.mp head
  have closing : (input.drop last).take 1 = [frame.delimiter] := by
    rw [List.drop_eq_getElem_cons within, delimiter]
    rfl
  refine ⟨closing, ?_⟩
  rw [← List.take_add]
  exact List.take_prefix _ _

theorem literal_sound {frame : Frame} (closes : frame.delimiter ≠ '\n') (opens : opened ≠ [])
    (kind : Token.LiteralKind) (message : Diagnostic.Message) (args : List String)
    (input : List Char) (lexical : message.isLexical = true := by rfl) :
    (literal kind opened frame message args input).Sound (opened ++ input) := by
  unfold literal
  split
  · rename_i body closing found
    obtain ⟨rfl, front⟩ := delimited_closing found
    refine ⟨⟨?_, ?_, ?_⟩, by simp, .inl rfl⟩
    · simpa [Lexeme.chars, List.prefix_append_right_inj] using front
    · simp [Lexeme.chars, opens]
    · simpa [Lexeme.chars, List.getLast?_append] using closes
  · exact ⟨List.prefix_rfl, .inr rfl, lexical⟩

/-- The option letters of a regular expression are not read with its body. -/
theorem literal_options {kind : Token.LiteralKind} {lexeme : Lexeme}
    (read : literal kind opened frame message args input = .ok lexeme) :
    lexeme.options = [] := by
  unfold literal at read
  split at read
  · cases read
    rfl
  · cases read

theorem withOptions_sound {lexeme : Lexeme} (sound : lexeme.Sound input)
    (plain : lexeme.options = []) : (withOptions input lexeme).Sound input := by
  obtain ⟨⟨front, advances, closed⟩, kind, inLine⟩ := sound
  let letters := (input.drop lexeme.chars.length).takeWhile fun c => regexOptions.contains c
  have chars : (withOptions input lexeme).chars = lexeme.chars ++ letters := by
    simp [withOptions, Lexeme.chars, plain, letters]
  have inOptions : '\n' ∉ letters := not_mem_takeWhile (by decide) _
  refine ⟨⟨?_, ?_, ?_⟩, kind, ?_⟩
  · rw [chars]
    exact isPrefix_append front (List.takeWhile_prefix _)
  · simp [chars, advances]
  · rw [chars, List.getLast?_append]
    intro last
    rcases Option.or_eq_some_iff.mp last with letter | ⟨_, before⟩
    · exact inOptions (List.mem_of_getLast? letter)
    · exact closed before
  · rw [chars]
    exact inLine.imp_right fun clean => List.not_mem_append clean inOptions

theorem Reading.Sound.withOptions {reading : Reading} (sound : reading.Sound input)
    (plain : ∀ lexeme, reading = .ok lexeme → lexeme.options = []) :
    Reading.Sound input (reading.map (withOptions input)) := by
  refine Reads.map sound fun lexeme read => ?_
  subst read
  exact withOptions_sound sound (plain lexeme rfl)

theorem quoted_sound {quote : Char} (visible : quote ≠ '\n') (kind : Token.LiteralKind)
    (rest : List Char) : (quoted kind quote (quote :: rest)).Sound (quote :: rest) :=
  have closes : (Frame.quoted quote).delimiter ≠ '\n' := visible
  literal_sound closes (List.cons_ne_nil quote []) _ _ _ rest (by split <;> rfl)

theorem regex_sound (rest : List Char) : (regex ('/' :: rest)).Sound ('/' :: rest) := by
  have closes : (Frame.regex false).delimiter ≠ '\n' := by decide
  exact (literal_sound closes (List.cons_ne_nil '/' []) _ _ _ rest).withOptions
    fun _ => literal_options

theorem closingDelimiter_ne_lineFeed (closes : closingDelimiter opener = some closer) :
    closer ≠ '\n' := by
  rintro rfl
  unfold closingDelimiter at closes
  split at closes <;> simp at closes

theorem percentLetter_front (rest : List Char) :
    '%' :: (percentLetter ('%' :: rest)).toList <+: '%' :: rest := by
  refine List.cons_prefix_cons.mpr ⟨rfl, ?_⟩
  cases rest with
  | nil => exact List.prefix_rfl
  | cons c rest => cases alpha : c.isAlpha <;> simp [percentLetter, Option.filter, alpha]

theorem lineFeed_not_mem_percentLetter (input : List Char) :
    '\n' ∉ '%' :: (percentLetter input).toList := by
  simp [percentLetter, Option.filter_eq_some_iff]

/-- Where a percent sign begins a literal, a delimiter follows it and its letter. -/
theorem percentFollows_opener (follows : percentFollows context ('%' :: rest) = true)
    (split : ('%' :: rest).drop ('%' :: (percentLetter ('%' :: rest)).toList).length = c :: more) :
    (closingDelimiter c).isSome := by
  unfold percentFollows at follows
  cases rest with
  | nil => simp at split
  | cons first rest =>
    cases alpha : first.isAlpha with
    | false =>
      obtain ⟨rfl, rfl⟩ : first = c ∧ rest = more := by
        simpa [percentLetter, Option.filter, alpha] using split
      have bracket : first ∈ ['(', '[', '{', '<'] := by
        simpa [alpha] using (Bool.and_eq_true_iff.mp follows).2
      simp only [List.mem_cons, List.not_mem_nil, or_false] at bracket
      rcases bracket with rfl | rfl | rfl | rfl <;> rfl
    | true =>
      obtain rfl : rest = c :: more := by
        simpa [percentLetter, Option.filter, alpha] using split
      have bracketless : first ∉ ['(', '[', '{', '<'] := by
        intro bracket
        simp only [List.mem_cons, List.not_mem_nil, or_false] at bracket
        rcases bracket with rfl | rfl | rfl | rfl <;> simp at alpha
      simpa [alpha, bracketless] using (Bool.and_eq_true_iff.mp follows).2

theorem percent_sound (follows : percentFollows context ('%' :: rest) = true) :
    (percent ('%' :: rest)).Sound ('%' :: rest) := by
  have front := percentLetter_front rest
  have unknown (args : List String) : Fault.Sound ('%' :: rest)
      { body := '%' :: (percentLetter ('%' :: rest)).toList
        message := .unknownPercentLiteral, args } :=
    .of_clean (by simpa [Fault.chars] using front) (lineFeed_not_mem_percentLetter _)
  unfold percent
  dsimp only
  split
  · exact unknown _
  · rename_i kind interpolates _
    split
    · exact unknown _
    · rename_i opener more opened
      obtain ⟨closer, closes⟩ := Option.isSome_iff_exists.mp (percentFollows_opener follows opened)
      have taken : '%' :: (percentLetter ('%' :: rest)).toList ++ [opener] ++ more = '%' :: rest := by
        rw [List.append_assoc, List.singleton_append, ← opened]
        exact List.prefix_iff_eq_append.mp front
      rw [closes]
      let nested := if opener = closer then none else some opener
      have visible : (Frame.body nested closer interpolates 0).delimiter ≠ '\n' :=
        closingDelimiter_ne_lineFeed closes
      have opens : '%' :: (percentLetter ('%' :: rest)).toList ++ [opener] ≠ [] :=
        List.cons_ne_nil _ _
      have sound := literal_sound visible opens kind .unterminatedPercentLiteral
        [String.ofList [closer]] more
      rw [taken] at sound
      dsimp only
      split
      · exact sound.withOptions fun _ => literal_options
      · exact sound

theorem symbolName_front (input : List Char) : symbolName input <+: input := by
  have stem : (input.takeWhile fun c => isIdentifierPart c || c == '!' || c == '?') <+: input :=
    List.takeWhile_prefix _
  unfold symbolName
  dsimp only
  split
  · rename_i rest setter
    split
    · exact stem
    · refine isPrefix_append stem ?_
      rw [setter]
      exact List.cons_prefix_cons.mpr ⟨rfl, List.nil_prefix⟩
  · exact stem

theorem lineFeed_not_mem_symbolName (input : List Char) : '\n' ∉ symbolName input := by
  have stem : '\n' ∉ input.takeWhile fun c => isIdentifierPart c || c == '!' || c == '?' :=
    not_mem_takeWhile (by decide) input
  unfold symbolName
  dsimp only
  split
  · split
    · exact stem
    · exact List.not_mem_append stem (by decide)
  · exact stem

theorem operatorSymbol_clean {operator : List Char} (member : operator ∈ operatorSymbols) :
    '\n' ∉ operator := by
  have clean : operatorSymbols.all (fun operator => !operator.contains '\n') = true := by decide
  simpa using List.all_eq_true.mp clean operator member

theorem symbol_sound (rest : List Char) : (symbol (':' :: rest)).Sound (':' :: rest) := by
  have plain (name : List Char) (front : name <+: rest) (clean : '\n' ∉ name) :
      Lexeme.Sound (':' :: rest) { kind := .literal .symbol, opening := [':'], body := name } := by
    refine .of_clean ?_ ?_ ?_ (by simp)
    · simpa [Lexeme.chars] using front
    · simp [Lexeme.chars]
    · simpa [Lexeme.chars] using clean
  unfold symbol
  simp only [List.drop_succ_cons, List.drop_zero]
  cases rest with
  | nil => exact plain [] List.nil_prefix List.not_mem_nil
  | cons c tail =>
    dsimp only
    split
    · rename_i quote
      have visible : (Frame.quoted c).delimiter ≠ '\n' := by
        rintro same
        simp [show c = '\n' from same] at quote
      exact literal_sound visible (List.cons_ne_nil ':' [c]) _ _ _ tail
    · split
      · rename_i sigil
        subst sigil
        split
        · refine .of_clean ?_ ?_
          · simpa [Fault.chars] using atSigns_front tail
          · simpa [Fault.chars] using lineFeed_not_mem_atSigns _
        · refine plain _ (isPrefix_append (atSigns_front tail) (List.takeWhile_prefix _)) ?_
          exact List.not_mem_append (lineFeed_not_mem_atSigns _)
            (not_mem_takeWhile isIdentifierPart_lineFeed _)
      · split
        · rename_i sigil
          subst sigil
          exact globalVariable_sound (by simp) (by decide : '\n' ∉ [':']) tail
        · split
          · exact plain _ (symbolName_front _) (lineFeed_not_mem_symbolName _)
          · cases found : operatorSymbols.find? fun operator => operator.isPrefixOf (c :: tail) with
            | none => exact plain [] List.nil_prefix List.not_mem_nil
            | some operator =>
              refine plain operator ?_ (operatorSymbol_clean (List.mem_of_find?_eq_some found))
              simpa using List.find?_some found

theorem isPrintable_lineFeed : isPrintable '\n' = false := by decide

theorem character_sound (follows : characterFollows context ('?' :: rest) = true) :
    (character ('?' :: rest)).Sound ('?' :: rest) := by
  cases rest with
  | nil => simp [characterFollows] at follows
  | cons c rest =>
    have printable : isPrintable c = true := by
      have visible := (Bool.and_eq_true_iff.mp follows).2
      simp only [List.getElem?_cons_succ, List.getElem?_cons_zero, Option.any_some,
        Bool.and_eq_true] at visible
      exact visible.1
    have different : '\n' ≠ c := by
      rintro rfl
      simp [isPrintable_lineFeed] at printable
    unfold character
    simp only [List.drop_succ_cons, List.drop_zero, List.take_succ_cons, List.take_zero,
      List.any_cons, printable, Bool.true_or, ↓reduceIte]
    refine Sound.of_clean ?_ ?_ ?_ (by simp)
    · simp [Lexeme.chars]
    · simp [Lexeme.chars]
    · simpa [Lexeme.chars] using different

end RubySyntax.Lexeme
