import Mathlib.Data.List.TakeWhile
import RubySyntax.Lexeme.Read

/-! What a reading takes from the input: characters from its front, at least one
while there is any. The last of them is a line feed only where an unclosed
literal takes everything that is left. -/
namespace RubySyntax.Lexeme

open Text

/-- Characters that make up a token at the front of an input. -/
structure Extent (input taken : List Char) : Prop where
  front : taken <+: input
  advances : taken ≠ []
  closed : taken.getLast? ≠ some '\n'

theorem Extent.of_clean (front : taken <+: input) (advances : taken ≠ [])
    (clean : '\n' ∉ taken) : Extent input taken :=
  ⟨front, advances, fun last => clean (List.mem_of_getLast? last)⟩

/-- A lexeme that stands for a token of its own: neither a line break nor the
end of the tokens. Only a literal may go on over the end of a line. -/
structure Sound (input : List Char) (lexeme : Lexeme) : Prop where
  extent : Extent input lexeme.chars
  kind : lexeme.kind ∉ [.unknown, .endOfFile, .newLine]
  inLine : lexeme.kind.isLiteral = true ∨ '\n' ∉ lexeme.chars

theorem Sound.of_clean {lexeme : Lexeme} (front : lexeme.chars <+: input)
    (advances : lexeme.chars ≠ []) (clean : '\n' ∉ lexeme.chars)
    (kind : lexeme.kind ∉ [.unknown, .endOfFile, .newLine]) : lexeme.Sound input :=
  ⟨.of_clean front advances clean, kind, .inr clean⟩

/-- The characters of a fault, those in front of its span included. -/
def Fault.chars (fault : Fault) : List Char := fault.opening ++ fault.body

/-- A fault of the lexical grammar at the front of the input. -/
structure Fault.Sound (input : List Char) (fault : Fault) : Prop where
  front : fault.chars <+: input
  closed : fault.chars.getLast? ≠ some '\n' ∨ fault.chars = input
  lexical : fault.message.isLexical = true := by rfl

/-- What is read satisfies `holds`, or is a fault at the front of the input. -/
def Reads (input : List Char) (holds : α → Prop) : Except Fault α → Prop
  | .ok value => holds value
  | .error fault => fault.Sound input

theorem Reads.map {result : Except Fault α} {holds : α → Prop} {kept : β → Prop} {f : α → β}
    (sound : Reads input holds result) (keeps : ∀ value, result = .ok value → kept (f value)) :
    Reads input kept (result.map f) := by
  cases result with
  | error fault => exact sound
  | ok value => exact keeps value rfl

theorem ok_of_map {result : Except Fault α} {f : α → β} {kept : β}
    (found : result.map f = .ok kept) : ∃ value, result = .ok value ∧ f value = kept := by
  cases result with
  | error fault => cases found
  | ok value => exact ⟨value, rfl, Except.ok.inj found⟩

def Reading.Sound (input : List Char) (reading : Reading) : Prop :=
  Reads input (Lexeme.Sound input) reading

theorem Fault.Sound.of_clean {fault : Fault} (front : fault.chars <+: input)
    (clean : '\n' ∉ fault.chars) (lexical : fault.message.isLexical = true := by rfl) :
    fault.Sound input :=
  ⟨front, .inl fun last => clean (List.mem_of_getLast? last), lexical⟩

theorem isPrefix_append (first : front <+: input) (second : back <+: input.drop front.length) :
    front ++ back <+: input := by
  obtain ⟨rest, rfl⟩ := first
  rw [List.drop_left] at second
  obtain ⟨rest, rfl⟩ := second
  exact ⟨rest, List.append_assoc _ _ _⟩

theorem not_mem_takeWhile {p : Char → Bool} (excluded : p c = false) (cs : List Char) :
    c ∉ cs.takeWhile p := by
  intro member
  simpa [excluded] using List.mem_takeWhile_imp member

/-- Characters that go on are taken up to one that does not. -/
theorem takeWhile_append_of_ends {p : Char → Bool} {word rest : List Char}
    (parts : ∀ c ∈ word, p c = true) (ends : rest.head?.any p = false) :
    (word ++ rest).takeWhile p = word := by
  rw [List.takeWhile_append_of_pos parts]
  cases rest with
  | nil => rw [List.takeWhile_nil, List.append_nil]
  | cons next rest =>
    have apart : ¬ p next = true := Bool.eq_false_iff.mp ends
    rw [List.takeWhile_cons_of_neg apart, List.append_nil]

/-- No text in front of a character goes over it that does not hold it. -/
theorem isPrefixOf_append_cons {pattern : List Char} (absent : c ∉ pattern)
    (front rest : List Char) :
    pattern.isPrefixOf (front ++ c :: rest) = pattern.isPrefixOf front := by
  induction pattern generalizing front with
  | nil => rw [List.isPrefixOf_nil_left, List.isPrefixOf_nil_left]
  | cons d pattern ih =>
    rw [List.mem_cons, not_or] at absent
    cases front with
    | nil =>
      have other : (d == c) = false := beq_false_of_ne (Ne.symm absent.1)
      simp [List.isPrefixOf, other]
    | cons e front => simp [List.isPrefixOf, ih absent.2]

/-- At most one character, kept if it is one of those wanted. -/
theorem filter_take_one (p : Char → Bool) (input : List Char) :
    (input.take 1).filter p <+: input := by
  cases input with
  | nil => simp
  | cons c rest => cases wanted : p c <;> simp [wanted]

theorem isDigitOrSeparator_lineFeed : isDigitOrSeparator '\n' = false := by decide

theorem isIdentifierPart_lineFeed : isIdentifierPart '\n' = false := by decide

theorem fraction_front (input : List Char) : fraction input <+: input := by
  unfold fraction
  split
  · split
    · exact List.cons_prefix_cons.mpr ⟨rfl, List.takeWhile_prefix _⟩
    · exact List.nil_prefix
  · exact List.nil_prefix

theorem lineFeed_not_mem_fraction (input : List Char) : '\n' ∉ fraction input := by
  unfold fraction
  split
  · split
    · simp [not_mem_takeWhile isDigitOrSeparator_lineFeed]
    · exact List.not_mem_nil
  · exact List.not_mem_nil

theorem exponent_front (input : List Char) : exponent input <+: input := by
  unfold exponent
  split
  · exact List.nil_prefix
  · split
    · dsimp only
      split
      · exact List.nil_prefix
      · rw [List.cons_append]
        exact List.cons_prefix_cons.mpr
          ⟨rfl, isPrefix_append (filter_take_one _ _) (List.takeWhile_prefix _)⟩
    · exact List.nil_prefix

theorem lineFeed_not_mem_exponent (input : List Char) : '\n' ∉ exponent input := by
  unfold exponent
  split
  · exact List.not_mem_nil
  · rename_i letter rest
    split
    · rename_i isLetter
      dsimp only
      split
      · exact List.not_mem_nil
      · have different : '\n' ≠ letter := by
          rintro rfl
          simp at isLetter
        have digits (cs : List Char) : '\n' ∉ cs.takeWhile isDigit :=
          not_mem_takeWhile (by decide) cs
        simp [different, digits]
    · exact List.not_mem_nil

theorem number_sound (digit : isDigit c = true) (rest : List Char) :
    (number (c :: rest)).Sound (c :: rest) := by
  have first : isDigitOrSeparator c = true := by simp [isDigitOrSeparator, digit]
  have chars : (number (c :: rest)).chars = (number (c :: rest)).body := by
    simp [Lexeme.chars, number]
  refine ⟨?_, by simp [number], .inl rfl⟩
  rw [chars]
  refine .of_clean ?_ ?_ ?_
  · refine isPrefix_append (isPrefix_append (List.takeWhile_prefix _) (fraction_front _)) ?_
    rw [List.length_append, ← List.drop_drop]
    exact exponent_front _
  · simp [number, first]
  · simp only [number, List.mem_append, not_or]
    exact ⟨⟨not_mem_takeWhile isDigitOrSeparator_lineFeed _, lineFeed_not_mem_fraction _⟩,
      lineFeed_not_mem_exponent _⟩

theorem nameMark_front (input : List Char) : nameMark input <+: input := by
  unfold nameMark
  split
  · split
    · exact List.cons_prefix_cons.mpr ⟨rfl, List.nil_prefix⟩
    · exact List.nil_prefix
  · exact List.nil_prefix

theorem lineFeed_not_mem_nameMark (input : List Char) : '\n' ∉ nameMark input := by
  unfold nameMark
  split
  · rename_i mark rest
    split
    · rename_i isMark
      have different : '\n' ≠ mark := by
        rintro rfl
        simp at isMark
      simpa using different
    · exact List.not_mem_nil
  · exact List.not_mem_nil

theorem colonFollows_front (follows : colonFollows input = true) : [':'] <+: input := by
  cases input with
  | nil => simp [colonFollows] at follows
  | cons c rest =>
    have colon : c = ':' := by
      simp only [colonFollows, List.head?_cons, Bool.and_eq_true, beq_iff_eq] at follows
      exact Option.some.inj follows.1
    exact List.cons_prefix_cons.mpr ⟨colon.symm, List.nil_prefix⟩

theorem nameText_front (input : List Char) : nameText input <+: input := by
  unfold nameText
  dsimp only
  split
  · exact List.takeWhile_prefix _
  · exact isPrefix_append (List.takeWhile_prefix _) (nameMark_front _)

theorem lineFeed_not_mem_nameText (input : List Char) : '\n' ∉ nameText input := by
  have stem := not_mem_takeWhile isIdentifierPart_lineFeed input
  unfold nameText
  dsimp only
  split
  · exact stem
  · exact List.not_mem_append stem (lineFeed_not_mem_nameMark _)

theorem nameText_ne_nil (start : isIdentifierStart c = true) (rest : List Char) :
    nameText (c :: rest) ≠ [] := by
  have first : isIdentifierPart c = true := isIdentifierPart_of_start start
  unfold nameText
  dsimp only
  split <;> simp [first]

theorem nameKind_not_mem (context : Context) (text : List Char) :
    nameKind context text ∉ [.unknown, .endOfFile, .newLine] := by
  unfold nameKind
  split
  · simp
  · split <;> simp

theorem name_sound (context : Context) (start : isIdentifierStart c = true) (rest : List Char) :
    (name context (c :: rest)).Sound (c :: rest) := by
  have clean := lineFeed_not_mem_nameText (c :: rest)
  unfold name
  dsimp only
  split
  · rename_i label
    have colon := colonFollows_front (Bool.and_eq_true_iff.mp label).1
    refine .of_clean ?_ ?_ ?_ (by simp)
    · simpa [Lexeme.chars] using isPrefix_append (nameText_front _) colon
    · simp [Lexeme.chars]
    · simpa [Lexeme.chars] using clean
  · refine .of_clean ?_ ?_ ?_ (nameKind_not_mem _ _)
    · simpa [Lexeme.chars] using nameText_front (c :: rest)
    · simpa [Lexeme.chars] using nameText_ne_nil start rest
    · simpa [Lexeme.chars] using clean

theorem globalName_front (input : List Char) : globalName input <+: input := by
  unfold globalName
  dsimp only
  split
  · exact filter_take_one _ _
  · exact List.takeWhile_prefix _

theorem lineFeed_not_mem_globalName (input : List Char) : '\n' ∉ globalName input := by
  unfold globalName
  dsimp only
  split
  · intro member
    have special := (List.mem_filter.mp member).2
    revert special
    decide
  · exact not_mem_takeWhile isIdentifierPart_lineFeed _

theorem globalVariable_sound {kind : Token.Kind}
    (variableKind : kind ∉ [.unknown, .endOfFile, .newLine]) (clean : '\n' ∉ before)
    (rest : List Char) :
    (globalVariable kind before rest).Sound (before ++ '$' :: rest) := by
  unfold globalVariable
  dsimp only
  split
  · refine .of_clean ?_ ?_
    · exact (List.prefix_append_right_inj before).mpr (List.cons_prefix_cons.mpr ⟨rfl, List.nil_prefix⟩)
    · simpa [Fault.chars] using clean
  · refine Sound.of_clean ?_ ?_ ?_ variableKind
    · simpa [Lexeme.chars, List.prefix_append_right_inj] using globalName_front rest
    · simp [Lexeme.chars]
    · simpa [Lexeme.chars, lineFeed_not_mem_globalName] using clean

theorem atSigns_front (rest : List Char) : atSigns ('@' :: rest) <+: '@' :: rest := by
  unfold atSigns
  split
  · rename_i double
    cases rest with
    | nil => simp at double
    | cons c rest =>
      have same : c = '@' := by simpa using double
      subst same
      exact List.cons_prefix_cons.mpr ⟨rfl, List.cons_prefix_cons.mpr ⟨rfl, List.nil_prefix⟩⟩
  · exact List.cons_prefix_cons.mpr ⟨rfl, List.nil_prefix⟩

theorem atSigns_ne_nil (input : List Char) : atSigns input ≠ [] := by
  unfold atSigns
  split <;> simp

theorem lineFeed_not_mem_atSigns (input : List Char) : '\n' ∉ atSigns input := by
  unfold atSigns
  split <;> decide

theorem sigilVariable_sound (sigil : c = '@' ∨ c = '$') (rest : List Char) :
    (sigilVariable (c :: rest)).Sound (c :: rest) := by
  rcases sigil with rfl | rfl
  · unfold sigilVariable
    rw [if_neg (by simp)]
    dsimp only
    split
    · refine Sound.of_clean ?_ ?_ ?_ ?_
      · simpa [Lexeme.chars] using isPrefix_append (atSigns_front rest) (List.takeWhile_prefix _)
      · simp [Lexeme.chars, atSigns_ne_nil]
      · simp [Lexeme.chars, lineFeed_not_mem_atSigns, not_mem_takeWhile isIdentifierPart_lineFeed]
      · dsimp only
        split <;> simp
    · exact .of_clean (by simpa [Fault.chars] using atSigns_front rest)
        (by simp [Fault.chars, lineFeed_not_mem_atSigns])
  · simpa [sigilVariable] using
      globalVariable_sound (by simp : Token.Kind.globalVariable ∉ _) List.not_mem_nil rest

end RubySyntax.Lexeme
