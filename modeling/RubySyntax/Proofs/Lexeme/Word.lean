import Mathlib.Data.Bool.AllAny
import RubySyntax.Proofs.Lexeme.Read

namespace RubySyntax.Lexeme

open Text

/-- What stands behind a name neither goes on with it nor makes a label of it. -/
structure EndsName (rest : List Char) : Prop where
  apart : rest.head?.any isIdentifierPart = false
  unmarked : nameMark rest = []
  unlabelled : colonFollows rest = false

theorem endsName_blank (rest : List Char) : EndsName (' ' :: rest) where
  apart := show isIdentifierPart ' ' = false by decide
  unmarked := rfl
  unlabelled := rfl

/-- A character that begins a name, and others that go on with it. -/
structure IsName (word : List Char) : Prop where
  start : word.head?.any isIdentifierStart = true
  parts : word.all isIdentifierPart = true

/-- The sigil of a variable of this kind and its name. -/
inductive IsVariable : Token.Kind → List Char → Prop
  | ofInstance (named : IsName word) : IsVariable .instanceVariable ('@' :: word)
  | ofClass (named : IsName word) : IsVariable .classVariable ('@' :: '@' :: word)
  | ofGlobal (some : word ≠ []) (parts : word.all isIdentifierPart = true) :
      IsVariable .globalVariable ('$' :: word)
  | special (member : specialGlobals.contains c = true) : IsVariable .globalVariable ['$', c]

variable {c d : Char} {word rest : List Char}

theorem ne_of_start (start : isIdentifierStart c = true) (other : isIdentifierStart d = false) :
    c ≠ d := by
  rintro rfl
  rw [start] at other
  cases other

theorem isDigit_of_start (start : isIdentifierStart c = true) : isDigit c = false := by
  refine Bool.eq_false_iff.mpr fun digit => ?_
  have within : 48 ≤ c.toNat ∧ c.toNat ≤ 57 := by
    simpa [isDigit, Char.isDigit, UInt32.le_iff_toNat_le] using digit
  have start : (c == '_' || (c.isUpper || c.isLower) ||
      (!isAscii c && inRanges Unicode.identifierStart c)) = true := start
  simp only [Bool.or_eq_true, Bool.and_eq_true, beq_iff_eq] at start
  rcases start with (rfl | upper | lower) | ⟨wide, _⟩
  · exact absurd within (by decide)
  · have above : 65 ≤ c.toNat := UInt32.le_iff_toNat_le.mp (of_decide_eq_true upper).1
    omega
  · have above : 97 ≤ c.toNat :=
      UInt32.le_iff_toNat_le.mp (of_decide_eq_true (Bool.and_eq_true_iff.mp lower).1)
    omega
  · have above : ¬ c.toNat < 0x80 := by simpa [isAscii] using wide
    omega

theorem isSpace_of_start (start : isIdentifierStart c = true) : isSpace c = false := by
  have spaces : ∀ d ∈ [' ', '\t', '\r', '\x0b', '\x0c', '\u00a0', '\ufeff', '\n'],
      isIdentifierStart d = false := List.all_iff_forall_prop.mp (by decide +kernel)
  refine Bool.eq_false_iff.mpr fun space => ?_
  have member : c ∈ [' ', '\t', '\r', '\x0b', '\x0c', '\u00a0', '\ufeff', '\n'] := by
    simpa [isSpace, isBlank, isLineBreak, or_assoc] using space
  exact ne_of_start start (spaces c member) rfl

/-- What begins a name begins nothing else. -/
theorem read_start (start : isIdentifierStart c = true) (context : Context) (offset : Nat)
    (pending : Option Pending) (rest : List Char) :
    read context offset pending (c :: rest) = .ok (name context (c :: rest), pending) := by
  have other (d : Char) (sign : isIdentifierStart d = false) : c ≠ d := ne_of_start start sign
  have noSymbol : symbolFollows context (c :: rest) = false := by
    unfold symbolFollows
    split
    · rename_i same
      exact absurd (List.cons.inj same).1 (other ':' (by decide))
    · rfl
  rw [read_first (other '<' (by decide))]
  simp [readFrom, isDigit_of_start start, other '\'' (by decide), other '"' (by decide),
    other '\x60' (by decide), other '@' (by decide), other '$' (by decide), other '?' (by decide),
    other '%' (by decide), other '/' (by decide), noSymbol, start, Except.map]

theorem IsName.takeWhile (named : IsName word) (ends : EndsName rest) :
    (word ++ rest).takeWhile isIdentifierPart = word :=
  takeWhile_append_of_ends (List.all_eq_true.mp named.parts) ends.apart

/-- A name is read as what it names where it stands. -/
theorem read_name (named : IsName word) (ends : EndsName rest) (context : Context) (offset : Nat)
    (pending : Option Pending) :
    read context offset pending (word ++ rest) =
      .ok ({ kind := nameKind context word, body := word }, pending) := by
  have whole := named.takeWhile ends
  cases word with
  | nil => cases named.start
  | cons c tail =>
    have start : isIdentifierStart c = true := named.start
    have text : nameText (c :: tail ++ rest) = c :: tail := by
      unfold nameText
      simp only [whole, List.drop_left, ends.unmarked, List.append_nil, ite_self]
    have read : name context (c :: tail ++ rest) =
        { kind := nameKind context (c :: tail), body := c :: tail } := by
      unfold name
      simp only [text, List.drop_left, ends.unlabelled, Bool.false_and, Bool.false_eq_true, if_false]
    rw [← read]
    exact read_start start context offset pending _

theorem globalName_ordinary (some : word ≠ []) (parts : word.all isIdentifierPart = true)
    (ends : rest.head?.any isIdentifierPart = false) : globalName (word ++ rest) = word := by
  have whole : (word ++ rest).takeWhile isIdentifierPart = word :=
    takeWhile_append_of_ends (List.all_eq_true.mp parts) ends
  unfold globalName
  simp only [whole]
  exact if_neg (by simpa using some)

theorem globalName_special (member : specialGlobals.contains c = true)
    (ends : rest.head?.any isIdentifierPart = false) : globalName (c :: rest) = [c] := by
  by_cases part : isIdentifierPart c = true
  · exact globalName_ordinary (List.cons_ne_nil c []) (by simp [part]) ends
  · unfold globalName
    simp only [List.takeWhile_cons_of_neg part, List.isEmpty_nil, if_true, List.take_succ_cons,
      List.take_zero]
    exact List.filter_eq_self.mpr (by simpa using member)

theorem sigilVariable_global {input : List Char} (named : globalName input = word)
    (some : word ≠ []) :
    sigilVariable ('$' :: input) = .ok { kind := .globalVariable, body := '$' :: word } := by
  simp [sigilVariable, globalVariable, named, some]

theorem sigilVariable_append {kind : Token.Kind} (shape : IsVariable kind word)
    (ends : rest.head?.any isIdentifierPart = false) :
    sigilVariable (word ++ rest) = .ok { kind, body := word } := by
  cases shape with
  | @ofInstance name named =>
    have whole : (name ++ rest).takeWhile isIdentifierPart = name :=
      takeWhile_append_of_ends (List.all_eq_true.mp named.parts) ends
    cases name with
    | nil => cases named.start
    | cons c tail =>
      have start : isIdentifierStart c = true := named.start
      have single : c ≠ '@' := ne_of_start start (by decide)
      rw [List.cons_append] at whole
      simp [sigilVariable, atSigns, single, start, whole]
  | @ofClass name named =>
    have whole : (name ++ rest).takeWhile isIdentifierPart = name :=
      takeWhile_append_of_ends (List.all_eq_true.mp named.parts) ends
    cases name with
    | nil => cases named.start
    | cons c tail =>
      have start : isIdentifierStart c = true := named.start
      rw [List.cons_append] at whole
      simp [sigilVariable, atSigns, start, whole]
  | ofGlobal some parts => exact sigilVariable_global (globalName_ordinary some parts ends) some
  | special member =>
    exact sigilVariable_global (globalName_special member ends) (List.cons_ne_nil _ _)

theorem isName_takeWhile {input : List Char} (start : input.head?.any isIdentifierStart = true) :
    IsName (input.takeWhile isIdentifierPart) := by
  refine ⟨?_, List.all_eq_true.mpr fun c => List.mem_takeWhile_imp⟩
  cases input with
  | nil => cases start
  | cons c rest =>
    have start : isIdentifierStart c = true := start
    rw [List.takeWhile_cons_of_pos (isIdentifierPart_of_start start)]
    exact start

theorem globalName_shape (input : List Char) : globalName input = [] ∨
    (globalName input).all isIdentifierPart = true ∨
      ∃ c, specialGlobals.contains c = true ∧ globalName input = [c] := by
  unfold globalName
  dsimp only
  split
  · cases input with
    | nil => exact .inl rfl
    | cons c rest =>
      by_cases special : specialGlobals.contains c = true
      · exact .inr (.inr ⟨c, special, by simpa using special⟩)
      · exact .inl (by simpa using special)
  · exact .inr (.inl (List.all_eq_true.mpr fun c => List.mem_takeWhile_imp))

/-- The name of a global variable that is read is one of identifier characters, or a special
one. -/
theorem globalVariable_eq_ok {kind : Token.Kind} {before input : List Char} {lexeme : Lexeme}
    (read : globalVariable kind before input = .ok lexeme) :
    lexeme = { kind, opening := before, body := '$' :: globalName input } ∧
      (globalName input ≠ [] ∧ (globalName input).all isIdentifierPart = true ∨
        ∃ c, specialGlobals.contains c = true ∧ globalName input = [c]) := by
  unfold globalVariable at read
  dsimp only at read
  split at read
  · cases read
  · rename_i some
    cases read
    refine ⟨rfl, ?_⟩
    obtain none | parts | special := globalName_shape input
    · rw [none] at some
      exact absurd rfl some
    · exact .inl ⟨by simpa using some, parts⟩
    · exact .inr special

/-- What is read behind a sigil is a variable. -/
theorem isVariable_of_sigilVariable {input : List Char} {lexeme : Lexeme}
    (read : sigilVariable input = .ok lexeme) :
    IsVariable lexeme.kind lexeme.text := by
  unfold sigilVariable at read
  split at read
  · obtain ⟨rfl, ⟨some, parts⟩ | ⟨c, special, same⟩⟩ := globalVariable_eq_ok read
    · exact .ofGlobal some parts
    · show IsVariable .globalVariable ('$' :: globalName (input.drop 1))
      rw [same]
      exact .special special
  · dsimp only at read
    split at read
    · rename_i start
      cases read
      have signs : atSigns input = ['@', '@'] ∨ atSigns input = ['@'] := by
        unfold atSigns
        split
        · exact .inl rfl
        · exact .inr rfl
      obtain double | single := signs
      · simp only [double] at start ⊢
        exact .ofClass (isName_takeWhile start)
      · simp only [single] at start ⊢
        exact .ofInstance (isName_takeWhile start)
    · cases read

/-- A variable begins with its sigil. -/
theorem IsVariable.sigil {kind : Token.Kind} (shape : IsVariable kind word) :
    ∃ c tail, word = c :: tail ∧ (c = '@' ∨ c = '$') := by
  cases shape with
  | ofInstance _ => exact ⟨_, _, rfl, .inl rfl⟩
  | ofClass _ => exact ⟨_, _, rfl, .inl rfl⟩
  | ofGlobal _ _ => exact ⟨_, _, rfl, .inr rfl⟩
  | special _ => exact ⟨_, _, rfl, .inr rfl⟩

/-- A variable is read as a whole wherever it stands. -/
theorem read_variable {kind : Token.Kind} (shape : IsVariable kind word)
    (ends : rest.head?.any isIdentifierPart = false) (context : Context) (offset : Nat)
    (pending : Option Pending) :
    read context offset pending (word ++ rest) = .ok ({ kind, body := word }, pending) := by
  have whole := sigilVariable_append shape ends
  obtain ⟨c, tail, rfl, sigil⟩ := shape.sigil
  have same : readFrom context c (c :: (tail ++ rest)) = sigilVariable (c :: (tail ++ rest)) := by
    rcases sigil with rfl | rfl
    · rfl
    · rfl
  have other : c ≠ '<' := by
    rcases sigil with rfl | rfl
    · decide
    · decide
  rw [List.cons_append] at whole ⊢
  rw [read_first other, same, whole]
  rfl

/-- A name that is neither a keyword nor that of a constant is an identifier. -/
theorem nameKind_identifier (noKeyword : Token.Keyword.ofSpelling? (String.ofList word) = none)
    (noConstant : word.head?.any isConstantStart = false) (context : Context) :
    nameKind context word = .identifier := by
  unfold nameKind
  rw [noKeyword, ite_self]
  exact if_neg (Bool.eq_false_iff.mp noConstant)

/-- A keyword is one, but behind a dot. -/
theorem nameKind_keyword (keyword : Token.Keyword) {context : Context}
    (noDot : context.isAfterDot = false) :
    nameKind context keyword.spelling.toList = .keyword keyword := by
  unfold nameKind
  rw [noDot, String.ofList_toList, if_neg Bool.false_ne_true, Token.Keyword.ofSpelling?_spelling]

def smallLetters : List Char := "abcdefghijklmnopqrstuvwxyz".toList

theorem smallLetters_facts :
    ∀ c ∈ smallLetters, isIdentifierStart c = true ∧ isConstantStart c = false :=
  List.all_iff_forall_prop.mp (by decide +kernel)

theorem isName_of_letters (letters : word ⊆ smallLetters) (nonempty : word ≠ []) : IsName word where
  start := by
    cases word with
    | nil => exact absurd rfl nonempty
    | cons c tail => exact (smallLetters_facts c (letters List.mem_cons_self)).1
  parts := List.all_eq_true.mpr fun c member =>
    isIdentifierPart_of_start (smallLetters_facts c (letters member)).1

/-- A word in small letters that is no keyword is an identifier. -/
theorem nameKind_word (letters : word ⊆ smallLetters)
    (noKeyword : Token.Keyword.ofSpelling? (String.ofList word) = none) (context : Context) :
    nameKind context word = .identifier := by
  refine nameKind_identifier noKeyword ?_ context
  cases word with
  | nil => rfl
  | cons c tail => exact (smallLetters_facts c (letters List.mem_cons_self)).2

end RubySyntax.Lexeme
