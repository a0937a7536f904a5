import Mathlib.Data.Nat.Digits.Defs
import RubySyntax.Number.Decimal
import RubySyntax.Proofs.Lexeme.Reading

namespace RubySyntax

open Text (isDigit isDigitOrSeparator)

namespace Number

/-- One digit or more. -/
def IsDigits (text : List Char) : Prop := text ≠ [] ∧ ∀ c ∈ text, isDigit c = true

/-- A point and digits. -/
def IsFraction (text : List Char) : Prop := ∃ digits, text = '.' :: digits ∧ IsDigits digits

/-- The letter of an exponent, a sign or none, and digits. -/
def IsExponent (text : List Char) : Prop :=
  ∃ letter sign digits, text = letter :: (sign ++ digits) ∧ (letter = 'e' ∨ letter = 'E') ∧
    (sign = [] ∨ sign = ['+'] ∨ sign = ['-']) ∧ IsDigits digits

/-- Digits, and behind them a fraction or none and an exponent or none. -/
def IsDecimal (text : List Char) : Prop :=
  ∃ whole fraction exponent, text = whole ++ (fraction ++ exponent) ∧ IsDigits whole ∧
    (fraction = [] ∨ IsFraction fraction) ∧ (exponent = [] ∨ IsExponent exponent)

variable {text digits exponent : List Char}

theorem withoutSeparators_append (front back : List Char) :
    withoutSeparators (front ++ back) = withoutSeparators front ++ withoutSeparators back :=
  List.filter_append _ _

theorem withoutSeparators_of_digits (all : ∀ c ∈ text, isDigit c = true) :
    withoutSeparators text = text := by
  refine List.filter_eq_self.mpr fun c member => bne_iff_ne.mpr ?_
  rintro rfl
  cases all _ member

/-- Digits may be set apart, but not so that none is left. -/
theorem isDigits_withoutSeparators (leads : text.head?.any isDigit = true)
    (all : ∀ c ∈ text, isDigitOrSeparator c = true) : IsDigits (withoutSeparators text) := by
  constructor
  · cases text with
    | nil => cases leads
    | cons c rest =>
      have digit : isDigit c = true := leads
      have kept : (c != '_') = true := by
        refine bne_iff_ne.mpr ?_
        rintro rfl
        cases digit
      simp [withoutSeparators, kept]
  · intro c member
    obtain ⟨within, kept⟩ := List.mem_filter.mp member
    have digit : isDigit c = true ∨ c = '_' := by simpa [isDigitOrSeparator] using all c within
    exact digit.resolve_right (bne_iff_ne.mp kept)

theorem IsDigits.all (digits : IsDigits text) : text.all isDigit = true :=
  List.all_eq_true.mpr digits.2

theorem IsDigits.isEmpty (digits : IsDigits text) : text.isEmpty = false :=
  List.isEmpty_eq_false_iff.mpr digits.1

theorem digitsFrom_eq (value : Nat) (digits : List Char) : digitsFrom value digits =
    Nat.ofDigits 10 (digits.reverse.map fun c => c.toNat - '0'.toNat) + 10 ^ digits.length * value := by
  induction digits generalizing value with
  | nil => exact (Nat.one_mul value).symm.trans (Nat.zero_add _).symm
  | cons c rest ih =>
    show digitsFrom (10 * value + (c.toNat - '0'.toNat)) rest = _
    rw [ih, List.reverse_cons, List.map_append, Nat.ofDigits_append, List.length_map,
      List.length_reverse, List.length_cons, List.map_singleton, Nat.ofDigits_singleton, pow_succ]
    ring

/-- Digits stand for their value in base ten, the last one lowest. -/
theorem ofDigits_eq (digits : List Char) :
    ofDigits digits = Nat.ofDigits 10 (digits.reverse.map fun c => c.toNat - '0'.toNat) := by
  rw [ofDigits, digitsFrom_eq, Nat.mul_zero, Nat.add_zero]

/-- The value of digits is found, or is too large. -/
theorem integerOf_of_isDigits (digits : IsDigits (withoutSeparators text)) :
    integerOf text = if ofDigits (withoutSeparators text) ≤ maxInteger then
      .ok (ofDigits (withoutSeparators text)) else .error .tooLarge := by
  simp only [integerOf, digits.isEmpty, digits.all, Bool.not_true, Bool.or_self, Bool.false_eq_true,
    if_false]

theorem Decimal.exponentOf?_isSome {sign : List Char} (signs : sign = [] ∨ sign = ['+'] ∨ sign = ['-'])
    (digits : IsDigits text) : (exponentOf? (sign ++ text)).isSome = true := by
  rcases signs with rfl | rfl | rfl
  · cases text with
    | nil => exact absurd rfl digits.1
    | cons c rest =>
      have digit : isDigit c = true := digits.2 c List.mem_cons_self
      have noMinus : c ≠ '-' := by
        rintro rfl
        simp [isDigit] at digit
      have noPlus : c ≠ '+' := by
        rintro rfl
        simp [isDigit] at digit
      simp [exponentOf?, noMinus, noPlus, digits.all]
  · simp [exponentOf?, digits.isEmpty, digits.all]
  · simp [exponentOf?, digits.isEmpty, digits.all]

theorem exponent_head (shape : exponent = [] ∨ IsExponent exponent) :
    exponent.head?.any isDigit = false ∧ exponent.head? ≠ some '.' := by
  obtain rfl | ⟨letter, sign, digits, rfl, rfl | rfl, _⟩ := shape
  · exact ⟨rfl, nofun⟩
  · exact ⟨rfl, by simp⟩
  · exact ⟨rfl, by simp⟩

theorem Decimal.isSome_of_exponent : (exponent = [] ∨ IsExponent exponent) →
    (match exponent with
      | [] => some 0
      | letter :: rest => if letter = 'e' || letter = 'E' then exponentOf? rest else none :
        Option Int).isSome = true := by
  intro shape
  obtain rfl | ⟨letter, sign, digits, rfl, letters, signs, all⟩ := shape
  · rfl
  · have named : (letter = 'e' || letter = 'E') = true := by simpa using letters
    simp only [named, if_true]
    exact exponentOf?_isSome signs all

/-- A decimal number has a value. -/
theorem Decimal.read?_isSome (decimal : IsDecimal text) : (read? text).isSome = true := by
  obtain ⟨whole, fraction, exponent, rfl, wholeDigits, fractionShape, exponentShape⟩ := decimal
  obtain ⟨noDigit, noPoint⟩ := exponent_head exponentShape
  have value := isSome_of_exponent exponentShape
  unfold read?
  obtain rfl | ⟨digits, rfl, all⟩ := fractionShape
  · have taken : (whole ++ exponent).takeWhile isDigit = whole :=
      Lexeme.takeWhile_append_of_ends wholeDigits.2 noDigit
    have other : (exponent.head? == some '.') = false := beq_false_of_ne noPoint
    rw [List.nil_append]
    simp only [taken, List.drop_left, other, wholeDigits.isEmpty, Bool.false_eq_true, if_false,
      Bool.false_and]
    rw [Option.isSome_map]
    exact value
  · have taken : (whole ++ '.' :: (digits ++ exponent)).takeWhile isDigit = whole :=
      Lexeme.takeWhile_append_of_ends wholeDigits.2 rfl
    have behind : (digits ++ exponent).takeWhile isDigit = digits :=
      Lexeme.takeWhile_append_of_ends all.2 noDigit
    rw [List.cons_append]
    simp only [taken, List.drop_left, List.head?_cons, List.drop_succ_cons, List.drop_zero, behind,
      wholeDigits.isEmpty, Bool.false_and, BEq.rfl, if_true, Bool.false_eq_true, if_false]
    rw [Option.isSome_map]
    exact value

theorem floatOf?_isSome (decimal : IsDecimal (withoutSeparators text)) :
    (floatOf? text).isSome = true := by
  rw [floatOf?, Option.isSome_map]
  exact Decimal.read?_isSome decimal

end Number

namespace Lexeme

open Number

variable {input : List Char}

theorem fraction_shape (input : List Char) :
    fraction input = [] ∨ IsFraction (withoutSeparators (fraction input)) := by
  unfold fraction
  split
  · rename_i rest
    split
    · rename_i leads
      refine .inr ⟨withoutSeparators (rest.takeWhile isDigitOrSeparator), rfl, ?_⟩
      refine isDigits_withoutSeparators ?_ fun c => List.mem_takeWhile_imp
      cases rest with
      | nil => cases leads
      | cons c rest =>
        have digit : isDigit c = true := leads
        simp [isDigitOrSeparator, digit]
    · exact .inl rfl
  · exact .inl rfl

theorem sign_cases (input : List Char) {sign : List Char}
    (same : sign = (input.take 1).filter fun c => c == '+' || c == '-') :
    sign = [] ∨ sign = ['+'] ∨ sign = ['-'] := by
  subst same
  cases input with
  | nil => exact .inl rfl
  | cons c rest =>
    by_cases plus : c = '+'
    · exact .inr (.inl (by simp [plus]))
    · by_cases minus : c = '-'
      · exact .inr (.inr (by simp [minus]))
      · exact .inl (by simp [plus, minus])

theorem exponent_shape (input : List Char) :
    exponent input = [] ∨ IsExponent (withoutSeparators (exponent input)) := by
  unfold exponent
  split
  · exact .inl rfl
  · rename_i letter rest
    split
    · rename_i letters
      let sign := (rest.take 1).filter fun c => c == '+' || c == '-'
      let digits := (rest.drop sign.length).takeWhile isDigit
      have signs : sign = [] ∨ sign = ['+'] ∨ sign = ['-'] := sign_cases rest rfl
      have all : ∀ c ∈ digits, isDigit c = true := fun c => List.mem_takeWhile_imp
      show (if digits.isEmpty then [] else letter :: sign ++ digits) = [] ∨
        IsExponent (withoutSeparators (if digits.isEmpty then [] else letter :: sign ++ digits))
      split
      · exact .inl rfl
      · rename_i some
        have named : letter = 'e' ∨ letter = 'E' := by simpa using letters
        have digitsShape : IsDigits digits := ⟨by simpa using some, all⟩
        refine .inr ⟨letter, sign, digits, ?_, named, signs, digitsShape⟩
        -- No character of an exponent is a separator.
        have letterKept : withoutSeparators [letter] = [letter] := by
          rcases named with rfl | rfl <;> rfl
        have signKept : withoutSeparators sign = sign := by
          rcases signs with same | same | same <;> rw [same] <;> rfl
        rw [withoutSeparators_append, withoutSeparators_of_digits all,
          ← List.singleton_append (l := sign), withoutSeparators_append, letterKept, signKept]
        rfl
    · exact .inl rfl

/-- The text of an integer literal is digits, that of any other number a decimal. -/
theorem number_shape (leads : input.head?.any isDigit = true) :
    ((number input).kind = .literal .integer → IsDigits (withoutSeparators (number input).text)) ∧
      IsDecimal (withoutSeparators (number input).text) := by
  let whole := input.takeWhile isDigitOrSeparator
  let rest := input.drop whole.length
  let behind := rest.drop (fraction rest).length
  have digits : IsDigits (withoutSeparators whole) := by
    refine isDigits_withoutSeparators ?_ fun c => List.mem_takeWhile_imp
    cases input with
    | nil => cases leads
    | cons c rest =>
      have digit : isDigit c = true := leads
      simp [whole, isDigitOrSeparator, digit]
  have text : (number input).text = whole ++ fraction rest ++ exponent behind := rfl
  constructor
  · intro integer
    have bare : (fraction rest).isEmpty && (exponent behind).isEmpty := by
      by_contra other
      have float : (number input).kind = .literal .float := by
        show Token.Kind.literal (if (fraction rest).isEmpty && (exponent behind).isEmpty
          then .integer else .float) = _
        rw [if_neg other]
      rw [float] at integer
      cases integer
    obtain ⟨noFraction, noExponent⟩ := Bool.and_eq_true_iff.mp bare
    rw [text, List.isEmpty_iff.mp noFraction, List.isEmpty_iff.mp noExponent, List.append_nil,
      List.append_nil]
    exact digits
  · refine ⟨_, withoutSeparators (fraction rest), withoutSeparators (exponent behind), ?_, digits,
      ?_, ?_⟩
    · rw [text, withoutSeparators_append, withoutSeparators_append, List.append_assoc]
    · refine (fraction_shape rest).imp (fun none => ?_) id
      rw [none]
      rfl
    · refine (exponent_shape behind).imp (fun none => ?_) id
      rw [none]
      rfl

variable {context : Context} {offset : Nat} {pending bodies : Option Pending} {lexeme : Lexeme}

theorem isDigits_of_read (found : read context offset pending input = .ok (lexeme, bodies))
    (integer : lexeme.kind = .literal .integer) : IsDigits (withoutSeparators lexeme.text) := by
  obtain ⟨leads, rfl⟩ := number_of_read found (.inl integer)
  exact (number_shape leads).1 integer

theorem isDecimal_of_read (found : read context offset pending input = .ok (lexeme, bodies))
    (float : lexeme.kind = .literal .float) : IsDecimal (withoutSeparators lexeme.text) := by
  obtain ⟨leads, rfl⟩ := number_of_read found (.inr float)
  exact (number_shape leads).2

end Lexeme

end RubySyntax
