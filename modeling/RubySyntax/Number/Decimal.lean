import RubySyntax.Number.Binary64
import RubySyntax.Text.CharClass

namespace RubySyntax.Number

open Text (isDigit)

/-- The value of decimal digits, the first one heaviest, after `value`. -/
def digitsFrom (value : Nat) : List Char → Nat
  | [] => value
  | c :: rest => digitsFrom (10 * value + (c.toNat - '0'.toNat)) rest

def ofDigits (digits : List Char) : Nat := digitsFrom 0 digits

def withoutSeparators (literal : List Char) : List Char := literal.filter fun c => c != '_'

def maxInteger : Nat := 0x7fffffffffffffff

/-- Why a literal stands for no integer. -/
inductive IntegerFault
  | tooLarge
  | malformed
deriving DecidableEq, Repr

def integerOf (literal : List Char) : Except IntegerFault Nat :=
  let digits := withoutSeparators literal
  if digits.isEmpty || !digits.all isDigit then .error .malformed
  else if ofDigits digits ≤ maxInteger then .ok (ofDigits digits)
  else .error .tooLarge

/-- A decimal number `coefficient · 10 ^ exponent` whose coefficient was written
with `width` digits. -/
structure Decimal where
  coefficient : Nat
  width : Nat
  exponent : Int
deriving DecidableEq, Repr

namespace Decimal

/-- The digits behind the letter of an exponent, with their sign. -/
def exponentOf? (text : List Char) : Option Int :=
  let (negative, digits) : Bool × List Char :=
    match text with
    | '-' :: digits => (true, digits)
    | '+' :: digits => (false, digits)
    | digits => (false, digits)
  if digits.isEmpty || !digits.all isDigit then none
  else some (if negative then -(ofDigits digits : Int) else ofDigits digits)

/-- Reads digits, a fraction behind a point, and an exponent behind its letter. -/
def read? (text : List Char) : Option Decimal :=
  let whole := text.takeWhile isDigit
  let rest := text.drop whole.length
  let fraction := if rest.head? == some '.' then (rest.drop 1).takeWhile isDigit else []
  let rest := if rest.head? == some '.' then rest.drop (fraction.length + 1) else rest
  let exponent :=
    match rest with
    | [] => some 0
    | letter :: rest => if letter = 'e' || letter = 'E' then exponentOf? rest else none
  if whole.isEmpty && fraction.isEmpty then none
  else
    exponent.map fun exponent =>
      { coefficient := ofDigits (whole ++ fraction)
        width := (whole ++ fraction).length
        exponent := exponent - fraction.length }

def tenPow (exponent : Nat) : Nat := Nat.pow 10 exponent

/-- The nearest binary value. Beyond the range of the format the answer is known
without computing the power of ten. -/
def toBinary64 (decimal : Decimal) : Binary64 :=
  if decimal.coefficient = 0 || decimal.width + decimal.exponent < -330 then .ofRatio 0 1
  else if decimal.exponent > 310 then .ofRatio (tenPow 310) 1
  else
    match decimal.exponent with
    | .ofNat up => .ofRatio (decimal.coefficient * tenPow up) 1
    | .negSucc down => .ofRatio decimal.coefficient (tenPow (down + 1))

end Decimal

def floatOf? (literal : List Char) : Option Binary64 :=
  (Decimal.read? (withoutSeparators literal)).map Decimal.toBinary64

end RubySyntax.Number
