namespace RubySyntax.Number

/-- The nearest whole number to a quotient; a tie goes to the even one. -/
def roundDiv (num den : Nat) : Nat :=
  let quotient := num / den
  let twice := 2 * (num % den)
  if twice < den then quotient
  else if twice = den ∧ quotient % 2 = 0 then quotient
  else quotient + 1

/-- A value of the format that is not negative, by its bits. -/
structure Binary64 where
  bits : UInt64
deriving DecidableEq, Repr

namespace Binary64

/-- The least significand of 53 bits. -/
def leadingBit : Nat := 1 <<< 52

/-- The bits of infinity; those of every finite value are below. -/
def infinityBits : Nat := 0x7ff * leadingBit

/-- The quotient times a power of two, as a quotient. -/
def scale (num den : Nat) : Int → Nat × Nat
  | .ofNat up => (num <<< up, den)
  | .negSucc down => (num, den <<< (down + 1))

/-- The exponent of the last place of a quotient with 53 significant bits, or of
the last place of the smallest values. -/
def lastPlace (num den : Nat) : Int :=
  let guess : Int := (num.log2 : Int) - (den.log2 : Int) - 52
  let (n, d) := scale num den (-guess)
  max (if n / d < leadingBit then guess - 1 else guess) (-1074)

/-- The value nearest to a quotient. A significand rounded up to the next power
of two carries into the exponent, up to infinity. -/
def ofRatio (num den : Nat) : Binary64 :=
  if num = 0 then ⟨0⟩
  else
    let place := lastPlace num den
    let (n, d) := scale num den (-place)
    ⟨.ofNat (min ((place + 1074).toNat * leadingBit + roundDiv n d) infinityBits)⟩

/-- A finite value as an exact quotient. -/
def toRatio (value : Binary64) : Nat × Nat :=
  let exponent : Nat := value.bits.toNat / leadingBit
  let fraction : Nat := value.bits.toNat % leadingBit
  if exponent = 0 then scale fraction 1 (-1074)
  else scale (leadingBit + fraction) 1 ((exponent : Int) - 1075)

/-- A finite value times a whole number, rounded to the nearest value. -/
def mulNat (value : Binary64) (factor : Nat) : Binary64 :=
  let (num, den) := value.toRatio
  ofRatio (num * factor) den

/-- Sixteen lower case hexadecimal digits. -/
def hex (value : Binary64) : String :=
  let digits := Nat.toDigits 16 value.bits.toNat
  String.ofList (List.replicate (16 - digits.length) '0' ++ digits)

/-- A finite value with two decimal places, the exact value rounded. -/
def toHundredths (value : Binary64) : String :=
  let (num, den) := value.toRatio
  let hundredths := roundDiv (num * 100) den
  let digits := toString (hundredths % 100)
  s!"{hundredths / 100}." ++ (if hundredths % 100 < 10 then "0" else "") ++ digits

end Binary64

end RubySyntax.Number
