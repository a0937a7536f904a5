/-! White space around a token. Several operators are read by it: a minus with
space before it and none behind is a sign. -/
namespace RubySyntax.Token

structure Spacing where
  /-- Blanks, or a continued line, directly before the token. -/
  blankBefore : Bool := false
  /-- A line break before the token that separates nothing. -/
  breakBefore : Bool := false
  /-- White space or the end of the input directly after the token. -/
  spaceAfter : Bool := false
deriving DecidableEq, Repr

namespace Spacing

def unspaced : Spacing := {}

/-- The three facts as bits, the first one lowest. -/
def bits (spacing : Spacing) : Nat :=
  spacing.blankBefore.toNat + 2 * spacing.breakBefore.toNat + 4 * spacing.spaceAfter.toNat

/-- Bits above the third say nothing. -/
def ofBits (bits : Nat) : Spacing := ⟨bits.testBit 0, bits.testBit 1, bits.testBit 2⟩

/-- Whether the token is set apart from what precedes it. -/
def isSpacedBefore (spacing : Spacing) : Bool := spacing.blankBefore || spacing.breakBefore

/-- Set apart from what precedes the token and glued to what follows. -/
def isPrefixPosition (spacing : Spacing) : Bool := spacing.isSpacedBefore && !spacing.spaceAfter

theorem ofBits_bits (spacing : Spacing) : ofBits spacing.bits = spacing := by
  obtain ⟨blank, lineBreak, after⟩ := spacing
  cases blank <;> cases lineBreak <;> cases after <;> decide

end Spacing

end RubySyntax.Token
