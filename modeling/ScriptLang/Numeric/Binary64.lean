import ScriptLang.Numeric.Decimal

/-!
# Binary floating point

Floating-point numbers of 64 bits, kept as their bit pattern: a sign, eleven
bits of exponent and fifty-two bits of fraction.  Equality is equality of
patterns, so the two zeros differ and every not-a-number equals itself.

`ofRatio` rounds a quotient to the nearest finite number, a half going to the
even neighbour, and goes to infinity beyond the greatest finite number.
-/

namespace ScriptLang
namespace Numeric

/-- A floating-point number of 64 bits. -/
structure Binary64 where
  /-- The bit pattern. -/
  bits : UInt64
  deriving DecidableEq, Repr, Inhabited

/-- The natural number nearest to a quotient, a half going to the even neighbour. -/
def roundHalfEven (numerator denominator : Nat) : Nat :=
  let quotient := numerator / denominator
  let twice := 2 * (numerator % denominator)
  if twice < denominator ∨ (twice = denominator ∧ quotient % 2 = 0) then quotient
  else quotient + 1

/-- A quotient without a remainder stays as it is. -/
theorem roundHalfEven_mul
    (value : Nat) {denominator : Nat}
    (positive : 0 < denominator) :
    roundHalfEven (value * denominator) denominator = value := by
  simp [roundHalfEven, Nat.mul_div_cancel _ positive, positive]

namespace Binary64

/-- A power of two. -/
def powerOfTwo (exponent : Nat) : Nat := Nat.pow 2 exponent

/-- The number of different fractions. -/
def fractionCount : Nat := powerOfTwo 52

/-- The number of patterns without the sign, which is the value of the sign bit. -/
def magnitudeCount : Nat := powerOfTwo 63

/-- The exponent field of infinities and of what is not a number. -/
def greatestExponent : Nat := 2047

/-- The bit pattern of infinity, which follows that of the greatest finite number. -/
def infinityBits : Nat := greatestExponent * fractionCount

/-- The smallest positive number is one over this. -/
def smallestUnits : Nat := powerOfTwo 1074

/-- Whether the sign bit is set. -/
def isNegative (number : Binary64) : Bool :=
  decide (magnitudeCount ≤ number.bits.toNat)

/-- The bit pattern without the sign. -/
def magnitudeBits (number : Binary64) : Nat :=
  number.bits.toNat % magnitudeCount

/-- Whether a number is neither infinite nor not a number. -/
def isFinite (number : Binary64) : Bool :=
  decide (number.magnitudeBits < infinityBits)

/-- Whether a pattern is not a number. -/
def isNaN (number : Binary64) : Bool :=
  decide (infinityBits < number.magnitudeBits)

/-- The magnitude of a finite number as a multiple of the smallest positive number.

Patterns with exponent field zero count the smallest numbers themselves; beyond
them each step of the exponent field doubles the distance of neighbours. -/
def magnitudeUnits (number : Binary64) : Nat :=
  let exponent := number.magnitudeBits / fractionCount
  let fraction := number.magnitudeBits % fractionCount
  if exponent = 0 then fraction
  else (fractionCount + fraction) * powerOfTwo (exponent - 1)

/-- The number nearest to a quotient of natural numbers.

Counted in smallest numbers, the quotient has fifty-three significant bits from
the place of its leading bit on; what lies below them is rounded.  A carry out
of the fraction runs into the exponent, which is the number that follows. -/
def ofRatio (numerator denominator : Nat) : Binary64 :=
  let scaled := numerator * smallestUnits
  let exponent := (scaled / denominator).log2 - 52
  let significand := roundHalfEven scaled (denominator * powerOfTwo exponent)
  let pattern := exponent * fractionCount + significand
  ⟨UInt64.ofNat (min pattern infinityBits)⟩

/-- The number nearest to a decimal. -/
def ofDecimal (number : Decimal) : Binary64 :=
  ofRatio number.units (powerOfTen number.places)

end Binary64
end Numeric
end ScriptLang
