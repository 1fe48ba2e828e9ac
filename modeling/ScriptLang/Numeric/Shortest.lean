import ScriptLang.Numeric.Binary64

/-!
# Shortest decimals

The text of a floating-point number is the decimal with the fewest significant
digits that reads back as that number.  Of two such decimals the nearer one is
taken, and the greater one when both are equally near.
-/

namespace ScriptLang
namespace Numeric
namespace Binary64

/-- The exact magnitude of a finite number.  The smallest positive number is
`5 ^ 1074 / 10 ^ 1074`, so `1074` places hold every multiple of it. -/
def exactDecimal (number : Binary64) : Decimal :=
  ⟨number.magnitudeUnits * Nat.pow 5 1074, 1074⟩

/-- The magnitude without its sign. -/
def magnitude (number : Binary64) : Binary64 :=
  ⟨UInt64.ofNat number.magnitudeBits⟩

/-- The decimals on either side of an exact one whose last `dropped` digits are zero. -/
def neighbours (exact : Decimal) (dropped : Nat) : Decimal × Decimal :=
  let unit := powerOfTen dropped
  let below := exact.units / unit * unit
  (⟨below, exact.places⟩, ⟨below + unit, exact.places⟩)

/-- The nearer of the two neighbours that reads back as the number, if one does. -/
def nearestNeighbour? (number : Binary64) (exact : Decimal) (dropped : Nat) :
    Option Decimal :=
  let (below, above) := neighbours exact dropped
  let belowHits := decide (ofDecimal below = number)
  let aboveHits := decide (ofDecimal above = number)
  let belowNearer := decide (exact.units - below.units < above.units - exact.units)
  if belowHits && (belowNearer || !aboveHits) then some below
  else if aboveHits then some above
  else none

/-- The most significant digits that a number can need. -/
def greatestPrecision : Nat := 17

/-- The shortest decimal of the magnitude of a finite number. -/
def shortestDecimal (number : Binary64) : Decimal :=
  let exact := number.exactDecimal
  let length := (digitsOf exact.units).length
  let candidate? := (List.range greatestPrecision).findSome? fun index =>
    nearestNeighbour? number.magnitude exact (length - (index + 1))
  candidate?.getD exact

/-- The text of a number: positional, and never without a point. -/
def toText (number : Binary64) : String :=
  if number.isNaN then "NaN.0"
  else
    let sign := if number.isNegative then "-" else ""
    if number.isFinite then sign ++ number.shortestDecimal.toText
    else sign ++ "inf.0"

end Binary64
end Numeric
end ScriptLang
