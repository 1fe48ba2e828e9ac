import ScriptLang.Numeric.Shortest
import ScriptLang.Proofs.Numeric.Decimal

/-!
# Floating-point numbers are read back

Rounding only depends on the value of a quotient, and a number is the rounding of
its own magnitude.  The text of a finite number without a sign is therefore read
back as that number, whether it is the shortest decimal or the exact one.
-/

namespace ScriptLang
namespace Numeric

/-- Rounding does not change when both parts of a quotient are multiplied. -/
theorem roundHalfEven_mul_mul
    {factor : Nat}
    (numerator denominator : Nat)
    (positive : 0 < factor) :
    roundHalfEven (numerator * factor) (denominator * factor) =
      roundHalfEven numerator denominator := by
  unfold roundHalfEven
  rw [Nat.mul_div_mul_right _ _ positive, Nat.mul_mod_mul_right, ← Nat.mul_assoc]
  have less : 2 * (numerator % denominator) * factor < denominator * factor ↔
      2 * (numerator % denominator) < denominator := Nat.mul_lt_mul_right positive
  have same : 2 * (numerator % denominator) * factor = denominator * factor ↔
      2 * (numerator % denominator) = denominator := Nat.mul_left_inj (by omega)
  simp only [less, same]

namespace Binary64

theorem powerOfTwo_pos (exponent : Nat) : 0 < powerOfTwo exponent :=
  Nat.pow_pos (by decide)

theorem powerOfTen_eq (exponent : Nat) :
    powerOfTen exponent = powerOfTwo exponent * Nat.pow 5 exponent :=
  Nat.mul_pow 2 5 exponent

/-- The number nearest to a quotient depends on the value of the quotient only. -/
theorem ofRatio_mul_mul
    {factor : Nat}
    (numerator denominator : Nat)
    (positive : 0 < factor) :
    ofRatio (numerator * factor) (denominator * factor) = ofRatio numerator denominator := by
  have scaled : numerator * factor * smallestUnits = numerator * smallestUnits * factor :=
    Nat.mul_right_comm _ _ _
  have widened : ∀ power, denominator * factor * power = denominator * power * factor :=
    Nat.mul_right_comm denominator factor
  unfold ofRatio
  dsimp only
  rw [scaled, Nat.mul_div_mul_right _ _ positive, widened,
    roundHalfEven_mul_mul _ _ positive]

/-- Decimals of the same value are rounded to the same number. -/
theorem ofDecimal_of_same
    {first second : Decimal}
    (same : first.Same second) :
    ofDecimal first = ofDecimal second := by
  unfold Decimal.Same at same
  unfold ofDecimal
  rw [← ofRatio_mul_mul first.units _ (powerOfTen_pos second.places), same,
    Nat.mul_comm (powerOfTen first.places), ofRatio_mul_mul _ _ (powerOfTen_pos first.places)]

/-- A number below infinity without a sign. -/
def IsMagnitude (number : Binary64) : Prop := number.bits.toNat < infinityBits

section

variable {number : Binary64}

theorem infinityBits_lt_magnitudeCount : infinityBits < magnitudeCount := by decide

theorem magnitudeBits_of_isMagnitude
    (isMagnitude : number.IsMagnitude) :
    number.magnitudeBits = number.bits.toNat :=
  Nat.mod_eq_of_lt (Nat.lt_trans isMagnitude infinityBits_lt_magnitudeCount)

theorem magnitude_of_isMagnitude
    (isMagnitude : number.IsMagnitude) :
    number.magnitude = number := by
  unfold magnitude
  rw [magnitudeBits_of_isMagnitude isMagnitude, UInt64.ofNat_toNat]

/-- The units of a number have as many bits as its exponent says, and rounding them to the bits
of a fraction gives the pattern back. -/
theorem pattern_of_magnitudeUnits (number : Binary64) :
    let exponent := number.magnitudeUnits.log2 - 52
    exponent * fractionCount + roundHalfEven number.magnitudeUnits (powerOfTwo exponent) =
      number.magnitudeBits := by
  intro exponent
  let field := number.magnitudeBits / fractionCount
  let fraction := number.magnitudeBits % fractionCount
  have cut : field * fractionCount + fraction = number.magnitudeBits :=
    Nat.div_add_mod' _ _
  have fractionSmall : fraction < 2 ^ 52 := Nat.mod_lt _ (powerOfTwo_pos 52)
  have unitsAre : number.magnitudeUnits =
      if field = 0 then fraction else (fractionCount + fraction) * powerOfTwo (field - 1) := rfl
  by_cases isSmallest : field = 0
  · rw [if_pos isSmallest] at unitsAre
    have fewBits : fraction.log2 - 52 = 0 := by
      rcases Nat.eq_zero_or_pos fraction with isZero | isPositive
      · rw [isZero]
        rfl
      · have logarithm := (Nat.log2_lt (Nat.ne_of_gt isPositive)).mpr fractionSmall
        omega
    have noExponent : exponent = 0 := by rw [← fewBits, ← unitsAre]
    have exact := roundHalfEven_mul fraction Nat.one_pos
    rw [Nat.mul_one] at exact
    rw [noExponent, unitsAre, ← cut, isSmallest]
    exact congrArg _ exact
  · rw [if_neg isSmallest] at unitsAre
    have leading : fractionCount = 2 ^ 52 := rfl
    have power : powerOfTwo (field - 1) = 2 ^ (field - 1) := rfl
    have positive := powerOfTwo_pos (field - 1)
    have nonzero : number.magnitudeUnits ≠ 0 := by
      rw [unitsAre]
      exact Nat.mul_ne_zero (by omega) (Nat.ne_of_gt positive)
    have logarithm : number.magnitudeUnits.log2 = 52 + (field - 1) := by
      apply (Nat.log2_eq_iff nonzero).mpr
      rw [unitsAre, Nat.add_right_comm, Nat.pow_add, Nat.pow_add, power]
      constructor
      · exact Nat.mul_le_mul_right _ (by omega)
      · exact Nat.mul_lt_mul_of_pos_right (by omega) (by rw [← power]; exact positive)
    have exponentIs : exponent = field - 1 := by
      unfold exponent
      omega
    have rounded := roundHalfEven_mul (fractionCount + fraction) positive
    rw [exponentIs, unitsAre, rounded, ← cut]
    obtain ⟨lower, fieldIs⟩ := Nat.exists_eq_succ_of_ne_zero isSmallest
    rw [fieldIs, Nat.succ_sub_one, Nat.succ_mul, Nat.add_assoc]

/-- A number is what its units are rounded to. -/
theorem ofRatio_magnitudeUnits
    (isMagnitude : number.IsMagnitude) :
    ofRatio number.magnitudeUnits smallestUnits = number := by
  have positive : 0 < smallestUnits := powerOfTwo_pos 1074
  have scaled : number.magnitudeUnits * smallestUnits / smallestUnits = number.magnitudeUnits :=
    Nat.mul_div_cancel _ positive
  have rounded : ∀ power, roundHalfEven (number.magnitudeUnits * smallestUnits)
      (smallestUnits * power) = roundHalfEven number.magnitudeUnits power := by
    intro power
    rw [Nat.mul_comm smallestUnits]
    exact roundHalfEven_mul_mul _ _ positive
  have pattern := pattern_of_magnitudeUnits number
  dsimp only at pattern
  unfold ofRatio
  dsimp only
  rw [scaled, rounded, pattern, magnitudeBits_of_isMagnitude isMagnitude,
    Nat.min_eq_left (Nat.le_of_lt isMagnitude), UInt64.ofNat_toNat]

/-- The exact decimal of a number is rounded to that number. -/
theorem ofDecimal_exactDecimal
    (isMagnitude : number.IsMagnitude) :
    ofDecimal number.exactDecimal = number := by
  have scaled : ∀ exponent, ofRatio (number.magnitudeUnits * Nat.pow 5 exponent)
      (powerOfTen exponent) = ofRatio number.magnitudeUnits (powerOfTwo exponent) := by
    intro exponent
    rw [powerOfTen_eq]
    exact ofRatio_mul_mul _ _ (Nat.pow_pos (by decide))
  exact (scaled 1074).trans (ofRatio_magnitudeUnits isMagnitude)

/-- A neighbour is only taken when it is rounded to the number. -/
theorem ofDecimal_of_nearestNeighbour?
    {exact decimal : Decimal} {dropped : Nat}
    (nearest : nearestNeighbour? number exact dropped = some decimal) :
    ofDecimal decimal = number := by
  unfold nearestNeighbour? at nearest
  dsimp only at nearest
  split at nearest
  · next belowTaken =>
      cases nearest
      exact of_decide_eq_true (Bool.and_eq_true_iff.mp belowTaken).1
  · split at nearest
    · next aboveHits =>
        cases nearest
        exact of_decide_eq_true aboveHits
    · cases nearest

/-- The shortest decimal of a number is rounded to that number. -/
theorem ofDecimal_shortestDecimal
    (isMagnitude : number.IsMagnitude) :
    ofDecimal number.shortestDecimal = number := by
  unfold shortestDecimal
  dsimp only
  rw [magnitude_of_isMagnitude isMagnitude]
  cases candidate : (List.range greatestPrecision).findSome? fun index =>
      nearestNeighbour? number number.exactDecimal
        ((digitsOf number.exactDecimal.units).length - (index + 1)) with
  | none => exact ofDecimal_exactDecimal isMagnitude
  | some decimal =>
      obtain ⟨index, _, nearest⟩ := List.exists_of_findSome?_eq_some candidate
      exact ofDecimal_of_nearestNeighbour? nearest

/-- A number without a sign is written as its shortest decimal. -/
theorem toText_of_isMagnitude
    (isMagnitude : number.IsMagnitude) :
    number.toText = number.shortestDecimal.toText := by
  have bits := magnitudeBits_of_isMagnitude isMagnitude
  have isNumber : number.isNaN = false := by
    apply decide_eq_false
    rw [bits]
    exact Nat.not_lt_of_lt isMagnitude
  have notNegative : number.isNegative = false :=
    decide_eq_false (Nat.not_le.mpr (Nat.lt_trans isMagnitude infinityBits_lt_magnitudeCount))
  have isFinite : number.isFinite = true := by
    apply decide_eq_true
    rw [bits]
    exact isMagnitude
  unfold toText
  rw [isNumber, notNegative, isFinite]
  exact String.empty_append

/-- The text of a number without a sign is read back as that number. -/
theorem exists_read?_toText
    (isMagnitude : number.IsMagnitude) :
    ∃ decimal, Decimal.read? number.toText.toList = some decimal ∧
      ofDecimal decimal = number := by
  obtain ⟨decimal, read, same⟩ := number.shortestDecimal.exists_read?_toText
  rw [toText_of_isMagnitude isMagnitude]
  refine ⟨decimal, read, ?_⟩
  rw [ofDecimal_of_same same]
  exact ofDecimal_shortestDecimal isMagnitude

end

/-- A decimal is rounded to a number without a sign, which may be infinite. -/
theorem isMagnitude_of_isFinite
    {decimal : Decimal}
    (isFinite : (ofDecimal decimal).isFinite = true) :
    (ofDecimal decimal).IsMagnitude := by
  have noGreater : (ofDecimal decimal).bits.toNat ≤ infinityBits := by
    unfold ofDecimal ofRatio
    dsimp only
    rw [UInt64.toNat_ofNat']
    exact Nat.le_trans (Nat.mod_le _ _) (Nat.min_le_right _ _)
  have below : (ofDecimal decimal).magnitudeBits < infinityBits := of_decide_eq_true isFinite
  unfold magnitudeBits at below
  rw [Nat.mod_eq_of_lt (Nat.lt_of_le_of_lt noGreater infinityBits_lt_magnitudeCount)] at below
  exact below

end Binary64
end Numeric
end ScriptLang
