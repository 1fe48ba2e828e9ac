import Mathlib.Algebra.Order.Field.Rat
import Mathlib.Data.Rat.Cast.Order
import Mathlib.Order.Monotone.Basic
import Mathlib.Tactic.FieldSimp
import Mathlib.Tactic.Linarith
import Mathlib.Tactic.Positivity
import Mathlib.Tactic.Ring
import ScriptLang.Proofs.Numeric.Binary64

/-!
# Decimals are rounded to the nearest number

Among all finite floating-point numbers without a sign, the one that a decimal is
rounded to lies nearest to it, and of two that lie equally near it is the one with
an even pattern.  There is no other such number.  A decimal is too great for it from
the middle between the greatest finite number and the power of two behind it on.
-/

namespace ScriptLang
namespace Numeric

/-- The rational number that a decimal stands for. -/
def Decimal.value (number : Decimal) : ℚ := number.units / 10 ^ number.places

/-! ## Rounding a quotient -/

section

variable {denominator : Nat}

/-- A rounded quotient is off by at most a half, and by a half only if it is even. -/
theorem abs_roundHalfEven_sub_le
    (numerator : Nat)
    (positive : 0 < denominator) :
    |(roundHalfEven numerator denominator : ℚ) - numerator / denominator| ≤ 1 / 2 ∧
      (|(roundHalfEven numerator denominator : ℚ) - numerator / denominator| = 1 / 2 ->
        roundHalfEven numerator denominator % 2 = 0) := by
  let quotient := numerator / denominator
  let remainder := numerator % denominator
  have nonzero : (denominator : ℚ) ≠ 0 := by positivity
  have cut : (numerator : ℚ) / denominator = quotient + (remainder : ℚ) / denominator := by
    have whole : (denominator : ℚ) * quotient + remainder = numerator := by
      exact_mod_cast Nat.div_add_mod numerator denominator
    rw [← whole]
    field_simp
  have fraction : (remainder : ℚ) / denominator < 1 := by
    rw [div_lt_one (by positivity)]
    exact_mod_cast Nat.mod_lt numerator positive
  have nonnegative : 0 ≤ (remainder : ℚ) / denominator := by positivity
  have half : (remainder : ℚ) / denominator < 1 / 2 ↔ 2 * remainder < denominator := by
    rw [div_lt_div_iff₀ (by positivity) (by norm_num), one_mul, mul_comm]
    exact_mod_cast Iff.rfl
  have exactHalf : (remainder : ℚ) / denominator = 1 / 2 ↔ 2 * remainder = denominator := by
    rw [div_eq_div_iff nonzero (by norm_num), one_mul, mul_comm]
    exact_mod_cast Iff.rfl
  rw [cut]
  unfold roundHalfEven
  dsimp only
  split
  · next isBelow =>
      rw [sub_add_cancel_left, abs_neg, abs_of_nonneg nonnegative]
      rcases isBelow with less | ⟨same, isEven⟩
      · have below := half.mpr less
        exact ⟨le_of_lt below, fun atHalf => absurd atHalf (ne_of_lt below)⟩
      · exact ⟨le_of_eq (exactHalf.mpr same), fun _ => isEven⟩
  · next notBelow =>
      rw [not_or, not_lt, not_and] at notBelow
      obtain ⟨atLeast, odd⟩ := notBelow
      have above : 1 / 2 ≤ (remainder : ℚ) / denominator :=
        not_lt.mp fun less => absurd (half.mp less) (Nat.not_lt_of_le atLeast)
      have error : |((quotient + 1 : Nat) : ℚ) - (quotient + (remainder : ℚ) / denominator)| =
          1 - (remainder : ℚ) / denominator := by
        push_cast
        rw [abs_of_nonneg] <;> linarith
      rw [error]
      refine ⟨by linarith, fun atHalf => ?_⟩
      have isHalf : (remainder : ℚ) / denominator = 1 / 2 := by linarith
      have isOdd : quotient % 2 ≠ 0 := odd (exactHalf.mp isHalf)
      omega

/-- No whole number is nearer to a quotient than the one that it is rounded to, and another one
that is as near leaves it even. -/
theorem abs_roundHalfEven_sub_le_abs_sub
    (numerator other : Nat)
    (positive : 0 < denominator) :
    |(roundHalfEven numerator denominator : ℚ) - numerator / denominator| ≤
        |(other : ℚ) - numerator / denominator| ∧
      (other ≠ roundHalfEven numerator denominator ->
        |(other : ℚ) - numerator / denominator| =
          |(roundHalfEven numerator denominator : ℚ) - numerator / denominator| ->
        roundHalfEven numerator denominator % 2 = 0) := by
  obtain ⟨close, even⟩ := abs_roundHalfEven_sub_le numerator positive
  generalize roundHalfEven numerator denominator = rounded at close even ⊢
  generalize (numerator : ℚ) / denominator = exact at close even ⊢
  by_cases same : other = rounded
  · rw [same]
    exact ⟨le_refl _, fun differs => absurd rfl differs⟩
  · have apart : (1 : ℚ) ≤ |(other : ℚ) - rounded| := by
      have integral : 1 ≤ |(other : ℤ) - rounded| := by
        have := abs_pos.mpr (sub_ne_zero.mpr (Int.natCast_inj.not.mpr same))
        omega
      exact_mod_cast integral
    have triangle := abs_sub_le (other : ℚ) exact rounded
    rw [abs_sub_comm exact] at triangle
    refine ⟨by linarith, fun _ tie => even ?_⟩
    linarith

end

namespace Binary64

/-! ## Patterns -/

/-- The number of smallest numbers that a pattern without a sign stands for. -/
def unitsOf (pattern : Nat) : Nat :=
  if pattern / fractionCount = 0 then pattern % fractionCount
  else (fractionCount + pattern % fractionCount) * powerOfTwo (pattern / fractionCount - 1)

theorem fractionCount_pos : 0 < fractionCount := powerOfTwo_pos 52

theorem powerOfTwo_add (first second : Nat) :
    powerOfTwo (first + second) = powerOfTwo first * powerOfTwo second :=
  Nat.pow_add 2 first second

theorem powerOfTwo_succ (exponent : Nat) : powerOfTwo (exponent + 1) = powerOfTwo exponent * 2 :=
  Nat.pow_succ 2 exponent

/-- A significand behind an exponent counts powers of two.  If it is as great as a carry makes it,
the next exponent counts the same. -/
theorem unitsOf_add
    {exponent significand : Nat}
    (inRange : significand ≤ 2 * fractionCount)
    (leads : exponent = 0 ∨ fractionCount ≤ significand) :
    unitsOf (exponent * fractionCount + significand) = significand * powerOfTwo exponent := by
  have positive := fractionCount_pos
  rcases Nat.lt_or_ge significand fractionCount with isLow | isHigh
  · obtain rfl := leads.resolve_right (Nat.not_le_of_lt isLow)
    rw [Nat.zero_mul, Nat.zero_add, unitsOf, Nat.div_eq_of_lt isLow, if_pos rfl,
      Nat.mod_eq_of_lt isLow]
    exact (Nat.mul_one _).symm
  · obtain ⟨fraction, rfl⟩ := Nat.exists_eq_add_of_le isHigh
    have shifted : exponent * fractionCount + (fractionCount + fraction) =
        fraction + (exponent + 1) * fractionCount := by ring
    have field : (fraction + (exponent + 1) * fractionCount) / fractionCount =
        fraction / fractionCount + exponent + 1 := Nat.add_mul_div_right _ _ positive
    have rest : (fraction + (exponent + 1) * fractionCount) % fractionCount =
        fraction % fractionCount := Nat.add_mul_mod_self_right _ _ _
    rw [shifted, unitsOf, field, rest, if_neg (Nat.succ_ne_zero _), Nat.add_sub_cancel]
    rcases Nat.lt_or_ge fraction fractionCount with noCarry | isCarry
    · rw [Nat.div_eq_of_lt noCarry, Nat.mod_eq_of_lt noCarry, Nat.zero_add]
    · obtain rfl : fraction = fractionCount := by omega
      rw [Nat.div_self positive, Nat.mod_self, Nat.add_comm 1, powerOfTwo_succ]
      ring

/-- Every pattern is a significand behind an exponent. -/
theorem exists_eq_mul_add (pattern : Nat) :
    ∃ exponent significand, pattern = exponent * fractionCount + significand ∧
      significand < 2 * fractionCount ∧ (exponent = 0 ∨ fractionCount ≤ significand) := by
  have cut := Nat.div_add_mod' pattern fractionCount
  have small := Nat.mod_lt pattern fractionCount_pos
  cases field : pattern / fractionCount with
  | zero =>
      rw [field] at cut
      exact ⟨0, pattern % fractionCount, cut.symm, by omega, .inl rfl⟩
  | succ exponent =>
      rw [field, Nat.succ_mul] at cut
      exact ⟨exponent, fractionCount + pattern % fractionCount, by omega, by omega, .inr (by omega)⟩

/-- The next pattern stands for a greater number. -/
theorem strictMono_unitsOf : StrictMono unitsOf := by
  apply strictMono_nat_of_lt_succ
  intro pattern
  obtain ⟨exponent, significand, rfl, inRange, leads⟩ := exists_eq_mul_add pattern
  have next : unitsOf (exponent * fractionCount + (significand + 1)) =
      (significand + 1) * powerOfTwo exponent :=
    unitsOf_add inRange (leads.imp_right fun high => Nat.le_succ_of_le high)
  rw [Nat.add_assoc, next, unitsOf_add (Nat.le_of_lt inRange) leads]
  exact Nat.mul_lt_mul_of_pos_right (Nat.lt_succ_self _) (powerOfTwo_pos exponent)

/-! ## Nearest patterns -/

/-- No pattern stands for a number nearer to an exact one, and another pattern that is as near
leaves it even.  There is no greatest pattern here. -/
structure Nearest (exact : ℚ) (pattern : Nat) : Prop where
  closest : ∀ other, |(unitsOf pattern : ℚ) - exact| ≤ |(unitsOf other : ℚ) - exact|
  even : ∀ other, other ≠ pattern ->
    |(unitsOf other : ℚ) - exact| = |(unitsOf pattern : ℚ) - exact| -> pattern % 2 = 0

section

variable {numerator denominator : Nat}

/-- The exponent that leaves fifty-three bits in front of the point of a quotient. -/
def exponentOf (numerator denominator : Nat) : Nat := (numerator / denominator).log2 - 52

/-- The significant bits of a quotient. -/
def significandOf (numerator denominator : Nat) : Nat :=
  roundHalfEven numerator (denominator * powerOfTwo (exponentOf numerator denominator))

theorem ofRatio_eq (numerator denominator : Nat) :
    let scaled := numerator * smallestUnits
    ofRatio numerator denominator =
      ⟨UInt64.ofNat (min
        (exponentOf scaled denominator * fractionCount + significandOf scaled denominator)
        infinityBits)⟩ := rfl

variable (positive : 0 < denominator)

include positive

/-- A quotient has as many bits as its exponent says. -/
theorem exponentOf_bounds (numerator : Nat) :
    let exponent := exponentOf numerator denominator
    numerator < 2 * fractionCount * (denominator * powerOfTwo exponent) ∧
      (exponent = 0 ∨ fractionCount * (denominator * powerOfTwo exponent) ≤ numerator) := by
  intro exponent
  have isExponent : exponent = (numerator / denominator).log2 - 52 := rfl
  have wide : 2 * fractionCount * powerOfTwo exponent = 2 ^ (53 + exponent) :=
    (Nat.pow_add 2 53 exponent).symm
  have narrow : fractionCount * powerOfTwo exponent = 2 ^ (52 + exponent) :=
    (Nat.pow_add 2 52 exponent).symm
  constructor
  · have below : numerator / denominator < 2 ^ (53 + exponent) :=
      lt_of_lt_of_le Nat.lt_log2_self (Nat.pow_le_pow_right (by decide) (by omega))
    rw [Nat.div_lt_iff_lt_mul positive, ← wide] at below
    calc numerator
      _ < 2 * fractionCount * powerOfTwo exponent * denominator := below
      _ = 2 * fractionCount * (denominator * powerOfTwo exponent) := by ring
  · rcases Nat.eq_zero_or_pos exponent with isZero | isPositive
    · exact .inl isZero
    · right
      have nonzero : numerator / denominator ≠ 0 := by
        intro isZero
        rw [isZero, Nat.log2_zero] at isExponent
        omega
      have above : 2 ^ (52 + exponent) ≤ numerator / denominator := by
        have logarithm := Nat.log2_self_le nonzero
        rwa [show (numerator / denominator).log2 = 52 + exponent by omega] at logarithm
      rw [Nat.le_div_iff_mul_le positive, ← narrow] at above
      calc fractionCount * (denominator * powerOfTwo exponent)
        _ = fractionCount * powerOfTwo exponent * denominator := by ring
        _ ≤ numerator := above

/-- A significand has fifty-three bits, but for a carry and for the smallest numbers. -/
theorem significandOf_bounds (numerator : Nat) :
    significandOf numerator denominator ≤ 2 * fractionCount ∧
      (exponentOf numerator denominator = 0 ∨
        fractionCount ≤ significandOf numerator denominator) := by
  obtain ⟨below, above⟩ := exponentOf_bounds positive numerator
  have widened : 0 < denominator * powerOfTwo (exponentOf numerator denominator) :=
    Nat.mul_pos positive (powerOfTwo_pos _)
  unfold significandOf roundHalfEven
  dsimp only
  have quotientBelow := (Nat.div_lt_iff_lt_mul widened).mpr below
  have quotientAbove := above.imp_right (Nat.le_div_iff_mul_le widened).mpr
  split
  · exact ⟨Nat.le_of_lt quotientBelow, quotientAbove⟩
  · exact ⟨quotientBelow, quotientAbove.imp_right fun high => Nat.le_succ_of_le high⟩

/-- Among the multiples of its power of two, the significand is the nearest to the quotient. -/
theorem abs_significandOf_sub_le (numerator other : Nat) :
    let unit := powerOfTwo (exponentOf numerator denominator)
    let significand := significandOf numerator denominator
    let exact : ℚ := numerator / denominator
    |((significand * unit : Nat) : ℚ) - exact| ≤ |((other * unit : Nat) : ℚ) - exact| ∧
      (other ≠ significand ->
        |((other * unit : Nat) : ℚ) - exact| = |((significand * unit : Nat) : ℚ) - exact| ->
        significand % 2 = 0) := by
  intro unit significand exact
  have unitPositive : 0 < unit := powerOfTwo_pos _
  have scaled (multiple : Nat) : |((multiple * unit : Nat) : ℚ) - exact| =
      unit * |(multiple : ℚ) - numerator / (denominator * unit : Nat)| := by
    have taken : ((multiple * unit : Nat) : ℚ) - exact =
        unit * ((multiple : ℚ) - numerator / (denominator * unit : Nat)) := by
      unfold exact
      push_cast
      field_simp
    rw [taken, abs_mul, abs_of_pos (by positivity)]
  obtain ⟨closest, even⟩ := abs_roundHalfEven_sub_le_abs_sub numerator other
    (Nat.mul_pos positive unitPositive)
  rw [scaled, scaled]
  have cancels : (0 : ℚ) < unit := by positivity
  refine ⟨mul_le_mul_of_nonneg_left closest (le_of_lt cancels), fun differs tie => ?_⟩
  exact even differs (mul_left_cancel₀ (ne_of_gt cancels) tie)

/-- What a pattern stands for is a multiple of the power of two that the significand counts, or it
is farther from the quotient than the significand. -/
theorem multiple_or_farther (numerator other : Nat) :
    let unit := powerOfTwo (exponentOf numerator denominator)
    let exact : ℚ := numerator / denominator
    (∃ multiple, unitsOf other = multiple * unit) ∨
      |((significandOf numerator denominator * unit : Nat) : ℚ) - exact| <
        |(unitsOf other : ℚ) - exact| := by
  obtain ⟨_, reaches⟩ := exponentOf_bounds positive numerator
  obtain ⟨closest, _⟩ := abs_significandOf_sub_le positive numerator fractionCount
  generalize significandOf numerator denominator = significand at closest ⊢
  generalize exponentOf numerator denominator = exponent at closest reaches ⊢
  intro unit exact
  obtain ⟨otherExponent, otherSignificand, rfl, otherInRange, otherLeads⟩ := exists_eq_mul_add other
  rw [unitsOf_add (Nat.le_of_lt otherInRange) otherLeads]
  rcases Nat.lt_or_ge otherExponent exponent with isLower | isHigher
  · -- A multiple of the unit lies between the pattern and the quotient.
    right
    have below : otherSignificand * powerOfTwo otherExponent < fractionCount * unit := by
      calc otherSignificand * powerOfTwo otherExponent
        _ < 2 * fractionCount * powerOfTwo otherExponent :=
          Nat.mul_lt_mul_of_pos_right otherInRange (powerOfTwo_pos _)
        _ = fractionCount * powerOfTwo (otherExponent + 1) := by rw [powerOfTwo_succ]; ring
        _ ≤ fractionCount * unit :=
          Nat.mul_le_mul_left _ (Nat.pow_le_pow_right (by decide) isLower)
    have belowToo : ((otherSignificand * powerOfTwo otherExponent : Nat) : ℚ) <
        (fractionCount * unit : Nat) := by exact_mod_cast below
    have reached : ((fractionCount * unit : Nat) : ℚ) ≤ exact := by
      have bound := reaches.resolve_left (Nat.ne_of_gt (Nat.zero_lt_of_lt isLower))
      rw [Nat.mul_left_comm, Nat.mul_comm] at bound
      rw [le_div_iff₀ (by positivity)]
      exact_mod_cast bound
    apply lt_of_le_of_lt closest
    rw [abs_of_nonpos (by linarith), abs_of_nonpos (by linarith)]
    linarith
  · left
    obtain ⟨gap, rfl⟩ := Nat.exists_eq_add_of_le isHigher
    exact ⟨otherSignificand * powerOfTwo gap, by rw [powerOfTwo_add]; ring⟩

/-- A quotient is rounded to the nearest pattern. -/
theorem nearest_of_quotient (numerator : Nat) :
    Nearest (numerator / denominator)
      (exponentOf numerator denominator * fractionCount + significandOf numerator denominator) := by
  obtain ⟨inRange, leads⟩ := significandOf_bounds positive numerator
  have units := unitsOf_add inRange leads
  have onGrid := abs_significandOf_sub_le positive numerator
  have compared := multiple_or_farther positive numerator
  constructor
  · intro other
    rw [units]
    rcases compared other with ⟨multiple, isMultiple⟩ | isFarther
    · rw [isMultiple]
      exact (onGrid multiple).1
    · exact le_of_lt isFarther
  · intro other differs tie
    rw [units] at tie
    rcases compared other with ⟨multiple, isMultiple⟩ | isFarther
    · rw [isMultiple] at tie
      have isEven : significandOf numerator denominator % 2 = 0 := by
        refine (onGrid multiple).2 (fun same => differs ?_) tie
        apply strictMono_unitsOf.injective
        rw [units, isMultiple, same]
      rw [Nat.add_mod, isEven, Nat.mul_mod, show fractionCount % 2 = 0 from rfl, Nat.mul_zero,
        Nat.zero_mod]
    · exact absurd tie (ne_of_gt isFarther)

end

/-! ## The greatest number -/

/-- A significand of one is a power of two. -/
theorem unitsOf_fractionCount (exponent : Nat) :
    unitsOf (exponent * fractionCount + fractionCount) = powerOfTwo (52 + exponent) := by
  rw [unitsOf_add (Nat.le_mul_of_pos_left _ (by decide)) (.inr (Nat.le_refl _)), powerOfTwo_add]
  rfl

/-- The greatest significand lies one unit of its exponent below a power of two. -/
theorem unitsOf_greatest_add (exponent : Nat) :
    unitsOf (exponent * fractionCount + (2 * fractionCount - 1)) + powerOfTwo exponent =
      powerOfTwo (53 + exponent) := by
  have positive := fractionCount_pos
  rw [unitsOf_add (Nat.sub_le _ _) (.inr (by omega)), ← Nat.succ_mul, Nat.succ_eq_add_one,
    Nat.sub_add_cancel (by omega), powerOfTwo_add]
  rfl

theorem unitsOf_infinityBits : unitsOf infinityBits = powerOfTwo 2098 := by
  have pattern : infinityBits = 2046 * fractionCount + fractionCount := by decide
  rw [pattern]
  exact unitsOf_fractionCount 2046

theorem unitsOf_infinityBits_sub_one :
    unitsOf (infinityBits - 1) + powerOfTwo 2045 = powerOfTwo 2098 := by
  have pattern : infinityBits - 1 = 2045 * fractionCount + (2 * fractionCount - 1) := by decide
  rw [pattern]
  exact unitsOf_greatest_add 2045

/-- The greatest finite number is as far below the power of two behind it as two halves. -/
theorem cast_unitsOf_greatest :
    (unitsOf infinityBits : ℚ) = powerOfTwo 2098 ∧
      (unitsOf (infinityBits - 1) : ℚ) + 2 * powerOfTwo 2044 = powerOfTwo 2098 := by
  have doubled : powerOfTwo 2045 = powerOfTwo 2044 * 2 := powerOfTwo_succ 2044
  have sum := unitsOf_infinityBits_sub_one
  rw [doubled, Nat.mul_comm] at sum
  constructor
  · exact_mod_cast unitsOf_infinityBits
  · exact_mod_cast sum

/-- Below the middle between the greatest finite number and the next power of two, the former is
nearer than everything from the latter on. -/
theorem abs_greatest_sub_lt
    {exact : ℚ} {other : Nat}
    (inRange : exact < powerOfTwo 2098 - powerOfTwo 2044)
    (beyond : infinityBits ≤ other) :
    |(unitsOf (infinityBits - 1) : ℚ) - exact| < |(unitsOf other : ℚ) - exact| := by
  obtain ⟨limit, greatest⟩ := cast_unitsOf_greatest
  have above : (unitsOf infinityBits : ℚ) ≤ unitsOf other := by
    exact_mod_cast strictMono_unitsOf.monotone beyond
  have half : (0 : ℚ) < powerOfTwo 2044 := by exact_mod_cast powerOfTwo_pos 2044
  generalize (powerOfTwo 2098 : ℚ) = top at limit greatest inRange
  generalize (powerOfTwo 2044 : ℚ) = gap at greatest half inRange
  rw [abs_of_nonneg (show 0 ≤ (unitsOf other : ℚ) - exact by linarith), abs_lt]
  constructor <;> linarith

namespace Nearest

variable {exact : ℚ} {pattern : Nat}

/-- The nearest pattern is finite below the middle between the greatest finite number and the next
power of two. -/
theorem lt_infinityBits_iff (nearest : Nearest exact pattern) :
    pattern < infinityBits ↔ exact < powerOfTwo 2098 - powerOfTwo 2044 := by
  constructor
  · intro isFinite
    by_contra atLeast
    obtain ⟨limit, greatest⟩ := cast_unitsOf_greatest
    have half : (0 : ℚ) < powerOfTwo 2044 := by exact_mod_cast powerOfTwo_pos 2044
    have below : (unitsOf pattern : ℚ) ≤ unitsOf (infinityBits - 1) := by
      exact_mod_cast strictMono_unitsOf.monotone (Nat.le_sub_one_of_lt isFinite)
    generalize (powerOfTwo 2098 : ℚ) = top at limit greatest atLeast
    generalize (powerOfTwo 2044 : ℚ) = gap at greatest half atLeast
    have closest := nearest.closest infinityBits
    have fromBelow : |(unitsOf pattern : ℚ) - exact| = exact - unitsOf pattern := by
      rw [abs_of_nonpos (by linarith)]
      ring
    have within : |(unitsOf infinityBits : ℚ) - exact| ≤ exact - unitsOf (infinityBits - 1) := by
      rw [abs_le]
      constructor <;> linarith
    -- So the pattern is that of the greatest finite number, which is odd.
    have same : unitsOf pattern = unitsOf (infinityBits - 1) := by
      apply le_antisymm
      · exact_mod_cast below
      · have above : (unitsOf (infinityBits - 1) : ℚ) ≤ unitsOf pattern := by linarith
        exact_mod_cast above
    have isEven := nearest.even infinityBits (Nat.ne_of_gt isFinite)
      (le_antisymm (by rw [fromBelow, same]; exact within) closest)
    rw [strictMono_unitsOf.injective same] at isEven
    exact absurd isEven (by decide)
  · intro inRange
    by_contra beyond
    have nearer := abs_greatest_sub_lt inRange (Nat.le_of_not_lt beyond)
    exact absurd (nearest.closest (infinityBits - 1)) (not_le_of_gt nearer)

/-- The nearest pattern is not below another one. -/
theorem not_lt
    {other : Nat}
    (nearest : Nearest exact pattern)
    (alsoNearest : Nearest exact other) :
    ¬pattern < other := by
  intro less
  have tie := le_antisymm (nearest.closest other) (alsoNearest.closest pattern)
  have isEven := nearest.even other (Nat.ne_of_gt less) tie.symm
  have otherIsEven := alsoNearest.even pattern (Nat.ne_of_lt less) tie
  -- Two even patterns have one between them, which is nearer than both.
  have between : pattern + 1 < other := by omega
  have first : (unitsOf pattern : ℚ) < unitsOf (pattern + 1) := by
    exact_mod_cast strictMono_unitsOf (Nat.lt_succ_self pattern)
  have second : (unitsOf (pattern + 1) : ℚ) < unitsOf other := by
    exact_mod_cast strictMono_unitsOf between
  have closest := nearest.closest (pattern + 1)
  rcases abs_eq_abs.mp tie with same | opposite
  · linarith
  · rw [abs_of_nonpos (show (unitsOf pattern : ℚ) - exact ≤ 0 by linarith), le_abs] at closest
    rcases closest with isAbove | isBelow <;> linarith

theorem unique
    {other : Nat}
    (nearest : Nearest exact pattern)
    (alsoNearest : Nearest exact other) :
    pattern = other := by
  apply le_antisymm
  · exact Nat.le_of_not_lt (alsoNearest.not_lt nearest)
  · exact Nat.le_of_not_lt (nearest.not_lt alsoNearest)

end Nearest

/-! ## Rounding a decimal -/

/-- The rational number that a finite number without a sign stands for. -/
def value (number : Binary64) : ℚ := number.magnitudeUnits / smallestUnits

/-- An exact number is rounded to a finite one: the one that is nearest to it, or the even one of
two that are equally near, unless the exact number reaches the middle between the greatest finite
number and the next power of two. -/
structure Rounds (exact : ℚ) (number : Binary64) : Prop where
  isMagnitude : number.IsMagnitude
  inRange : exact < powerOfTwo 1024 - powerOfTwo 970
  closest : ∀ other : Binary64, other.IsMagnitude ->
    |number.value - exact| ≤ |other.value - exact|
  even : ∀ other : Binary64, other.IsMagnitude -> other ≠ number ->
    |other.value - exact| = |number.value - exact| -> number.bits.toNat % 2 = 0

theorem cast_smallestUnits_pos : (0 : ℚ) < smallestUnits := by
  exact_mod_cast powerOfTwo_pos 1074

/-- Distances of finite numbers, counted in smallest numbers, are those of their patterns. -/
theorem abs_value_sub_mul
    {number : Binary64}
    (isMagnitude : number.IsMagnitude)
    (exact : ℚ) :
    |number.value - exact| * smallestUnits =
      |(unitsOf number.bits.toNat : ℚ) - exact * smallestUnits| := by
  have positive := cast_smallestUnits_pos
  have units : number.magnitudeUnits = unitsOf number.bits.toNat := by
    rw [← magnitudeBits_of_isMagnitude isMagnitude]
    rfl
  unfold value
  rw [units]
  generalize (smallestUnits : ℚ) = scale at positive ⊢
  rw [← abs_of_pos positive, ← abs_mul, abs_of_pos positive, sub_mul,
    div_mul_cancel₀ _ (ne_of_gt positive)]

/-- Every pattern below infinity is that of a number. -/
theorem exists_isMagnitude
    {pattern : Nat}
    (isFinite : pattern < infinityBits) :
    ∃ number : Binary64, number.IsMagnitude ∧ number.bits.toNat = pattern := by
  have bits : (UInt64.ofNat pattern).toNat = pattern := by
    rw [UInt64.toNat_ofNat']
    exact Nat.mod_eq_of_lt (Nat.lt_trans isFinite (by decide))
  exact ⟨⟨UInt64.ofNat pattern⟩, bits.trans_lt isFinite, bits⟩

/-- The bound of the finite numbers, counted in smallest numbers. -/
theorem inRange_iff (exact : ℚ) :
    exact < powerOfTwo 1024 - powerOfTwo 970 ↔
      exact * smallestUnits < powerOfTwo 2098 - powerOfTwo 2044 := by
  have positive := cast_smallestUnits_pos
  have scaled : ((powerOfTwo 1024 : ℚ) - powerOfTwo 970) * smallestUnits =
      powerOfTwo 2098 - powerOfTwo 2044 := by
    have split (exponent : Nat) :
        (powerOfTwo (exponent + 1074) : ℚ) = powerOfTwo exponent * smallestUnits := by
      rw [powerOfTwo_add, Nat.cast_mul]
      rfl
    rw [sub_mul, ← split 1024, ← split 970]
  rw [← scaled]
  exact (mul_lt_mul_iff_left₀ positive).symm

/-- Rounding takes the nearest pattern. -/
theorem rounds_iff_nearest
    {exact : ℚ} {number : Binary64} :
    number.Rounds exact ↔
      number.IsMagnitude ∧ Nearest (exact * smallestUnits) number.bits.toNat := by
  have positive := cast_smallestUnits_pos
  constructor
  · intro rounds
    have distance := abs_value_sub_mul rounds.isMagnitude exact
    have inRange := (inRange_iff exact).mp rounds.inRange
    have closest (pattern : Nat) (isFinite : pattern < infinityBits) :
        |(unitsOf number.bits.toNat : ℚ) - exact * smallestUnits| ≤
          |(unitsOf pattern : ℚ) - exact * smallestUnits| := by
      obtain ⟨other, isMagnitude, rfl⟩ := exists_isMagnitude isFinite
      rw [← distance, ← abs_value_sub_mul isMagnitude exact]
      exact mul_le_mul_of_nonneg_right (rounds.closest other isMagnitude) (le_of_lt positive)
    have closestToGreatest := closest (infinityBits - 1) (by decide)
    refine ⟨rounds.isMagnitude, ?_, ?_⟩
    · intro pattern
      rcases Nat.lt_or_ge pattern infinityBits with isFinite | isBeyond
      · exact closest pattern isFinite
      · exact le_of_lt (lt_of_le_of_lt closestToGreatest (abs_greatest_sub_lt inRange isBeyond))
    · intro pattern differs tie
      rcases Nat.lt_or_ge pattern infinityBits with isFinite | isBeyond
      · obtain ⟨other, isMagnitude, rfl⟩ := exists_isMagnitude isFinite
        rw [← distance, ← abs_value_sub_mul isMagnitude exact] at tie
        apply rounds.even other isMagnitude
        · exact fun same => differs (congrArg (fun taken => taken.bits.toNat) same)
        · exact mul_right_cancel₀ (ne_of_gt positive) tie
      · have farther := lt_of_le_of_lt closestToGreatest (abs_greatest_sub_lt inRange isBeyond)
        exact absurd tie (ne_of_gt farther)
  · rintro ⟨isMagnitude, nearest⟩
    have distance := abs_value_sub_mul isMagnitude exact
    have isBelow := nearest.lt_infinityBits_iff.mp isMagnitude
    refine ⟨isMagnitude, (inRange_iff exact).mpr isBelow, ?_, ?_⟩
    · intro other otherIsMagnitude
      apply le_of_mul_le_mul_right _ positive
      rw [distance, abs_value_sub_mul otherIsMagnitude exact]
      exact nearest.closest _
    · intro other otherIsMagnitude differs tie
      apply nearest.even other.bits.toNat
      · intro same
        apply differs
        cases other
        cases number
        exact congrArg Binary64.mk (UInt64.toNat_inj.mp same)
      · rw [← distance, ← abs_value_sub_mul otherIsMagnitude exact, tie]

/-- An exact number is rounded to one number only. -/
theorem Rounds.unique
    {exact : ℚ} {first second : Binary64}
    (rounds : first.Rounds exact)
    (alsoRounds : second.Rounds exact) :
    first = second := by
  obtain ⟨_, nearest⟩ := rounds_iff_nearest.mp rounds
  obtain ⟨_, alsoNearest⟩ := rounds_iff_nearest.mp alsoRounds
  cases first
  cases second
  exact congrArg Binary64.mk (UInt64.toNat_inj.mp (nearest.unique alsoNearest))

/-- A decimal is rounded to the number that is read for it if that is finite, and to no number
otherwise. -/
theorem rounds_value_iff
    {decimal : Decimal} {number : Binary64} :
    number.Rounds decimal.value ↔
      (ofDecimal decimal).isFinite = true ∧ number = ofDecimal decimal := by
  have nearest := nearest_of_quotient (powerOfTen_pos decimal.places)
    (decimal.units * smallestUnits)
  have bits := ofRatio_eq decimal.units (powerOfTen decimal.places)
  have exact : ((decimal.units * smallestUnits : Nat) : ℚ) / powerOfTen decimal.places =
      decimal.value * smallestUnits := by
    have power : (powerOfTen decimal.places : ℚ) = 10 ^ decimal.places := by
      exact_mod_cast rfl
    rw [Decimal.value, power, Nat.cast_mul, div_mul_eq_mul_div]
  dsimp only at bits
  rw [exact] at nearest
  generalize exponentOf _ _ * fractionCount + significandOf _ _ = pattern at nearest bits
  have toNat : (ofDecimal decimal).bits.toNat = min pattern infinityBits := by
    have small : min pattern infinityBits < 2 ^ 64 :=
      Nat.lt_of_le_of_lt (Nat.min_le_right _ _) (by decide)
    unfold ofDecimal
    rw [bits, UInt64.toNat_ofNat']
    exact Nat.mod_eq_of_lt small
  constructor
  · intro rounds
    obtain ⟨isMagnitude, alsoNearest⟩ := rounds_iff_nearest.mp rounds
    have same := alsoNearest.unique nearest
    have isFinite : pattern < infinityBits := same ▸ isMagnitude
    rw [Nat.min_eq_left (Nat.le_of_lt isFinite), ← same] at toNat
    have isRead : number = ofDecimal decimal := by
      cases number
      exact congrArg Binary64.mk (UInt64.toNat_inj.mp toNat.symm)
    refine ⟨?_, isRead⟩
    apply decide_eq_true
    rw [← isRead, magnitudeBits_of_isMagnitude isMagnitude]
    exact isMagnitude
  · rintro ⟨isFinite, rfl⟩
    have isMagnitude := isMagnitude_of_isFinite isFinite
    have below : min pattern infinityBits < infinityBits := toNat ▸ isMagnitude
    have within : pattern < infinityBits := by omega
    rw [Nat.min_eq_left (Nat.le_of_lt within)] at toNat
    apply rounds_iff_nearest.mpr
    rw [toNat]
    exact ⟨isMagnitude, nearest⟩

end Binary64
end Numeric
end ScriptLang
