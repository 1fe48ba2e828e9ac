import Mathlib.Data.List.TakeDrop
import Mathlib.Data.List.TakeWhile
import ScriptLang.Numeric.Decimal

/-!
# Decimals are read back

The text of a decimal is read back as a decimal of the same value, possibly with
fewer places.  The digits behind the point are those of the fraction, filled up
with zeros in front, without the zeros at their end.
-/

namespace ScriptLang
namespace Numeric

theorem powerOfTen_add (first second : Nat) :
    powerOfTen (first + second) = powerOfTen first * powerOfTen second :=
  Nat.pow_add 10 first second

theorem powerOfTen_pos (exponent : Nat) : 0 < powerOfTen exponent :=
  Nat.pow_pos (by decide)

/-- The digits of a list are worth more by the places that follow. -/
theorem digitsValue_append (first second : List Char) :
    digitsValue (first ++ second) =
      digitsValue first * powerOfTen second.length + digitsValue second := by
  unfold digitsValue
  rw [Nat.ofDigitChars_append, Nat.ofDigitChars_eq_ofDigitChars_zero, Nat.mul_comm]
  rfl

theorem digitsValue_replicate_zero (count : Nat) :
    digitsValue (List.replicate count '0') = 0 := by
  rw [digitsValue, Nat.ofDigitChars_replicate_zero, Nat.mul_zero]

/-- A numeral has a digit and nothing else. -/
theorem isNumeral_iff (word : List Char) :
    isNumeral word = true ↔ word ≠ [] ∧ ∀ character ∈ word, character.isDigit = true := by
  simp [isNumeral]

theorem isDigit_of_mem_digitsOf
    {value : Nat} {digit : Char}
    (member : digit ∈ digitsOf value) :
    digit.isDigit = true :=
  ((isNumeral_iff _).mp (isNumeral_digitsOf value)).2 digit member

namespace Decimal

/-- Two decimals are the same number. -/
def Same (first second : Decimal) : Prop :=
  first.units * powerOfTen second.places = second.units * powerOfTen first.places

/-- Two numerals with a point between them are a decimal. -/
theorem read?_of_isNumeral
    {whole fraction : List Char}
    (wholeIsNumeral : isNumeral whole = true)
    (fractionIsNumeral : isNumeral fraction = true) :
    read? (whole ++ '.' :: fraction) =
      some ⟨digitsValue (whole ++ fraction), fraction.length⟩ := by
  have noPoint : ∀ character ∈ whole, (character != '.') = true := by
    intro character member
    have isDigit := ((isNumeral_iff whole).mp wholeIsNumeral).2 character member
    apply bne_iff_ne.mpr
    rintro rfl
    cases isDigit
  have cut : (whole ++ '.' :: fraction).span (· != '.') = (whole, '.' :: fraction) := by
    rw [List.span_eq_takeWhile_dropWhile, List.takeWhile_append_of_pos noPoint,
      List.dropWhile_append_of_pos noPoint]
    simp
  unfold read?
  rw [cut]
  simp only [wholeIsNumeral, fractionIsNumeral, Bool.and_self, if_true]

/-- The digits of the fraction of a decimal, as many as it has places. -/
def paddedFraction (number : Decimal) : List Char :=
  let digits := digitsOf (number.units % powerOfTen number.places)
  (List.replicate (number.places - digits.length) '0' ++ digits).take number.places

/-- The places of a decimal hold the digits of its fraction. -/
theorem length_paddedFraction_and_digitsValue (number : Decimal) :
    number.paddedFraction.length = number.places ∧
      digitsValue number.paddedFraction = number.units % powerOfTen number.places := by
  unfold paddedFraction
  rcases Nat.eq_zero_or_pos number.places with noPlaces | somePlaces
  · rw [noPlaces]
    exact ⟨rfl, (Nat.mod_one _).symm⟩
  · have below : number.units % powerOfTen number.places < 10 ^ number.places :=
      Nat.mod_lt _ (powerOfTen_pos _)
    have fits := (Nat.length_toDigits_le_iff (by decide) somePlaces).mpr below
    have length : (List.replicate (number.places -
          (digitsOf (number.units % powerOfTen number.places)).length) '0' ++
        digitsOf (number.units % powerOfTen number.places)).length = number.places := by
      rw [List.length_append, List.length_replicate]
      unfold digitsOf
      omega
    constructor
    · rw [List.length_take, length, Nat.min_self]
    · rw [List.take_of_length_le (Nat.le_of_eq length), digitsValue_append,
        digitsValue_replicate_zero, digitsValue_digitsOf, Nat.zero_mul, Nat.zero_add]

theorem isDigit_of_mem_paddedFraction
    {number : Decimal} {digit : Char}
    (member : digit ∈ number.paddedFraction) :
    digit.isDigit = true := by
  rcases List.mem_append.mp (List.mem_of_mem_take member) with isFiller | isDigit
  · rw [(List.mem_replicate.mp isFiller).2]
    rfl
  · exact isDigit_of_mem_digitsOf isDigit

/-- Only zeros are taken away from the end of the fraction. -/
theorem exists_paddedFraction_eq (number : Decimal) :
    ∃ zeros, number.paddedFraction = number.fractionDigits ++ List.replicate zeros '0' := by
  let isZero : Char -> Bool := fun digit => digit == '0'
  let dropped := number.paddedFraction.reverse.takeWhile isZero
  have allZeros : ∀ digit ∈ dropped, digit = '0' := by
    intro digit member
    have satisfies : isZero digit = true := List.mem_takeWhile_imp member
    exact beq_iff_eq.mp satisfies
  have droppedIs : dropped = List.replicate dropped.length '0' :=
    List.eq_replicate_of_mem allZeros
  have whole : dropped ++ number.fractionDigits.reverse = number.paddedFraction.reverse := by
    rw [fractionDigits, List.reverse_reverse]
    exact List.takeWhile_append_dropWhile
  refine ⟨dropped.length, ?_⟩
  rw [← List.reverse_inj, ← whole, List.reverse_append, List.reverse_replicate, ← droppedIs]

/-- The text of a decimal is a decimal of the same value. -/
theorem exists_read?_toText (number : Decimal) :
    ∃ again, read? number.toText.toList = some again ∧ again.Same number := by
  obtain ⟨zeros, padded⟩ := number.exists_paddedFraction_eq
  obtain ⟨length, value⟩ := number.length_paddedFraction_and_digitsValue
  let whole := digitsOf (number.units / powerOfTen number.places)
  have wholeValue : digitsValue whole = number.units / powerOfTen number.places :=
    digitsValue_digitsOf _
  have wholeIsNumeral : isNumeral whole = true := isNumeral_digitsOf _
  have digits : ∀ digit ∈ number.fractionDigits, digit.isDigit = true := by
    intro digit member
    apply isDigit_of_mem_paddedFraction
    rw [padded]
    exact List.mem_append_left _ member
  rw [padded, List.length_append, List.length_replicate] at length
  rw [padded, digitsValue_append, digitsValue_replicate_zero, List.length_replicate,
    Nat.add_zero] at value
  have units : number.units =
      (digitsValue whole * powerOfTen number.fractionDigits.length +
        digitsValue number.fractionDigits) * powerOfTen zeros := by
    have divided := Nat.div_add_mod' number.units (powerOfTen number.places)
    rw [← wholeValue, ← value, ← length, powerOfTen_add] at divided
    rw [Nat.add_mul, Nat.mul_assoc]
    exact divided.symm
  have text : number.toText.toList =
      whole ++ '.' :: (if number.fractionDigits.isEmpty then ['0'] else number.fractionDigits) :=
    String.toList_ofList
  cases fraction : number.fractionDigits with
  | nil =>
      simp only [fraction, List.isEmpty_nil, if_true] at text
      rw [fraction] at units length
      refine ⟨⟨digitsValue (whole ++ ['0']), 1⟩, ?_, ?_⟩
      · rw [text]
        exact read?_of_isNumeral wholeIsNumeral (by decide)
      · have noFraction : digitsValue [] = 0 := rfl
        have zero : digitsValue ['0'] = 0 := rfl
        have noPlaces : powerOfTen ([] : List Char).length = 1 := rfl
        unfold Same
        dsimp only
        rw [digitsValue_append, units, ← length, noFraction, zero, noPlaces, List.length_nil,
          Nat.zero_add, Nat.add_zero, Nat.add_zero, Nat.mul_one, List.length_singleton]
        ac_rfl
  | cons first rest =>
      simp only [fraction, List.isEmpty_cons, Bool.false_eq_true, if_false] at text
      rw [fraction] at units length digits
      have isNumeral : isNumeral (first :: rest) = true :=
        (isNumeral_iff _).mpr ⟨List.cons_ne_nil _ _, digits⟩
      refine ⟨⟨digitsValue (whole ++ first :: rest), (first :: rest).length⟩, ?_, ?_⟩
      · rw [text]
        exact read?_of_isNumeral wholeIsNumeral isNumeral
      · unfold Same
        dsimp only
        rw [digitsValue_append, units, ← length, powerOfTen_add]
        ac_rfl

end Decimal
end Numeric
end ScriptLang
