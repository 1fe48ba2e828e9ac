/-!
# Decimals

Decimals without an exponent: a natural number of units, each unit being a power
of ten.  They are read from digits with a point and written positionally, with
at least one digit on either side of the point.
-/

namespace ScriptLang
namespace Numeric

/-- A power of ten. -/
def powerOfTen (exponent : Nat) : Nat := Nat.pow 10 exponent

/-- The number `units / 10 ^ places`. -/
structure Decimal where
  /-- The number of units. -/
  units : Nat
  /-- The number of decimal places of a unit. -/
  places : Nat
  deriving DecidableEq, Repr, Inhabited

/-- The number that a list of decimal digits stands for. -/
def digitsValue (digits : List Char) : Nat :=
  Nat.ofDigitChars 10 digits 0

/-- The decimal digits of a number, the most significant first; zero has one digit. -/
def digitsOf (value : Nat) : List Char :=
  Nat.toDigits 10 value

@[simp] theorem digitsValue_digitsOf (value : Nat) : digitsValue (digitsOf value) = value :=
  Nat.ofDigitChars_toDigits (by decide) (by decide)

/-- Whether a list is a number in decimal digits. -/
def isNumeral (word : List Char) : Bool :=
  !word.isEmpty && word.all Char.isDigit

/-- The digits of a number are a numeral. -/
@[simp] theorem isNumeral_digitsOf (value : Nat) : isNumeral (digitsOf value) = true := by
  have digits : ∀ digit ∈ digitsOf value, digit.isDigit = true := fun digit member =>
    Nat.isDigit_of_mem_toDigits (by decide) (by decide) member
  simpa [isNumeral, digitsOf] using digits

/-- Read digits as a natural number. -/
def readNatural? (word : List Char) : Option Nat :=
  if isNumeral word then some (digitsValue word) else none

namespace Decimal

/-- Read digits, a point, and digits again. -/
def read? (word : List Char) : Option Decimal :=
  match word.span (· != '.') with
  | (whole, '.' :: fraction) =>
      if isNumeral whole && isNumeral fraction then
        some ⟨digitsValue (whole ++ fraction), fraction.length⟩
      else none
  | _ => none

/-- The digits behind the point without the zeros at their end. -/
def fractionDigits (number : Decimal) : List Char :=
  let digits := digitsOf (number.units % powerOfTen number.places)
  let padded := List.replicate (number.places - digits.length) '0' ++ digits
  (padded.take number.places).reverse.dropWhile (· == '0') |>.reverse

/-- Write a decimal positionally, with one zero where no digit would follow the point. -/
def toText (number : Decimal) : String :=
  let whole := digitsOf (number.units / powerOfTen number.places)
  let fraction := number.fractionDigits
  String.ofList (whole ++ '.' :: if fraction.isEmpty then ['0'] else fraction)

end Decimal
end Numeric
end ScriptLang
