import Mathlib.Data.Nat.Digits.Defs
import Mathlib.Data.Set.Subsingleton
import ScriptLang.Proofs.Numeric.Rounding
import ScriptLang.Proofs.Token.Printable

/-!
# The meaning of words

A word means at most one thing: one of the eight keywords, a floating-point number,
a whole number, or a name.  The numbers are given by their digits, apart from how
they are read.  The main statement says that exactly the words with a meaning make
a token, which carries that meaning.
-/

namespace ScriptLang
namespace Token

open Numeric (Binary64 Decimal digitsValue isNumeral isNumeral_iff)
open Source (Span)

/-! ## Meanings -/

/-- The keywords, each with the kind and the payload of its tokens. -/
def keywords : List (String × TokenKind × Payload) :=
  [("declare", .declaration, .empty),
    ("stdin", .standardInput, .empty),
    ("stdout", .standardOutput, .empty),
    ("bool", .typeKeyword, .leaf (.typeKeyword .bool)),
    ("int", .typeKeyword, .leaf (.typeKeyword .int)),
    ("float", .typeKeyword, .leaf (.typeKeyword .float)),
    ("true", .literal, .leaf (.literal (.bool true))),
    ("false", .literal, .leaf (.literal (.bool false)))]

/-- A list of characters is a run of digits, which is not empty. -/
def IsDigits (characters : List Char) : Prop :=
  characters ≠ [] ∧ ∀ character ∈ characters, character.isDigit = true

/-- The number that digits stand for, the last of them being the units. -/
def decimalValue (digits : List Char) : Nat :=
  Nat.ofDigits 10 (digits.reverse.map fun digit => digit.toNat - '0'.toNat)

/-- What a word can mean. -/
inductive Meaning
  | keyword (kind : TokenKind) (payload : Payload)
  | float (value : Binary64)
  | integer (value : Int32)
  | name
  deriving DecidableEq, Repr

namespace Meaning

/-- The kind of the tokens with a meaning. -/
def kind : Meaning -> TokenKind
  | .keyword kind _ => kind
  | .float _ => .literal
  | .integer _ => .literal
  | .name => .identifier

/-- What the token of a word carries. -/
def payload (word : String) : Meaning -> Payload
  | .keyword _ payload => payload
  | .float value => .leaf (.literal (.float value))
  | .integer value => .leaf (.literal (.int value))
  | .name => .leaf (.identifier word)

/-- The kind and the payload of a keyword. -/
def keyword? : Meaning -> Option (TokenKind × Payload)
  | .keyword kind payload => some (kind, payload)
  | _ => none

end Meaning

/-- A word has a meaning. -/
inductive Means (word : String) : Meaning -> Prop
  | keyword {kind : TokenKind} {payload : Payload}
      (listed : (word, kind, payload) ∈ keywords) :
      Means word (.keyword kind payload)
  | float {whole fraction : List Char} {value : Binary64}
      (text : word.toList = whole ++ '.' :: fraction)
      (wholeDigits : IsDigits whole)
      (fractionDigits : IsDigits fraction)
      (rounds : value.Rounds (decimalValue (whole ++ fraction) / 10 ^ fraction.length)) :
      Means word (.float value)
  | integer {value : Int32}
      (digits : IsDigits word.toList)
      (inRange : decimalValue word.toList ≤ 2147483647)
      (exact : value.toInt = decimalValue word.toList) :
      Means word (.integer value)
  | name {first : Char} {rest : List Char}
      (text : word.toList = first :: rest)
      (isLetter : first.isAlpha = true)
      (continues : ∀ character ∈ rest, character.isAlphanum = true ∨ character = '_')
      (notListed : ∀ kind payload, (word, kind, payload) ∉ keywords) :
      Means word .name

/-! ## Keywords and numerals -/

/-- The lookup of keywords finds what is listed. -/
theorem reserved?_eq_some_iff
    {word : String} {result : TokenKind × Payload} :
    reserved? word = some result ↔ (word, result) ∈ keywords := by
  constructor
  · intro found
    unfold reserved? at found
    split at found <;> cases found <;> decide
  · intro listed
    simp only [keywords, List.mem_cons, Prod.mk.injEq, List.not_mem_nil, or_false] at listed
    rcases listed with ⟨rfl, rfl⟩ | ⟨rfl, rfl⟩ | ⟨rfl, rfl⟩ | ⟨rfl, rfl⟩ | ⟨rfl, rfl⟩ |
      ⟨rfl, rfl⟩ | ⟨rfl, rfl⟩ | ⟨rfl, rfl⟩ <;> rfl

theorem reserved?_eq_none_iff
    {word : String} :
    reserved? word = none ↔ ∀ kind payload, (word, kind, payload) ∉ keywords := by
  rw [Option.eq_none_iff_forall_ne_some, Prod.forall]
  exact forall_congr' fun kind => forall_congr' fun payload => not_congr reserved?_eq_some_iff

theorem isNumeral_eq_true_iff
    {characters : List Char} :
    isNumeral characters = true ↔ IsDigits characters :=
  isNumeral_iff characters

/-- Reading digits from the left gives the number that they stand for. -/
theorem digitsValue_eq (digits : List Char) : digitsValue digits = decimalValue digits := by
  unfold decimalValue
  induction digits using List.reverseRecOn with
  | nil => rfl
  | append_singleton digits last inductionHypothesis =>
      rw [Numeric.digitsValue_append, inductionHypothesis, List.reverse_append,
        List.reverse_singleton, List.singleton_append, List.map_cons, Nat.ofDigits_cons]
      have units : digitsValue [last] = last.toNat - '0'.toNat := Nat.zero_add _
      have tens : Numeric.powerOfTen [last].length = 10 := rfl
      rw [units, tens, Nat.mul_comm]
      exact Nat.add_comm _ _

/-- What is read as a decimal are digits, a point, and digits. -/
theorem read?_eq_some_iff
    {characters : List Char} {decimal : Decimal} :
    Decimal.read? characters = some decimal ↔
      ∃ whole fraction, characters = whole ++ '.' :: fraction ∧ IsDigits whole ∧
        IsDigits fraction ∧ decimal = ⟨decimalValue (whole ++ fraction), fraction.length⟩ := by
  simp only [← isNumeral_eq_true_iff, ← digitsValue_eq]
  constructor
  · intro read
    obtain ⟨whole, fraction, rfl, wholeDigits, fractionDigits⟩ := exists_of_read?_eq_some read
    rw [Decimal.read?_of_isNumeral wholeDigits fractionDigits] at read
    exact ⟨whole, fraction, rfl, wholeDigits, fractionDigits, (Option.some.inj read).symm⟩
  · rintro ⟨whole, fraction, rfl, wholeDigits, fractionDigits, rfl⟩
    exact Decimal.read?_of_isNumeral wholeDigits fractionDigits

/-- A small whole number is the only one of thirty-two bits with its value. -/
theorem int32_eq_iff
    {value : Int32} {exact : Nat}
    (inRange : exact ≤ greatestInt) :
    value = Int32.ofNat exact ↔ value.toInt = exact := by
  have same : (Int32.ofNat exact).toInt = exact :=
    Int32.toInt_ofNat_of_lt (Nat.lt_succ_of_le inRange)
  rw [← Int32.toInt_inj, same]

theorem isIdentifier_iff
    {characters : List Char} :
    isIdentifier characters = true ↔ ∃ first rest, characters = first :: rest ∧
      first.isAlpha = true ∧ ∀ character ∈ rest, character.isAlphanum = true ∨ character = '_' := by
  cases characters with
  | nil => simp [isIdentifier]
  | cons first rest => simp [isIdentifier, isIdentifierCharacter]

/-! ## Words with a meaning -/

section

variable {word : String} {meaning : Meaning}

/-- Only keywords are found in the list of keywords. -/
theorem Means.reserved?_eq (means : Means word meaning) : reserved? word = meaning.keyword? := by
  cases means with
  | keyword listed => exact reserved?_eq_some_iff.mpr listed
  | float text wholeDigits fractionDigits rounds =>
      obtain ⟨first, rest, rfl⟩ := List.exists_cons_of_ne_nil wholeDigits.1
      exact reserved?_eq_none text (wholeDigits.2 first List.mem_cons_self)
  | integer digits inRange exact =>
      obtain ⟨first, rest, text⟩ := List.exists_cons_of_ne_nil digits.1
      apply reserved?_eq_none text
      exact digits.2 first (by rw [text]; exact List.mem_cons_self)
  | name text isLetter continues notListed => exact reserved?_eq_none_iff.mpr notListed

/-- A letter is no digit. -/
theorem not_isDigit_of_isAlpha
    {character : Char}
    (isLetter : character.isAlpha = true) :
    character.isDigit ≠ true := by
  intro isDigit
  change (decide ('A'.val ≤ character.val ∧ character.val ≤ 'Z'.val) ||
    decide ('a'.val ≤ character.val) && decide (character.val ≤ 'z'.val)) = true at isLetter
  simp only [Char.isDigit, Bool.or_eq_true, Bool.and_eq_true, decide_eq_true_eq,
    UInt32.le_iff_toNat_le, ge_iff_le] at isLetter isDigit
  have digits : '9'.val.toNat = 57 := rfl
  have capitals : 'A'.val.toNat = 65 := rfl
  have letters : 'a'.val.toNat = 97 := rfl
  omega

/-- No number starts with a letter. -/
theorem readNatural?_and_read?_of_isAlpha
    {first : Char} {rest : List Char}
    (isLetter : first.isAlpha = true) :
    Numeric.readNatural? (first :: rest) = none ∧ Decimal.read? (first :: rest) = none := by
  have noDigit := not_isDigit_of_isAlpha isLetter
  constructor
  · apply if_neg
    intro isNumeral
    exact noDigit ((isNumeral_iff _).mp isNumeral |>.2 first List.mem_cons_self)
  · cases read : Decimal.read? (first :: rest) with
    | none => rfl
    | some decimal =>
        obtain ⟨whole, fraction, text, wholeDigits, _⟩ := read?_eq_some_iff.mp read
        obtain ⟨digit, digits, rfl⟩ := List.exists_cons_of_ne_nil wholeDigits.1
        rw [List.cons_append, List.cons.injEq] at text
        rw [text.1] at noDigit
        exact absurd (wholeDigits.2 digit List.mem_cons_self) noDigit

/-- A word is classified by its meaning. -/
theorem Means.classifyWord_eq
    (means : Means word meaning) :
    classifyWord word = .ok (meaning.kind, meaning.payload word) := by
  have reserved := means.reserved?_eq
  cases means with
  | keyword listed =>
      unfold classifyWord
      rw [reserved]
      rfl
  | @float whole fraction value text wholeDigits fractionDigits rounds =>
      have read := read?_eq_some_iff.mpr ⟨_, _, text, wholeDigits, fractionDigits, rfl⟩
      have exact : value.Rounds
        (Decimal.value ⟨decimalValue (whole ++ fraction), fraction.length⟩) := rounds
      obtain ⟨isFinite, rfl⟩ := Binary64.rounds_value_iff.mp exact
      exact classifyWord_of_read? reserved read isFinite
  | integer digits inRange exact =>
      rw [← int32_eq_iff inRange] at exact
      rw [← digitsValue_eq] at inRange exact
      rw [classifyWord_of_isNumeral reserved (isNumeral_eq_true_iff.mpr digits) inRange, exact]
      rfl
  | name text isLetter continues notListed =>
      obtain ⟨notNatural, notDecimal⟩ := readNatural?_and_read?_of_isAlpha isLetter
      have isName := isIdentifier_iff.mpr ⟨_, _, rfl, isLetter, continues⟩
      unfold classifyWord
      dsimp only
      rw [reserved, text, notDecimal, notNatural, if_pos isName]
      rfl

/-- A word is classified as one of its meanings only. -/
theorem exists_means_of_classifyWord
    {kind : TokenKind} {payload : Payload}
    (classified : classifyWord word = .ok (kind, payload)) :
    ∃ meaning, Means word meaning ∧ kind = meaning.kind ∧ payload = meaning.payload word := by
  unfold classifyWord at classified
  dsimp only at classified
  split at classified
  · next result isReserved =>
      cases classified
      exact ⟨.keyword kind payload, .keyword (reserved?_eq_some_iff.mp isReserved), rfl, rfl⟩
  · next notReserved =>
      split at classified
      · next decimal read =>
          split at classified
          · next isFinite =>
              cases classified
              obtain ⟨whole, fraction, text, wholeDigits, fractionDigits, rfl⟩ :=
                read?_eq_some_iff.mp read
              have rounds := Binary64.rounds_value_iff.mpr ⟨isFinite, rfl⟩
              exact ⟨.float _, .float text wholeDigits fractionDigits rounds, rfl, rfl⟩
          · cases classified
      · split at classified
        · next value read =>
            split at classified
            · next inRange =>
                cases classified
                rw [Numeric.readNatural?, Option.ite_none_right_eq_some, digitsValue_eq,
                  isNumeral_eq_true_iff, Option.some.injEq] at read
                obtain ⟨digits, rfl⟩ := read
                have exact := (int32_eq_iff inRange).mp rfl
                exact ⟨.integer _, .integer digits inRange exact, rfl, rfl⟩
            · cases classified
        · split at classified
          · next isName =>
              cases classified
              obtain ⟨first, rest, text, isLetter, continues⟩ := isIdentifier_iff.mp isName
              have notListed := reserved?_eq_none_iff.mp
                (Option.eq_none_iff_forall_ne_some.mpr notReserved)
              exact ⟨.name, .name text isLetter continues notListed, rfl, rfl⟩
          · cases classified

/-- A word has at most one meaning. -/
theorem Means.unique
    {other : Meaning}
    (means : Means word meaning)
    (alsoMeans : Means word other) :
    meaning = other := by
  have sameKeyword := means.reserved?_eq.symm.trans alsoMeans.reserved?_eq
  have sameResult := means.classifyWord_eq.symm.trans alsoMeans.classifyWord_eq
  cases meaning <;> cases other <;>
    simp_all [Meaning.keyword?, Meaning.kind, Meaning.payload]

end

/-- Exactly the words with a meaning make a token, which has the text and the place of the word and
carries its meaning; no word has two meanings; and every other word is a syntax error where it
starts. -/
theorem ofWord_exact (word : String) (span : Span) :
    (∀ token, ofWord word span = .ok token ↔
      ∃ meaning, Means word meaning ∧
        token = ⟨meaning.kind, word, span, meaning.payload word⟩) ∧
    Set.Subsingleton {meaning | Means word meaning} ∧
    ((¬∃ meaning, Means word meaning) ↔
      ∃ cause, ofWord word span = .error ⟨.syntaxError cause, span.start⟩) := by
  have made (meaning : Meaning) (means : Means word meaning) :
      ofWord word span = .ok ⟨meaning.kind, word, span, meaning.payload word⟩ := by
    rw [ofWord, means.classifyWord_eq]
  refine ⟨fun token => ⟨fun read => ?_, ?_⟩, fun _ means _ => means.unique,
    fun meaningless => ?_, ?_⟩
  · obtain ⟨classified, rfl, rfl⟩ := ofWord_eq_ok read
    obtain ⟨meaning, means, kind, payload⟩ := exists_means_of_classifyWord classified
    exact ⟨meaning, means, by rw [← kind, ← payload]⟩
  · rintro ⟨meaning, means, rfl⟩
    exact made meaning means
  · cases classified : classifyWord word with
    | ok result =>
        obtain ⟨meaning, means, _⟩ := exists_means_of_classifyWord classified
        exact absurd ⟨meaning, means⟩ meaningless
    | error cause =>
        refine ⟨cause, ?_⟩
        rw [ofWord, classified]
        rfl
  · rintro ⟨cause, refused⟩ ⟨meaning, means⟩
    rw [made meaning means] at refused
    cases refused

end Token
end ScriptLang
