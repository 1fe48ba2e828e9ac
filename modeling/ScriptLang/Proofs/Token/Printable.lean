import ScriptLang.Proofs.Numeric.Binary64
import ScriptLang.Proofs.Token.Coherent

/-!
# Printable leaves

A leaf is printable when its text is a word that is classified as that leaf again.
The main statement says that all leaves of the tokens of a source are printable:
names are words already, and numbers are written so that they are read back.
-/

namespace ScriptLang

open Numeric (Binary64 Decimal)
namespace Leaf

/-- The kind of the tokens that carry a leaf. -/
def tokenKind : Leaf -> TokenKind
  | .identifier _ => .identifier
  | .literal _ => .literal
  | .typeKeyword _ => .typeKeyword

/-- The token of a leaf, at no place in particular. -/
def token (content : Leaf) : Token :=
  ⟨content.tokenKind, content.toText, default, .leaf content⟩

/-- The text of a leaf is a word that is classified as the leaf. -/
def Printable (content : Leaf) : Prop := content.token.IsWord

/-- Type keywords are printable. -/
theorem printable_typeKeyword (ty : Ty) : (typeKeyword ty).Printable := by
  cases ty <;> exact .of_all (by rfl) (by decide) (by rfl)

/-- Truth values are printable. -/
theorem printable_bool (value : Bool) : (literal (.bool value)).Printable := by
  cases value <;> exact .of_all (by rfl) (by decide) (by rfl)

end Leaf

namespace Token

/-- A reserved word does not start with a digit. -/
theorem not_isDigit_of_reserved?
    {word : String} {result : TokenKind × Payload}
    (isReserved : reserved? word = some result) :
    ∃ first rest, word.toList = first :: rest ∧ first.isDigit = false := by
  unfold reserved? at isReserved
  split at isReserved <;>
    first
      | exact ⟨_, _, rfl, rfl⟩
      | cases isReserved

/-- A word that starts with a digit is not reserved. -/
theorem reserved?_eq_none
    {word : String} {first : Char} {rest : List Char}
    (text : word.toList = first :: rest)
    (isDigit : first.isDigit = true) :
    reserved? word = none := by
  cases found : reserved? word with
  | none => rfl
  | some result =>
      obtain ⟨other, others, sameText, notDigit⟩ := not_isDigit_of_reserved? found
      rw [text] at sameText
      cases sameText
      rw [isDigit] at notDigit
      cases notDigit

/-- What is read as a decimal is a numeral, a point, and a numeral. -/
theorem exists_of_read?_eq_some
    {word : List Char} {decimal : Decimal}
    (read : Decimal.read? word = some decimal) :
    ∃ whole fraction, word = whole ++ '.' :: fraction ∧
      Numeric.isNumeral whole = true ∧ Numeric.isNumeral fraction = true := by
  unfold Decimal.read? at read
  split at read
  · next whole fraction cut =>
      split at read
      · next numerals =>
          obtain ⟨wholeIsNumeral, fractionIsNumeral⟩ := Bool.and_eq_true_iff.mp numerals
          refine ⟨whole, fraction, ?_, wholeIsNumeral, fractionIsNumeral⟩
          rw [List.span_eq_takeWhile_dropWhile] at cut
          obtain ⟨wholeIs, behindIs⟩ := Prod.mk.inj cut
          rw [← wholeIs, ← behindIs]
          exact List.takeWhile_append_dropWhile.symm
      · cases read
  · cases read

/-- A numeral is no decimal, for want of a point. -/
theorem read?_eq_none_of_isNumeral
    {word : List Char}
    (isNumeral : Numeric.isNumeral word = true) :
    Decimal.read? word = none := by
  cases read : Decimal.read? word with
  | none => rfl
  | some decimal =>
      obtain ⟨whole, fraction, rfl, _⟩ := exists_of_read?_eq_some read
      have isDigit := ((Numeric.isNumeral_iff _).mp isNumeral).2 '.' (by simp)
      cases isDigit

/-- Digits and points end no word. -/
theorem not_delimiter_of_isDigit
    {character : Char}
    (isDigit : character.isDigit = true) :
    isDelimiter character = false := by
  cases delimits : isDelimiter character with
  | false => rfl
  | true =>
      simp only [isDelimiter, Source.isBlank, Source.isLineBreak, Bool.or_eq_true,
        decide_eq_true_eq] at delimits
      rcases delimits with ((rfl | rfl) | (rfl | rfl)) | isPunctuation
      · cases isDigit
      · cases isDigit
      · cases isDigit
      · cases isDigit
      · unfold punctuation? at isPunctuation
        split at isPunctuation <;> first | cases isDigit | cases isPunctuation

/-- A decimal is classified as the number that it is rounded to. -/
theorem classifyWord_of_read?
    {word : String} {decimal : Decimal}
    (notReserved : reserved? word = none)
    (read : Decimal.read? word.toList = some decimal)
    (isFinite : (Binary64.ofDecimal decimal).isFinite = true) :
    classifyWord word = .ok (.literal, .leaf (.literal (.float (Binary64.ofDecimal decimal)))) := by
  unfold classifyWord
  dsimp only
  simp only [notReserved, read, isFinite, if_true]

/-- A numeral is classified as its number if that is not too great. -/
theorem classifyWord_of_isNumeral
    {word : String}
    (notReserved : reserved? word = none)
    (isNumeral : Numeric.isNumeral word.toList = true)
    (small : Numeric.digitsValue word.toList ≤ greatestInt) :
    classifyWord word =
      .ok (.literal,
        .leaf (.literal (.int (Int32.ofNat (Numeric.digitsValue word.toList))))) := by
  have notDecimal := read?_eq_none_of_isNumeral isNumeral
  unfold classifyWord
  dsimp only
  simp only [notReserved, notDecimal, Numeric.readNatural?, isNumeral, small, if_true]

end Token

namespace Leaf

open Token (not_delimiter_of_isDigit)

/-- Whole numbers that literals can write are printable. -/
theorem printable_int
    {value : Nat}
    (small : value ≤ Token.greatestInt) :
    (literal (.int (Int32.ofNat value))).Printable := by
  have inRange : value < 2 ^ 31 := Nat.lt_succ_of_le small
  have integer : (Int32.ofNat value).toInt = value := Int32.toInt_ofNat_of_lt inRange
  have text : (literal (.int (Int32.ofNat value))).toText.toList = Numeric.digitsOf value := by
    change (toString (Int32.ofNat value).toInt).toList = _
    rw [integer]
    exact Nat.toList_repr
  have isNumeral := Numeric.isNumeral_digitsOf value
  obtain ⟨nonempty, digits⟩ := (Numeric.isNumeral_iff _).mp isNumeral
  obtain ⟨first, rest, starts⟩ := List.exists_cons_of_ne_nil nonempty
  have firstIsDigit := digits first (by rw [starts]; exact List.mem_cons_self)
  have notReserved := Token.reserved?_eq_none (text.trans starts) firstIsDigit
  refine ⟨?_, ?_, ?_⟩
  · have classified := Token.classifyWord_of_isNumeral notReserved
      (by rw [text]; exact isNumeral)
      (by rw [text, Numeric.digitsValue_digitsOf]; exact small)
    rw [text, Numeric.digitsValue_digitsOf] at classified
    exact classified
  · exact fun isEmpty => nonempty (text.symm.trans isEmpty)
  · intro character member
    have inDigits : character ∈ Numeric.digitsOf value := by
      rw [← text]
      exact member
    exact not_delimiter_of_isDigit (digits character inDigits)

/-- Finite numbers without a sign are printable. -/
theorem printable_float
    {number : Binary64}
    (isMagnitude : number.IsMagnitude) :
    (literal (.float number)).Printable := by
  obtain ⟨decimal, read, rounded⟩ := Binary64.exists_read?_toText isMagnitude
  obtain ⟨whole, fraction, text, wholeIsNumeral, fractionIsNumeral⟩ :=
    Token.exists_of_read?_eq_some read
  obtain ⟨nonempty, wholeDigits⟩ := (Numeric.isNumeral_iff _).mp wholeIsNumeral
  obtain ⟨_, fractionDigits⟩ := (Numeric.isNumeral_iff _).mp fractionIsNumeral
  obtain ⟨first, rest, rfl⟩ := List.exists_cons_of_ne_nil nonempty
  have notReserved := Token.reserved?_eq_none text (wholeDigits first List.mem_cons_self)
  have isFinite : (Binary64.ofDecimal decimal).isFinite = true := by
    rw [rounded]
    apply decide_eq_true
    rw [Binary64.magnitudeBits_of_isMagnitude isMagnitude]
    exact isMagnitude
  refine ⟨?_, ?_, ?_⟩
  · have classified := Token.classifyWord_of_read? notReserved read isFinite
    rw [rounded] at classified
    exact classified
  · intro isEmpty
    change number.toText.toList = [] at isEmpty
    rw [text] at isEmpty
    cases isEmpty
  · intro character member
    change character ∈ number.toText.toList at member
    rw [text] at member
    rcases List.mem_append.mp member with inWhole | behind
    · exact not_delimiter_of_isDigit (wholeDigits character inWhole)
    · rcases List.mem_cons.mp behind with rfl | inFraction
      · rfl
      · exact not_delimiter_of_isDigit (fractionDigits character inFraction)

end Leaf

namespace Token

/-- The leaf that a token carries is printable. -/
def CarriesPrintable (token : Token) : Prop :=
  ∀ content, token.payload = .leaf content -> content.Printable

/-- Every literal that a word is classified as is printable. -/
theorem printable_of_classifyWord
    {word : String} {value : Literal}
    (classified : classifyWord word = .ok (.literal, .leaf (.literal value))) :
    (Leaf.literal value).Printable := by
  unfold classifyWord at classified
  split at classified
  · next result isReserved =>
      cases classified
      unfold reserved? at isReserved
      split at isReserved <;> cases isReserved
      · exact Leaf.printable_bool true
      · exact Leaf.printable_bool false
  · dsimp only at classified
    split at classified
    · split at classified
      · next isFinite =>
          cases classified
          exact Leaf.printable_float (Binary64.isMagnitude_of_isFinite isFinite)
      · cases classified
    · split at classified
      · split at classified
        · next small =>
            cases classified
            exact Leaf.printable_int small
        · cases classified
      · split at classified <;> cases classified

theorem IsWord.carriesPrintable
    {token : Token}
    (isWord : token.IsWord) :
    token.CarriesPrintable := by
  intro content carried
  have classified := isWord.classified
  rw [carried] at classified
  rcases classifyWord_eq_ok classified with
    ⟨kind, payload⟩ | ⟨kind, value, payload⟩ | ⟨kind, ty, payload⟩ | ⟨_, payload⟩
  · cases payload
    rw [kind] at classified
    exact ⟨classified, isWord.nonempty, isWord.undelimited⟩
  · cases payload
    rw [kind] at classified
    exact printable_of_classifyWord classified
  · cases payload
    exact Leaf.printable_typeKeyword ty
  · cases payload

theorem IsPunctuation.carriesPrintable
    {token : Token}
    (isPunctuation : token.IsPunctuation) :
    token.CarriesPrintable := by
  intro content carried
  rw [isPunctuation.1] at carried
  cases carried

/-- Joining pairs makes no leaves. -/
theorem carriesPrintable_of_joinPairs
    {tokens : List Token}
    (printable : ∀ token ∈ tokens, token.CarriesPrintable) :
    ∀ token ∈ joinPairs tokens, token.CarriesPrintable := by
  fun_induction joinPairs tokens with
  | case1 first second rest kind joined inductionHypothesis =>
      obtain ⟨_, restPrintable⟩ := List.forall_mem_cons.mp printable
      refine List.forall_mem_cons.mpr ⟨?_, ?_⟩
      · rintro content ⟨⟩
      · exact inductionHypothesis (List.forall_mem_cons.mp restPrintable).2
  | case2 first second rest notJoined inductionHypothesis =>
      obtain ⟨firstPrintable, restPrintable⟩ := List.forall_mem_cons.mp printable
      exact List.forall_mem_cons.mpr ⟨firstPrintable, inductionHypothesis restPrintable⟩
  | case3 tokens notTwo => exact printable

theorem carriesPrintable_withBinding
    {token : Token}
    (printable : token.CarriesPrintable) :
    token.withBinding.CarriesPrintable := by
  unfold withBinding
  split
  · rintro content ⟨⟩
  · exact printable

/-- All leaves of the tokens of a source are printable. -/
theorem carriesPrintable_of_tokenize
    {source file : String} {tokens : List Token}
    (tokenized : tokenize source file = .ok tokens) :
    ∀ token ∈ tokens, token.CarriesPrintable := by
  obtain ⟨scanned, scanning, result⟩ := (bind_eq_ok_iff _ _ _).mp tokenized
  cases result
  have printable : ∀ token ∈ scanned, token.CarriesPrintable := by
    intro token member
    rcases isWord_or_isPunctuation_of_scan scanning token member with isWord | isPunctuation
    · exact isWord.carriesPrintable
    · exact isPunctuation.carriesPrintable
  intro token member
  obtain ⟨joined, inJoined, rfl⟩ := List.mem_map.mp member
  exact carriesPrintable_withBinding (carriesPrintable_of_joinPairs printable joined inJoined)

end Token
end ScriptLang
