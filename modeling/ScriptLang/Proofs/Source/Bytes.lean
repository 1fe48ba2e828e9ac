import Mathlib.Data.List.Forall2
import ScriptLang.Proofs.Source.Place

/-!
# Lines of bytes

A text as its UTF-8 bytes, cut at the bytes of line breaks by a loop that only
knows where the current line starts and where it reads.  The main statement says
that the stretches of bytes that it finds are those of the lines of the text, so
that none of them starts or ends inside a character.
-/

namespace ScriptLang
namespace Source

/-- The UTF-8 bytes of a text. -/
def utf8 (text : List Char) : List UInt8 := text.flatMap String.utf8EncodeChar

/-- The bytes of a string are those of its characters. -/
theorem toList_toUTF8 (source : String) : source.toUTF8.data.toList = utf8 source.toList := by
  have again := String.toByteArray_ofList (l := source.toList)
  rw [String.ofList_toList] at again
  rw [String.toUTF8_eq_toByteArray, again, List.utf8Encode, List.data_toByteArray]
  rfl

theorem utf8_append (first second : List Char) :
    utf8 (first ++ second) = utf8 first ++ utf8 second := List.flatMap_append

theorem utf8_cons (character : Char) (rest : List Char) :
    utf8 (character :: rest) = String.utf8EncodeChar character ++ utf8 rest := List.flatMap_cons

/-- The stretches of the lines of the bytes that are not read yet, where `start` is the number of
the first byte of the current line and `index` that of the next byte. -/
def byteRanges (start index : Nat) : List UInt8 -> List (Nat × Nat)
  | [] => [(start, index)]
  | 13 :: 10 :: rest => (start, index) :: byteRanges (index + 2) (index + 2) rest
  | byte :: rest =>
      if byte = 10 ∨ byte = 13 then (start, index) :: byteRanges (index + 1) (index + 1) rest
      else byteRanges start (index + 1) rest

/-- A stretch of bytes is that of a line of a text. -/
def IsRangeOf (text : List Char) (range : Nat × Nat) (line : List Char) : Prop :=
  ∃ before after, text = before ++ line ++ after ∧
    range = ((utf8 before).length, (utf8 (before ++ line)).length)

/-! ## Bytes of characters -/

/-- The byte of a number that is no break. -/
theorem ne_of_eq_ofNat
    {value : Nat} {byte : UInt8}
    (inRange : value < 256)
    (notBreak : value ≠ 10 ∧ value ≠ 13)
    (same : byte = UInt8.ofNat value) :
    byte ≠ 10 ∧ byte ≠ 13 := by
  have number : byte.toNat = value := by
    rw [same, UInt8.toNat_ofNat', Nat.mod_eq_of_lt inRange]
  constructor
  · rintro rfl
    exact notBreak.1 number.symm
  · rintro rfl
    exact notBreak.2 number.symm

/-- Only line breaks have the bytes of line breaks: all other characters are bytes of their own or
made of bytes from 128 on. -/
theorem ne_of_mem_utf8EncodeChar
    {character : Char} {byte : UInt8}
    (notBreak : isLineBreak character = false)
    (member : byte ∈ String.utf8EncodeChar character) :
    byte ≠ 10 ∧ byte ≠ 13 := by
  have notBreakNumber : character.val.toNat ≠ 10 ∧ character.val.toNat ≠ 13 := by
    constructor <;> intro same
    · have isFeed : character = '\n' := Char.ext (UInt32.toNat_inj.mp same)
      rw [isFeed] at notBreak
      cases notBreak
    · have isReturn : character = '\r' := Char.ext (UInt32.toNat_inj.mp same)
      rw [isReturn] at notBreak
      cases notBreak
  unfold String.utf8EncodeChar at member
  dsimp only at member
  split at member
  · exact ne_of_eq_ofNat (by omega) notBreakNumber (List.mem_singleton.mp member)
  · split at member
    · simp only [List.mem_cons, List.not_mem_nil, or_false] at member
      rcases member with same | same <;> exact ne_of_eq_ofNat (by omega) (by omega) same
    · split at member
      · simp only [List.mem_cons, List.not_mem_nil, or_false] at member
        rcases member with same | same | same <;>
          exact ne_of_eq_ofNat (by omega) (by omega) same
      · simp only [List.mem_cons, List.not_mem_nil, or_false] at member
        rcases member with same | same | same | same <;>
          exact ne_of_eq_ofNat (by omega) (by omega) same

/-- Every character has a byte. -/
theorem utf8EncodeChar_ne_nil (character : Char) : String.utf8EncodeChar character ≠ [] := by
  unfold String.utf8EncodeChar
  dsimp only
  repeat' split
  all_goals exact List.cons_ne_nil _ _

/-- The bytes of a text start with a line feed only if the text does. -/
theorem head?_eq_of_head?_utf8
    {text : List Char}
    (startsWithFeed : (utf8 text).head? = some 10) :
    text.head? = some '\n' := by
  cases text with
  | nil => cases startsWithFeed
  | cons character rest =>
      obtain ⟨byte, others, isBytes⟩ :=
        List.exists_cons_of_ne_nil (utf8EncodeChar_ne_nil character)
      rw [utf8_cons, isBytes] at startsWithFeed
      obtain rfl := Option.some.inj startsWithFeed
      cases isBreak : isLineBreak character with
      | false =>
          have member : (10 : UInt8) ∈ String.utf8EncodeChar character := by
            rw [isBytes]
            exact List.mem_cons_self
          exact absurd rfl (ne_of_mem_utf8EncodeChar isBreak member).1
      | true =>
          simp only [isLineBreak, Bool.or_eq_true, decide_eq_true_eq] at isBreak
          rcases isBreak with rfl | rfl
          · rfl
          · cases isBytes

/-! ## The loop -/

section

variable (start index : Nat)

/-- The loop passes bytes that are no breaks. -/
theorem byteRanges_append
    {passed : List UInt8}
    (unbroken : ∀ byte ∈ passed, byte ≠ 10 ∧ byte ≠ 13)
    (behind : List UInt8) :
    byteRanges start index (passed ++ behind) =
      byteRanges start (index + passed.length) behind := by
  induction passed generalizing index with
  | nil => rfl
  | cons byte others inductionHypothesis =>
      obtain ⟨⟨notFeed, notReturn⟩, othersUnbroken⟩ := List.forall_mem_cons.mp unbroken
      have noBreak : ¬ (byte = 10 ∨ byte = 13) := by simp [notFeed, notReturn]
      rw [List.cons_append, byteRanges, if_neg noBreak, inductionHypothesis _ othersUnbroken,
        List.length_cons, Nat.add_assoc, Nat.add_comm 1]
      rintro rest rfl _
      exact notReturn rfl

theorem byteRanges_of_not_isLineBreak
    {character : Char}
    (notBreak : isLineBreak character = false)
    (rest : List Char) :
    byteRanges start index (utf8 (character :: rest)) =
      byteRanges start (index + (utf8 [character]).length) (utf8 rest) := by
  have bytes : utf8 [character] = String.utf8EncodeChar character := List.append_nil _
  rw [utf8_cons, bytes]
  exact byteRanges_append start index
    (fun byte member => ne_of_mem_utf8EncodeChar notBreak member) _

theorem byteRanges_of_pair (rest : List Char) :
    byteRanges start index (utf8 ('\r' :: '\n' :: rest)) =
      (start, index) :: byteRanges (index + 2) (index + 2) (utf8 rest) := by
  change byteRanges start index (13 :: 10 :: utf8 rest) = _
  rw [byteRanges]

theorem byteRanges_of_isLineBreak
    {character : Char} {rest : List Char}
    (isBreak : isLineBreak character = true)
    (notPair : ¬ (character = '\r' ∧ rest.head? = some '\n')) :
    byteRanges start index (utf8 (character :: rest)) =
      (start, index) :: byteRanges (index + 1) (index + 1) (utf8 rest) := by
  simp only [isLineBreak, Bool.or_eq_true, decide_eq_true_eq] at isBreak
  rcases isBreak with rfl | rfl
  · change byteRanges start index (10 :: utf8 rest) = _
    rw [byteRanges]
    · rfl
    · rintro others ⟨⟩
  · change byteRanges start index (13 :: utf8 rest) = _
    rw [byteRanges]
    · rfl
    · intro others _ startsWithFeed
      refine notPair ⟨rfl, head?_eq_of_head?_utf8 ?_⟩
      rw [startsWithFeed]
      rfl

end

/-- The loop inside a text: the current line goes on with the first line of the rest. -/
theorem byteRanges_of_lines
    {text before current rest head : List Char} {others : List (List Char)}
    (isText : text = before ++ current ++ rest)
    (cut : lines rest = head :: others) :
    List.Forall₂ (IsRangeOf text)
      (byteRanges (utf8 before).length (utf8 (before ++ current)).length (utf8 rest))
      ((current ++ head) :: others) := by
  fun_induction lines rest generalizing before current head others with
  | case1 =>
      cases cut
      exact .cons ⟨before, [], by simp [isText], by simp⟩ .nil
  | case2 rest inductionHypothesis =>
      obtain ⟨rfl, rfl⟩ := List.cons.inj cut
      obtain ⟨next, more, restCut⟩ := List.exists_cons_of_ne_nil (lines_ne_nil rest)
      have isNext : text = (before ++ current ++ ['\r', '\n']) ++ [] ++ rest := by simp [isText]
      have later := inductionHypothesis isNext restCut
      rw [List.append_nil, List.nil_append, ← restCut, utf8_append _ ['\r', '\n'],
        List.length_append] at later
      rw [List.append_nil, byteRanges_of_pair]
      exact .cons ⟨before, _, isText, rfl⟩ later
  | case3 character rest notPair isBreak inductionHypothesis =>
      obtain ⟨rfl, rfl⟩ := List.cons.inj cut
      obtain ⟨next, more, restCut⟩ := List.exists_cons_of_ne_nil (lines_ne_nil rest)
      have isNext : text = (before ++ current ++ [character]) ++ [] ++ rest := by simp [isText]
      have later := inductionHypothesis isNext restCut
      have oneByte : (utf8 [character]).length = 1 := by
        simp only [isLineBreak, Bool.or_eq_true, decide_eq_true_eq] at isBreak
        rcases isBreak with rfl | rfl <;> rfl
      rw [List.append_nil, List.nil_append, ← restCut, utf8_append _ [character],
        List.length_append, oneByte] at later
      rw [List.append_nil, byteRanges_of_isLineBreak _ _ isBreak]
      · exact .cons ⟨before, _, isText, rfl⟩ later
      · rintro ⟨rfl, startsWithFeed⟩
        obtain ⟨tail, rfl⟩ := List.head?_eq_some_iff.mp startsWithFeed
        exact notPair tail rfl rfl
  | case4 character rest notPair notBreak inductionHypothesis =>
      obtain ⟨next, more, restCut⟩ := List.exists_cons_of_ne_nil (lines_ne_nil rest)
      rw [restCut] at cut
      obtain ⟨rfl, rfl⟩ := List.cons.inj cut
      have isNext : text = before ++ (current ++ [character]) ++ rest := by simp [isText]
      have later := inductionHypothesis isNext restCut
      rw [← List.append_assoc before, utf8_append _ [character], List.length_append,
        List.append_assoc, List.singleton_append] at later
      rw [byteRanges_of_not_isLineBreak _ _ (Bool.eq_false_iff.mpr notBreak)]
      exact later

/-- The stretches of bytes of a text are those of its lines. -/
theorem byteRanges_eq_lines (text : List Char) :
    List.Forall₂ (IsRangeOf text) (byteRanges 0 0 (utf8 text)) (lines text) := by
  obtain ⟨head, others, cut⟩ := List.exists_cons_of_ne_nil (lines_ne_nil text)
  have isText : text = [] ++ [] ++ text := rfl
  rw [cut]
  exact byteRanges_of_lines isText cut

end Source
end ScriptLang
