import ScriptLang.Proofs.Token.Coherent

/-!
# Texts in pieces

A text that is put together from words, punctuation, blanks and line breaks is cut
into just these words and punctuation again, if every word is followed by
something that ends it and no two slashes start a comment.
-/

namespace ScriptLang
namespace Token

open Source (Cursor Position Span)

/-- A part of a text: a word or a character of punctuation, or layout. -/
inductive Piece
  | written (token : Token)
  | blank
  | newLine

namespace Piece

/-- The characters of a piece. -/
def text : Piece -> List Char
  | .written token => token.value.toList
  | .blank => [' ']
  | .newLine => ['\n']

/-- The characters of several pieces. -/
def texts (pieces : List Piece) : List Char := pieces.flatMap text

@[simp] theorem texts_nil : texts [] = [] := rfl

@[simp] theorem texts_cons (piece : Piece) (rest : List Piece) :
    texts (piece :: rest) = piece.text ++ texts rest := rfl

@[simp] theorem texts_append (first second : List Piece) :
    texts (first ++ second) = texts first ++ texts second := by
  unfold texts
  rw [List.flatMap_append]

/-- A token where it stands in a text. -/
def placedAt (position : Position) (token : Token) : Token :=
  { token with span := .onLine position token.value.toList.length }

/-- The tokens of a text, each at its place. -/
def placed (position : Position) : List Piece -> List Token
  | [] => []
  | .written token :: rest =>
      placedAt position token :: placed (position.right token.value.toList.length) rest
  | .blank :: rest => placed (position.right 1) rest
  | .newLine :: rest => placed position.nextLine rest

/-- A text goes on with a character that ends a word. -/
def EndsWord (text : List Char) : Prop :=
  ∃ stop rest, isDelimiter stop = true ∧ text = stop :: rest

/-- What comes behind a token ends it if it is a word, and makes no comment of it if it is a
slash. -/
def Separates (token : Token) (behind : List Char) : Prop :=
  (token.IsWord ∧ EndsWord behind) ∨
    (token.IsPunctuation ∧ ¬ (token.value = "/" ∧ behind.head? = some '/'))

/-- Every token is separated from what comes behind it. -/
def Separated : List Piece -> Prop
  | [] => True
  | .written token :: rest => Separates token (texts rest) ∧ Separated rest
  | .blank :: rest => Separated rest
  | .newLine :: rest => Separated rest

end Piece

open Piece (texts placed placedAt)

/-- A character that ends no word is neither layout nor punctuation. -/
theorem not_delimiter_iff (character : Char) :
    isDelimiter character = false ↔
      Source.isBlank character = false ∧ Source.isLineBreak character = false ∧
        punctuation? character = none := by
  simp [isDelimiter, and_assoc]

/-- Punctuation is no layout. -/
theorem not_layout_of_punctuation?
    {character : Char} {kind : TokenKind}
    (isPunctuation : punctuation? character = some kind) :
    Source.isBlank character = false ∧ Source.isLineBreak character = false := by
  unfold punctuation? at isPunctuation
  split at isPunctuation <;> first | exact ⟨rfl, rfl⟩ | cases isPunctuation

theorem ne_carriageReturn_of_not_lineBreak
    {character : Char}
    (notBreak : Source.isLineBreak character = false) :
    character ≠ '\r' := by
  rintro rfl
  cases notBreak

theorem scan_blank (rest : List Char) (position : Position) :
    scan ⟨' ' :: rest, position⟩ = scan ⟨rest, position.right 1⟩ := by
  rw [scan]
  rfl

theorem scan_newLine (rest : List Char) (position : Position) :
    scan ⟨'\n' :: rest, position⟩ = scan ⟨rest, position.nextLine⟩ := by
  rw [scan]
  rfl

/-- A character of punctuation is scanned as one token. -/
theorem scan_punctuation
    {character : Char} {kind : TokenKind}
    (rest : List Char) (position : Position)
    (isPunctuation : punctuation? character = some kind)
    (noComment : ¬ (character = '/' ∧ rest.head? = some '/')) :
    scan ⟨character :: rest, position⟩ = do
      let others ← scan ⟨rest, position.right 1⟩
      return ofPunctuation kind character position :: others := by
  obtain ⟨notBlank, notBreak⟩ := not_layout_of_punctuation? isPunctuation
  have notPair : ¬ (character = '\r' ∧ rest.head? = some '\n') := fun isPair =>
    ne_carriageReturn_of_not_lineBreak notBreak isPair.1
  rw [scan, notBlank, notBreak, if_neg notPair, if_neg noComment, isPunctuation]
  rfl

/-- A word is scanned up to the character that ends it. -/
theorem scan_word
    {token : Token} {behind : List Char}
    (position : Position)
    (isWord : token.IsWord)
    (ends : Piece.EndsWord behind) :
    scan ⟨token.value.toList ++ behind, position⟩ = do
      let others ← scan ⟨behind, position.right token.value.toList.length⟩
      return placedAt position token :: others := by
  obtain ⟨classified, nonempty, undelimited⟩ := isWord
  obtain ⟨stop, others, isStop, rfl⟩ := ends
  obtain ⟨current, tail, valueIs⟩ := List.exists_cons_of_ne_nil nonempty
  rw [valueIs] at undelimited
  obtain ⟨currentUndelimited, tailUndelimited⟩ := List.forall_mem_cons.mp undelimited
  obtain ⟨notBlank, notBreak, notPunctuation⟩ := (not_delimiter_iff current).mp currentUndelimited
  have notPair : ¬ (current = '\r' ∧ (tail ++ stop :: others).head? = some '\n') := fun isPair =>
    ne_carriageReturn_of_not_lineBreak notBreak isPair.1
  have noComment : ¬ (current = '/' ∧ (tail ++ stop :: others).head? = some '/') := by
    rintro ⟨rfl, _⟩
    cases notPunctuation
  have found : before? isDelimiter (tail ++ stop :: others) = some tail :=
    (before?_eq_some_iff _ _ _).mpr ⟨tailUndelimited, stop, others, isStop, rfl⟩
  have whole : String.ofList (current :: tail) = token.value := by
    rw [← valueIs, String.ofList_toList]
  have read : ofWord (String.ofList (current :: tail))
      (.onLine position (current :: tail).length) = .ok (placedAt position token) := by
    rw [whole, ofWord, classified, ← valueIs]
    rfl
  rw [valueIs, List.cons_append, scan, notBlank, notBreak, if_neg notPair, if_neg noComment,
    notPunctuation]
  simp only [Bool.false_eq_true, if_false, found, read, ok_bind]
  simp [Cursor.advance]

/-- A text in separated pieces is scanned as its tokens. -/
theorem scan_texts
    {pieces : List Piece}
    (position : Position)
    (separated : Piece.Separated pieces) :
    scan ⟨texts pieces, position⟩ = .ok (placed position pieces) := by
  induction pieces generalizing position with
  | nil => rw [texts, List.flatMap_nil, scan, placed]
  | cons piece rest inductionHypothesis =>
      cases piece with
      | blank =>
          rw [Piece.texts_cons]
          exact (scan_blank _ _).trans (inductionHypothesis _ separated)
      | newLine =>
          rw [Piece.texts_cons]
          exact (scan_newLine _ _).trans (inductionHypothesis _ separated)
      | written token =>
          obtain ⟨separates, restSeparated⟩ := separated
          rw [Piece.texts_cons, Piece.text, placed]
          rcases separates with ⟨isWord, ends⟩ | ⟨⟨payload, character, isPunctuation, value⟩,
            noComment⟩
          · rw [scan_word position isWord ends, inductionHypothesis _ restSeparated]
            rfl
          · have text : token.value.toList = [character] := by
              rw [value]
              exact String.toList_singleton character
            have sameToken : ofPunctuation token.kind character position =
                placedAt position token := by
              unfold ofPunctuation placedAt
              rw [text, ← payload, ← value]
              rfl
            have noSlashes : ¬ (character = '/' ∧ (texts rest).head? = some '/') := by
              rintro ⟨rfl, isSlash⟩
              exact noComment ⟨value, isSlash⟩
            rw [text, List.singleton_append,
              scan_punctuation _ position isPunctuation noSlashes, List.length_singleton,
              inductionHypothesis _ restSeparated, ok_bind, sameToken]
            rfl

end Token
end ScriptLang
