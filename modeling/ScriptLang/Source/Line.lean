/-!
# Lines

A line ends at a line feed, at a carriage return, or at the pair of both, which
is one break.  `lines` cuts a text at its line breaks; a text with `n` breaks has
`n + 1` lines, so the last line may be empty.
-/

namespace ScriptLang
namespace Source

/-- Whether a character is a line break or a part of one. -/
def isLineBreak (character : Char) : Bool :=
  character = '\n' || character = '\r'

/-- Whether a character is a blank, that is a space or a tab. -/
def isBlank (character : Char) : Bool :=
  character = ' ' || character = '\t'

/-- Put a character in front of the first line. -/
def prependToFirst (character : Char) : List (List Char) -> List (List Char)
  | [] => [[character]]
  | line :: others => (character :: line) :: others

/-- The lines of a text, without their line breaks. -/
def lines : List Char -> List (List Char)
  | [] => [[]]
  | '\r' :: '\n' :: rest => [] :: lines rest
  | character :: rest =>
      if isLineBreak character then [] :: lines rest
      else prependToFirst character (lines rest)

@[simp] theorem lines_nil : lines [] = [[]] := rfl

@[simp] theorem lines_pair (rest : List Char) :
    lines ('\r' :: '\n' :: rest) = [] :: lines rest := by
  simp [lines]

/-- Every text has at least one line. -/
theorem lines_ne_nil (text : List Char) : lines text ≠ [] := by
  fun_induction lines text with
  | case1 => simp
  | case2 rest inductionHypothesis => simp
  | case3 character rest notPair isBreak inductionHypothesis => simp
  | case4 character rest notPair notBreak inductionHypothesis =>
      cases lines rest <;> simp [prependToFirst]

/-- The number of blanks at the start of a line. -/
def indentation (line : List Char) : Nat :=
  (line.takeWhile isBlank).length

/-- A line without the blanks at its start. -/
def withoutIndentation (line : List Char) : List Char :=
  line.dropWhile isBlank

/-- The line with a given number, where the first line has number one. -/
def line? (text : List Char) (number : Nat) : Option (List Char) :=
  if number = 0 then none else (lines text)[number - 1]?

end Source
end ScriptLang
