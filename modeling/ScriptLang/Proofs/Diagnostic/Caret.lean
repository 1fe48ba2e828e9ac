import ScriptLang.Diagnostic.Render
import ScriptLang.Proofs.Source.Place

/-!
# The caret of a rendered diagnostic

The last two lines of a rendered diagnostic are the row of its line and the row of
its caret.  The caret stands where the row of the line has the character of the
column of the diagnostic, or would have it if the white space at its end were not
removed.
-/

namespace ScriptLang

namespace Source

/-- A line is its indentation and the rest of it. -/
theorem indentation_append_withoutIndentation (line : List Char) :
    line.takeWhile isBlank ++ withoutIndentation line = line :=
  List.takeWhile_append_dropWhile

/-- What a line has from a column behind its indentation on is found in the rest of the line. -/
theorem drop_withoutIndentation
    {line : List Char} {column : Nat}
    (inText : indentation line ≤ column) :
    (withoutIndentation line).drop (column - indentation line) = line.drop column := by
  have behind : (line.takeWhile isBlank ++ withoutIndentation line).drop column =
      (withoutIndentation line).drop (column - indentation line) := by
    rw [List.drop_append, List.drop_of_length_le inText, List.nil_append, indentation]
  rw [indentation_append_withoutIndentation] at behind
  exact behind.symm

/-- A line is not longer than its indentation and the rest of it. -/
theorem length_withoutIndentation (line : List Char) :
    indentation line + (withoutIndentation line).length = line.length := by
  have whole := congrArg List.length (indentation_append_withoutIndentation line)
  rwa [List.length_append] at whole

/-- A character that is no blank stands behind the indentation of its line. -/
theorem indentation_le_of_not_isBlank
    {row : List Char} {column : Nat} {character : Char}
    (found : row[column]? = some character)
    (notBlank : isBlank character = false) :
    indentation row ≤ column := by
  rcases Nat.lt_or_ge column (indentation row) with inIndentation | behindIndentation
  · rw [← indentation_append_withoutIndentation row,
      List.getElem?_append_left inIndentation] at found
    have allBlank := List.all_eq_true.mp (List.all_takeWhile (p := isBlank) (l := row))
    rw [allBlank character (List.mem_of_getElem? found)] at notBlank
    cases notBlank
  · exact behindIndentation

end Source

namespace Diagnostic

open Source (Position lines indentation withoutIndentation trimEnd)

/-- The row of a text behind the number of its line. -/
def textRow (number : Nat) (text : List Char) : List Char :=
  (toString number).toList ++ ' ' :: '|' :: ' ' :: text

/-- The last two lines of a rendered diagnostic are the row of the given line, whose end is
trimmed, and a row that ends in its only caret.  As many characters as stand in front of the
caret stand in the row that is not trimmed in front of what the line has from the column of the
diagnostic on.  So if the trimmed row has a character above the caret, it is the one in this
column. -/
def PointsAt (diagnostic : Diagnostic) (source : String) (content : List Char) : Prop :=
  ∃ above lead shown,
    lines (diagnostic.render source).toList =
      above ++ [textRow diagnostic.position.line (trimEnd (withoutIndentation content)),
        lead ++ ['^'], []] ∧
    '^' ∉ lead ∧
    textRow diagnostic.position.line (withoutIndentation content) =
      shown ++ content.drop diagnostic.position.column ∧
    shown.length = lead.length ∧
    ∀ character,
      (textRow diagnostic.position.line (trimEnd (withoutIndentation content)))[lead.length]? =
        some character -> content[diagnostic.position.column]? = some character

/-- The rows of a diagnostic that is shown with the given line. -/
def rowsWith (diagnostic : Diagnostic) (line : List Char) : List String :=
  [headline diagnostic.issue, s!"-> {diagnostic.position.file}",
    margin diagnostic.position.line,
    s!"{diagnostic.position.line} | {shownLine line}",
    s!"{margin diagnostic.position.line} {caretRow line diagnostic.position.column}"]

/-- What stands in front of the caret. -/
def caretLead (number : Nat) (line : List Char) (column : Nat) : List Char :=
  List.replicate ((toString number).length + 1) ' ' ++
    '|' :: ' ' :: List.replicate (column - indentation line) '-'

theorem length_caretLead (number : Nat) (line : List Char) (column : Nat) :
    (caretLead number line column).length =
      (toString number).toList.length + (column - indentation line + 3) := by
  unfold caretLead
  rw [List.length_append, List.length_cons, List.length_cons, List.length_replicate,
    List.length_replicate, String.length_toList]
  omega

/-- The row of a line is cut by the place of the caret where the line is cut by a column. -/
theorem exists_textRow_eq
    {line : List Char} {column : Nat}
    (number : Nat)
    (inText : indentation line ≤ column)
    (inLine : column ≤ line.length) :
    ∃ shown,
      textRow number (withoutIndentation line) = shown ++ line.drop column ∧
      shown.length = (caretLead number line column).length := by
  refine ⟨textRow number ((withoutIndentation line).take (column - indentation line)), ?_, ?_⟩
  · rw [← Source.drop_withoutIndentation inText]
    simp [textRow]
  · have whole := Source.length_withoutIndentation line
    rw [length_caretLead, textRow, List.length_append, List.length_cons, List.length_cons,
      List.length_cons, List.length_take]
    omega

theorem unbroken_toString (number : Nat) :
    ∀ character ∈ (toString number).toList, Source.isLineBreak character = false := by
  intro character member
  have inDigits : character ∈ Nat.toDigits 10 number := by
    rw [← String.toList_ofList (l := Nat.toDigits 10 number)]
    exact member
  have isDigit := Nat.isDigit_of_mem_toDigits (by decide) (by decide) inDigits
  cases isBreak : Source.isLineBreak character with
  | false => rfl
  | true =>
      simp only [Source.isLineBreak, Bool.or_eq_true, decide_eq_true_eq] at isBreak
      rcases isBreak with rfl | rfl <;> cases isDigit

section

variable {diagnostic : Diagnostic} {source : String} {line : List Char}

/-- A diagnostic whose line is in the source is shown with it. -/
theorem rows_of_lineAt?
    (isLine : lineAt? source diagnostic.position = some line) :
    diagnostic.rows source = diagnostic.rowsWith line := by
  unfold rows
  dsimp only
  rw [isLine]
  rfl

theorem toList_textRow (number : Nat) (line : List Char) :
    s!"{number} | {shownLine line}".toList =
      textRow number (trimEnd (withoutIndentation line)) := by
  change (toString number ++ " | " ++ shownLine line).toList = _
  have bar : " | ".toList = [' ', '|', ' '] := rfl
  rw [String.toList_append, String.toList_append, bar, shownLine, String.toList_ofList, textRow,
    List.append_assoc]
  rfl

theorem toList_caretRow (number : Nat) (line : List Char) (column : Nat) :
    s!"{margin number} {caretRow line column}".toList = caretLead number line column ++ ['^'] := by
  change (margin number ++ " " ++ caretRow line column).toList = _
  rw [String.toList_append, String.toList_append, margin, caretRow, String.toList_ofList,
    String.toList_ofList, caretLead]
  simp

/-- Two rows behind other ones, each with a line feed behind it. -/
theorem toList_rows (above row caret : String) :
    (above ++ "\n" ++ row ++ "\n" ++ caret ++ "\n").toList =
      above.toList ++ '\n' :: (row.toList ++ '\n' :: (caret.toList ++ ['\n'])) := by
  simp

/-- A rendered diagnostic ends in the row of its line and the row of its caret. -/
theorem exists_toList_render
    (isLine : lineAt? source diagnostic.position = some line) :
    ∃ above, (diagnostic.render source).toList =
      above ++ '\n' :: (textRow diagnostic.position.line (trimEnd (withoutIndentation line)) ++
        '\n' :: (caretLead diagnostic.position.line line diagnostic.position.column ++ ['^'] ++
          ['\n'])) := by
  unfold render
  rw [rows_of_lineAt? isLine, rowsWith, ← toList_textRow, ← toList_caretRow]
  exact ⟨_, toList_rows _ _ _⟩

theorem unbroken_textRow
    {text : List Char}
    (number : Nat)
    (unbroken : ∀ character ∈ text, Source.isLineBreak character = false) :
    ∀ character ∈ textRow number text, Source.isLineBreak character = false := by
  have digits := unbroken_toString number
  simp only [textRow, List.forall_mem_append, List.forall_mem_cons]
  exact ⟨digits, rfl, rfl, rfl, unbroken⟩

/-- What stands in front of a caret is made of blanks, a bar and dashes. -/
theorem mem_of_mem_caretLead
    {number : Nat} {line : List Char} {column : Nat} {character : Char}
    (member : character ∈ caretLead number line column) :
    character ∈ [' ', '|', '-'] := by
  simp only [caretLead, List.mem_append, List.mem_cons, List.mem_replicate] at member
  rcases member with ⟨_, rfl⟩ | rfl | rfl | ⟨_, rfl⟩ <;> decide

/-- The row of a trimmed text is the start of the row of the whole text. -/
theorem textRow_trimEnd_isPrefix (number : Nat) (text : List Char) :
    textRow number (trimEnd text) <+: textRow number text :=
  (List.prefix_append_right_inj _).mpr
    ((List.prefix_append_right_inj [' ', '|', ' ']).mpr (Source.trimEnd_isPrefix text))

/-- A diagnostic whose place is in the text of a line is rendered with a caret below it. -/
theorem pointsAt_of_lineAt?
    (isLine : lineAt? source diagnostic.position = some line)
    (inText : indentation line ≤ diagnostic.position.column)
    (inLine : diagnostic.position.column ≤ line.length) :
    diagnostic.PointsAt source line := by
  obtain ⟨above, isText⟩ := exists_toList_render isLine
  have textUnbroken : ∀ character ∈ trimEnd (withoutIndentation line),
      Source.isLineBreak character = false := by
    intro character member
    refine Source.unbroken_of_mem_lines (Source.mem_lines_of_line? isLine) character ?_
    exact (List.dropWhile_sublist _).mem ((Source.trimEnd_isPrefix _).mem member)
  have caretUnbroken : ∀ character ∈
      caretLead diagnostic.position.line line diagnostic.position.column ++ ['^'],
      Source.isLineBreak character = false := by
    refine List.forall_mem_append.mpr ⟨?_, List.forall_mem_singleton.mpr rfl⟩
    intro character member
    have kinds := mem_of_mem_caretLead member
    simp only [List.mem_cons, List.not_mem_nil, or_false] at kinds
    rcases kinds with rfl | rfl | rfl <;> rfl
  obtain ⟨earlier, cut⟩ := Source.exists_lines_append_feed above
    (textRow diagnostic.position.line (trimEnd (withoutIndentation line)) ++
        '\n' :: (caretLead diagnostic.position.line line diagnostic.position.column ++ ['^'] ++
          ['\n']))
  rw [← isText, Source.lines_append_feed (unbroken_textRow _ textUnbroken),
    Source.lines_append_feed caretUnbroken, Source.lines_nil] at cut
  obtain ⟨shown, isRow, sameLength⟩ :=
    exists_textRow_eq diagnostic.position.line inText inLine
  refine ⟨earlier, _, shown, cut, ?_, isRow, sameLength, ?_⟩
  · intro member
    exact absurd (mem_of_mem_caretLead member) (by decide)
  · intro character found
    obtain ⟨removed, whole⟩ :=
      textRow_trimEnd_isPrefix diagnostic.position.line (withoutIndentation line)
    obtain ⟨inRow, _⟩ := List.getElem?_eq_some_iff.mp found
    rw [← List.getElem?_append_left inRow, whole, isRow,
      List.getElem?_append_right (Nat.le_of_eq sameLength), sameLength, Nat.sub_self,
      List.getElem?_drop] at found
    exact found

end

end Diagnostic
end ScriptLang
