import ScriptLang.Proofs.Source.Place
import ScriptLang.Proofs.Token.Indexed
import ScriptLang.Proofs.Token.LineWise

/-!
# What a scan decides

A source is scanned exactly if all its words are classified and nothing is left
open at its end; otherwise the first item that has no token is reported where it
starts.
-/

namespace ScriptLang
namespace Token

open Source (Position lines unbroken_of_mem_lines)

/-- Whether a group is a word. -/
def isWord (group : List Char) : Bool := group.all fun character => !isDelimiter character

/-- Whether a word is classified. -/
def isClassified (word : List Char) : Bool := (classifyWord (String.ofList word)).isOk

/-- The words of a line outside of its comment. -/
def lineWords (line : List Char) : List (List Char) := (groups (code line)).filter isWord

/-- The words of a source outside of its comments. -/
def words (source : String) : List (List Char) := (lines source.toList).flatMap lineWords

/-- A line ends with a character of a word, outside of a comment. -/
def EndsWithWord (line : List Char) : Prop :=
  isCommented line = false ∧ ∃ last, line.getLast? = some last ∧ isDelimiter last = false

/-- A source ends inside a word. -/
def EndsInWord (source : String) : Prop :=
  ∃ line, (lines source.toList).getLast? = some line ∧ EndsWithWord line

/-- A source ends inside a comment. -/
def EndsInComment (source : String) : Prop :=
  ∃ line, (lines source.toList).getLast? = some line ∧ isCommented line = true

namespace Item

variable (text : List Char) (position : Position)

/-- An item is read if it has a token. -/
theorem isOk_read (item : Item) : item.read.isOk = item.token.isOk := by
  rw [read]
  cases item.token <;> rfl

/-- What is wrong with an item is reported where it starts. -/
theorem read_eq_error_iff (item : Item) (diagnostic : Diagnostic) :
    item.read = .error diagnostic ↔
      ∃ cause, item.token = .error cause ∧ diagnostic = .ofSyntax cause item.position := by
  rw [read]
  cases item.token with
  | error cause => simp [Except.mapError, eq_comm]
  | ok token => simp [Except.mapError]

@[simp] theorem isOk_read_mark (kind : TokenKind) (character : Char) :
    (mark kind character position).read.isOk = true := rfl

@[simp] theorem isOk_read_openWord : (openWord text position).read.isOk = false := rfl

@[simp] theorem isOk_read_openComment : (openComment position).read.isOk = false := rfl

/-- A word is read if it is classified. -/
@[simp] theorem isOk_read_word : (word text position).read.isOk = isClassified text := by
  rw [isOk_read, token, isClassified]
  cases classifyWord (String.ofList text) <;> rfl

end Item

/-- What is outside of a comment stands on the line. -/
theorem code_sublist (line : List Char) : (code line).Sublist line := by
  fun_induction code line with
  | case1 => exact .slnil
  | case2 rest => exact List.nil_sublist _
  | case3 first rest noComment inductionHypothesis => exact inductionHypothesis.cons_cons first

/-- A group of characters of one line, which are all delimiters or all not. -/
structure IsGroup (group : List Char) : Prop where
  nonempty : group ≠ []
  unbroken : ∀ character ∈ group, Source.isLineBreak character = false
  alike : ∀ first ∈ group, ∀ second ∈ group, isDelimiter first = isDelimiter second

/-- Groups of an unbroken text are such groups. -/
theorem isGroup_of_mem_groups
    {text group : List Char}
    (unbroken : ∀ character ∈ text, Source.isLineBreak character = false)
    (member : group ∈ groups text) :
    IsGroup group where
  nonempty := List.ne_nil_of_mem_splitBy member
  unbroken := by
    intro character isIn
    refine unbroken character ?_
    rw [← List.flatten_splitBy _ text]
    exact List.mem_flatten_of_mem member isIn
  alike := by
    have isChain : group.IsChain fun first second => isDelimiter first = isDelimiter second := by
      refine (List.isChain_of_mem_splitBy member).imp fun first second related => ?_
      rw [Bool.and_eq_true, Bool.not_eq_true', Bool.not_eq_true'] at related
      exact related.1.trans related.2.symm
    have isTrans : IsTrans Char fun first second => isDelimiter first = isDelimiter second :=
      ⟨fun _ _ _ => Eq.trans⟩
    have isSymm : Std.Symm fun first second => isDelimiter first = isDelimiter second :=
      ⟨fun _ _ => Eq.symm⟩
    exact List.Pairwise.forall_of_forall (fun character _ => rfl : ∀ character ∈ group,
      isDelimiter character = isDelimiter character) isChain.pairwise

namespace IsGroup

variable {group : List Char}

/-- Any character of a group tells if it is a word. -/
theorem isWord_eq
    (isGroup : IsGroup group)
    {character : Char}
    (member : character ∈ group) :
    isWord group = !isDelimiter character := by
  rw [Bool.eq_iff_iff, isWord, List.all_eq_true]
  constructor
  · exact fun all => all character member
  · intro undelimited other isOther
    rw [isGroup.alike other isOther character member]
    exact undelimited

/-- A group is read unless it is a word that is not classified or that nothing ends. -/
theorem isOk_itemOf?
    (isGroup : IsGroup group)
    (isOpen : Bool) (position : Position) :
    (∀ item ∈ (itemOf? isOpen position group).toList, item.read.isOk = true) ↔
      (isWord group = true -> isClassified group = true ∧ isOpen = false) := by
  obtain ⟨first, rest, rfl⟩ := List.exists_cons_of_ne_nil isGroup.nonempty
  have unbroken := isGroup.unbroken first List.mem_cons_self
  rw [isGroup.isWord_eq List.mem_cons_self, itemOf?, isDelimiter, unbroken, Bool.or_false]
  cases isBlank : Source.isBlank first with
  | true => simp
  | false =>
      cases isPunctuation : punctuation? first with
      | some kind => simp
      | none => cases isOpen <;> simp

end IsGroup

/-- The words among groups, the first of them in front of the others. -/
theorem forall_mem_filter_isWord_cons (group : List Char) (rest : List (List Char)) :
    (∀ word ∈ (group :: rest).filter isWord, isClassified word = true) ↔
      (isWord group = true -> isClassified group = true) ∧
        ∀ word ∈ rest.filter isWord, isClassified word = true := by
  simp only [List.mem_filter, and_imp, List.forall_mem_cons]

/-- Groups are read if their words are classified and the last of them is no word that nothing
ends. -/
theorem isOk_groupItems
    {list : List (List Char)}
    (areGroups : ∀ group ∈ list, IsGroup group)
    (isOpen : Bool) (position : Position) :
    (∀ item ∈ groupItems isOpen position list, item.read.isOk = true) ↔
      (∀ word ∈ list.filter isWord, isClassified word = true) ∧
        ¬ (isOpen = true ∧ ∃ last, list.getLast? = some last ∧ isWord last = true) := by
  induction list generalizing position with
  | nil => simp [groupItems]
  | cons group rest inductionHypothesis =>
      obtain ⟨isGroup, restGroups⟩ := List.forall_mem_cons.mp areGroups
      rw [groupItems, List.forall_mem_append, isGroup.isOk_itemOf?,
        inductionHypothesis restGroups, forall_mem_filter_isWord_cons]
      cases rest with
      | nil =>
          have sameEnd : (∃ last, [group].getLast? = some last ∧ isWord last = true) ↔
              isWord group = true := by simp
          rw [sameEnd]
          cases isWord group <;> cases isOpen <;> simp
      | cons next rest => simp [and_assoc]

/-- A text without line breaks ends with a word exactly if its last group is one. -/
theorem exists_getLast?_groups_iff
    {text : List Char}
    (unbroken : ∀ character ∈ text, Source.isLineBreak character = false) :
    (∃ group, (groups text).getLast? = some group ∧ isWord group = true) ↔
      ∃ last, text.getLast? = some last ∧ isDelimiter last = false := by
  by_cases isNil : text = []
  · subst isNil
    simp [groups]
  · have someGroups : groups text ≠ [] := List.splitBy_ne_nil.mpr isNil
    have lastIsGroup := isGroup_of_mem_groups unbroken (List.getLast_mem someGroups)
    have sameLast : ((groups text).getLast someGroups).getLast lastIsGroup.nonempty =
        text.getLast isNil := List.getLast_getLast_splitBy _ isNil
    have isIn := List.getLast_mem lastIsGroup.nonempty
    rw [List.getLast?_eq_some_getLast someGroups, List.getLast?_eq_some_getLast isNil, ← sameLast]
    simp [lastIsGroup.isWord_eq isIn]

/-- A line is read if its words are classified and nothing is left open at its end. -/
theorem isOk_lineItems
    {line : List Char}
    (unbroken : ∀ character ∈ line, Source.isLineBreak character = false)
    (isLast : Bool) (position : Position) :
    (∀ item ∈ lineItems isLast position line, item.read.isOk = true) ↔
      (∀ word ∈ lineWords line, isClassified word = true) ∧
        ¬ (isLast = true ∧ (EndsWithWord line ∨ isCommented line = true)) := by
  have codeUnbroken : ∀ character ∈ code line, Source.isLineBreak character = false :=
    fun character member => unbroken character ((code_sublist line).mem member)
  have areGroups : ∀ group ∈ groups (code line), IsGroup group :=
    fun group member => isGroup_of_mem_groups codeUnbroken member
  rw [lineItems, List.forall_mem_append, isOk_groupItems areGroups, lineWords,
    exists_getLast?_groups_iff codeUnbroken, EndsWithWord]
  cases isLast with
  | false => simp
  | true =>
      cases commented : isCommented line with
      | true => simp
      | false =>
          have codeIs : code line = line := by
            rw [isCommented, decide_eq_false_iff_not, not_not] at commented
            exact commented
          rw [codeIs]
          simp

/-- Lines are read if their words are classified and nothing is left open at the end of the last
of them. -/
theorem isOk_linesItems
    {list : List (List Char)}
    (unbroken : ∀ line ∈ list, ∀ character ∈ line, Source.isLineBreak character = false)
    (position : Position) :
    (∀ item ∈ linesItems position list, item.read.isOk = true) ↔
      (∀ word ∈ list.flatMap lineWords, isClassified word = true) ∧
        ¬ ∃ line, list.getLast? = some line ∧ (EndsWithWord line ∨ isCommented line = true) := by
  induction list generalizing position with
  | nil => simp [linesItems]
  | cons line others inductionHypothesis =>
      obtain ⟨lineUnbroken, othersUnbroken⟩ := List.forall_mem_cons.mp unbroken
      rw [linesItems, List.forall_mem_append, isOk_lineItems lineUnbroken,
        inductionHypothesis othersUnbroken, List.flatMap_cons, List.forall_mem_append]
      cases others with
      | nil => simp
      | cons next others => simp [and_assoc]

/-- The scan of a source reads the items of its lines.  It succeeds exactly if the words of the
source are classified and it ends neither inside a word nor inside a comment; otherwise what is
wrong with the first item that has no token is reported at the start of this item.  The loop with
indices has the same result, so it ends, never leaves the text and never finds an empty word. -/
theorem scanSource_verdict (source file : String) :
    scanSource source file = (items source file).mapM Item.read ∧
      ((scanSource source file).isOk = true ↔
        (∀ word ∈ words source, isClassified word = true) ∧
          ¬ EndsInWord source ∧ ¬ EndsInComment source) ∧
      (∀ diagnostic, scanSource source file = .error diagnostic ↔
        ∃ before item after cause, items source file = before ++ item :: after ∧
          (∀ earlier ∈ before, earlier.token.isOk = true) ∧ item.token = .error cause ∧
            diagnostic = .ofSyntax cause item.position) ∧
      (Scanner.ofSource source file).run (source.length + 1) =
        (scanSource source file).mapError Halt.refused := by
  refine ⟨scanSource_eq_mapM source file, ?_, ?_, Scanner.run_ofSource source file⟩
  · rw [scanSource_eq_mapM, isOk_mapM, items, isOk_linesItems fun line => unbroken_of_mem_lines,
      EndsInWord, EndsInComment, ← not_or, ← exists_or, words]
    simp only [and_or_left]
  · intro diagnostic
    simp only [scanSource_eq_mapM, mapM_eq_error_iff, Item.isOk_read, Item.read_eq_error_iff,
      ← exists_and_left]

end Token
end ScriptLang
