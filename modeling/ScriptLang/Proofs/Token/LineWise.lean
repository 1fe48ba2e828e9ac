import Mathlib.Data.List.SplitBy
import ScriptLang.Proofs.Token.Pieces
import ScriptLang.Token.Tokenize

/-!
# Scanning line by line

A source is cut into its lines, comments are dropped from the lines, and what is
left of each line is cut into single delimiters and into words, which are maximal
runs of other characters.  The scan of the source reads the items found in this
way one after the other.
-/

namespace ScriptLang

theorem Source.Position.right_right (position : Source.Position) (first second : Nat) :
    (position.right first).right second = position.right (first + second) := by
  simp [Source.Position.right, Nat.add_assoc]

namespace Token

open Source (Cursor Position lines)

/-- What can be found on a line: a character of punctuation or a word, and at the end of the
source a word or a comment that nothing ends. -/
inductive Item
  | mark (kind : TokenKind) (character : Char) (position : Position)
  | word (text : List Char) (position : Position)
  | openWord (text : List Char) (position : Position)
  | openComment (position : Position)
  deriving DecidableEq, Repr

namespace Item

/-- The place where an item starts. -/
def position : Item -> Position
  | .mark _ _ position => position
  | .word _ position => position
  | .openWord _ position => position
  | .openComment position => position

/-- The token of an item, or what is wrong with it. -/
def token : Item -> Except SyntaxCause Token
  | .mark kind character position =>
      .ok ⟨kind, character.toString, .onLine position 1, .empty⟩
  | .word text position => do
      let (kind, payload) ← classifyWord (String.ofList text)
      return ⟨kind, String.ofList text, .onLine position text.length, payload⟩
  | .openWord text _ => .error (.unterminatedWord (String.ofList (Source.trimEnd text)))
  | .openComment _ => .error .unterminatedComment

/-- The token of an item; what is wrong with it is reported where it starts. -/
def read (item : Item) : Except Diagnostic Token :=
  item.token.mapError fun cause => .ofSyntax cause item.position

end Item

/-- A line up to its first pair of slashes. -/
def code : List Char -> List Char
  | [] => []
  | '/' :: '/' :: _ => []
  | character :: rest => character :: code rest

/-- Whether a line has a comment. -/
def isCommented (line : List Char) : Bool := code line ≠ line

/-- A text cut into its delimiters and the maximal runs of other characters. -/
def groups (text : List Char) : List (List Char) :=
  text.splitBy fun first second => !isDelimiter first && !isDelimiter second

/-- What a group is at a given place.  Blanks are nothing. -/
def itemOf? (isOpen : Bool) (position : Position) : List Char -> Option Item
  | [] => none
  | group@(first :: _) =>
      if Source.isBlank first then none
      else
        match punctuation? first with
        | some kind => some (.mark kind first position)
        | none => some (if isOpen then .openWord group position else .word group position)

/-- The items of groups that follow each other from a given place on.  Nothing ends the last
group of an open line. -/
def groupItems (isOpen : Bool) (position : Position) : List (List Char) -> List Item
  | [] => []
  | group :: rest =>
      (itemOf? (isOpen && rest.isEmpty) position group).toList ++
        groupItems isOpen (position.right group.length) rest

/-- The items of a line that starts at a given place.  Nothing ends the last line of a source. -/
def lineItems (isLast : Bool) (position : Position) (line : List Char) : List Item :=
  groupItems (isLast && !isCommented line) position (groups (code line)) ++
    if isLast && isCommented line then [.openComment (position.right (code line).length)] else []

/-- The items of lines that follow each other from a given place on. -/
def linesItems (position : Position) : List (List Char) -> List Item
  | [] => []
  | line :: others =>
      lineItems others.isEmpty position line ++ linesItems position.nextLine others

/-- The items of a source. -/
def items (source file : String) : List Item :=
  linesItems (.start file) (lines source.toList)

/-- Words are read as they are classified. -/
theorem Item.read_word (text : List Char) (position : Position) :
    (Item.word text position).read =
      ofWord (String.ofList text) (.onLine position text.length) := by
  rw [read, token, ofWord]
  cases classifyWord (String.ofList text) <;> rfl

section

variable {character : Char} {line : List Char}

@[simp] theorem code_comment (rest : List Char) : code ('/' :: '/' :: rest) = [] := by
  simp [code]

/-- Characters outside of comments are kept. -/
theorem code_cons
    (noComment : ¬ (character = '/' ∧ line.head? = some '/')) :
    code (character :: line) = character :: code line := by
  rw [code]
  rintro rest rfl rfl
  exact noComment ⟨rfl, rfl⟩

theorem isCommented_cons
    (noComment : ¬ (character = '/' ∧ line.head? = some '/')) :
    isCommented (character :: line) = isCommented line := by
  rw [isCommented, isCommented, code_cons noComment]
  simp

theorem head?_code
    (line : List Char)
    (isHead : (code line).head? = some character) :
    line.head? = some character := by
  fun_cases code line with
  | case1 => exact isHead
  | case2 rest => simp at isHead
  | case3 first rest noComment =>
      rw [code] at isHead
      · exact isHead
      · exact noComment

/-- A delimiter is a group of its own. -/
theorem groups_cons_of_isDelimiter
    (isDelimiter : isDelimiter character = true)
    (text : List Char) :
    groups (character :: text) = [character] :: groups text := by
  have single : groups [character] = [[character]] := rfl
  rw [groups, ← List.singleton_append, List.splitBy_append, ← groups, ← groups, single]
  · rfl
  · intro first isFirst second isSecond
    rw [List.getLast?_singleton, Option.mem_some_iff] at isFirst
    rw [← isFirst, isDelimiter]
    rfl

/-- Characters between delimiters are one group. -/
theorem groups_append_of_word
    {word text : List Char}
    (nonempty : word ≠ [])
    (undelimited : ∀ character ∈ word, isDelimiter character = false)
    (ends : ∀ character, text.head? = some character -> isDelimiter character = true) :
    groups (word ++ text) = word :: groups text := by
  have single : groups word = [word] := by
    refine List.splitBy_of_isChain nonempty (List.Pairwise.isChain ?_)
    refine List.pairwise_of_forall_mem_list fun first isFirst second isSecond => ?_
    rw [undelimited first isFirst, undelimited second isSecond]
    rfl
  rw [groups, List.splitBy_append, ← groups, ← groups, single]
  · rfl
  · intro first isFirst second isSecond
    rw [ends second isSecond, Bool.not_true, Bool.and_false]

theorem not_slash_of_not_isDelimiter
    (undelimited : isDelimiter character = false) :
    character ≠ '/' := by
  rintro rfl
  cases undelimited

/-- Words stand outside of comments. -/
theorem code_append_of_word
    {word : List Char}
    (undelimited : ∀ character ∈ word, isDelimiter character = false)
    (line : List Char) :
    code (word ++ line) = word ++ code line ∧ isCommented (word ++ line) = isCommented line := by
  induction word with
  | nil => exact ⟨rfl, rfl⟩
  | cons first rest inductionHypothesis =>
      obtain ⟨firstUndelimited, restUndelimited⟩ := List.forall_mem_cons.mp undelimited
      obtain ⟨restCode, restCommented⟩ := inductionHypothesis restUndelimited
      have noComment : ¬ (first = '/' ∧ (rest ++ line).head? = some '/') := fun isComment =>
        not_slash_of_not_isDelimiter firstUndelimited isComment.1
      rw [List.cons_append, code_cons noComment, isCommented_cons noComment, restCode,
        restCommented]
      exact ⟨rfl, rfl⟩

/-- A word is an item. -/
theorem itemOf?_of_word
    {word : List Char}
    (nonempty : word ≠ [])
    (undelimited : ∀ character ∈ word, isDelimiter character = false)
    (isOpen : Bool) (position : Position) :
    itemOf? isOpen position word =
      some (if isOpen then .openWord word position else .word word position) := by
  obtain ⟨first, rest, rfl⟩ := List.exists_cons_of_ne_nil nonempty
  obtain ⟨notBlank, _, notPunctuation⟩ :=
    (not_delimiter_iff first).mp (undelimited first List.mem_cons_self)
  rw [itemOf?, notBlank, notPunctuation]
  rfl

section

variable (isLast : Bool) (position : Position)

theorem lineItems_nil : lineItems isLast position [] = [] := by
  cases isLast <;> rfl

/-- A comment is an item only if nothing ends it. -/
theorem lineItems_comment (rest : List Char) :
    lineItems isLast position ('/' :: '/' :: rest) =
      if isLast then [.openComment position] else [] := by
  have commented : isCommented ('/' :: '/' :: rest) = true := by
    rw [isCommented, code_comment]
    rfl
  rw [lineItems, code_comment, commented]
  cases isLast <;> rfl

/-- The first group of a line in front of the others. -/
theorem lineItems_append
    (group : List Char)
    (codeIs : code (group ++ line) = group ++ code line)
    (commentedIs : isCommented (group ++ line) = isCommented line)
    (groupsIs : groups (group ++ code line) = group :: groups (code line)) :
    lineItems isLast position (group ++ line) =
      (itemOf? (isLast && !isCommented line && (groups (code line)).isEmpty) position
          group).toList ++
        lineItems isLast (position.right group.length) line := by
  rw [lineItems, codeIs, commentedIs, groupsIs, groupItems, lineItems, List.append_assoc,
    List.length_append, Source.Position.right_right]

theorem lineItems_cons
    (noComment : ¬ (character = '/' ∧ line.head? = some '/'))
    (isDelimiter : isDelimiter character = true) :
    lineItems isLast position (character :: line) =
      (itemOf? (isLast && !isCommented line && (groups (code line)).isEmpty) position
          [character]).toList ++
        lineItems isLast (position.right 1) line :=
  lineItems_append isLast position [character] (code_cons noComment) (isCommented_cons noComment)
    (groups_cons_of_isDelimiter isDelimiter (code line))

theorem lineItems_blank
    (isBlank : Source.isBlank character = true) :
    lineItems isLast position (character :: line) =
      lineItems isLast (position.right 1) line := by
  have isDelimiter : isDelimiter character = true := by
    rw [Token.isDelimiter, isBlank]
    rfl
  have noComment : ¬ (character = '/' ∧ line.head? = some '/') := by
    rintro ⟨rfl, _⟩
    cases isBlank
  rw [lineItems_cons isLast position noComment isDelimiter, itemOf?, isBlank]
  rfl

theorem lineItems_punctuation
    {kind : TokenKind}
    (noComment : ¬ (character = '/' ∧ line.head? = some '/'))
    (isPunctuation : punctuation? character = some kind) :
    lineItems isLast position (character :: line) =
      .mark kind character position :: lineItems isLast (position.right 1) line := by
  have isDelimiter : isDelimiter character = true := by
    rw [Token.isDelimiter, isPunctuation]
    exact Bool.or_true _
  rw [lineItems_cons isLast position noComment isDelimiter, itemOf?,
    (not_layout_of_punctuation? isPunctuation).1, isPunctuation]
  rfl

/-- A word in front of the others, which is open if nothing stands behind it. -/
theorem lineItems_append_of_word
    {word : List Char}
    (nonempty : word ≠ [])
    (undelimited : ∀ character ∈ word, isDelimiter character = false)
    (ends : ∀ character, line.head? = some character -> isDelimiter character = true) :
    lineItems isLast position (word ++ line) =
      (if isLast ∧ line = [] then .openWord word position else .word word position) ::
        lineItems isLast (position.right word.length) line := by
  obtain ⟨codeIs, commentedIs⟩ := code_append_of_word undelimited line
  have codeEnds : ∀ character, (code line).head? = some character ->
      isDelimiter character = true :=
    fun character isHead => ends character (head?_code line isHead)
  have isOpen : (isLast && !isCommented line && (groups (code line)).isEmpty) =
      decide (isLast = true ∧ line = []) := by
    rw [Bool.eq_iff_iff, decide_eq_true_iff, Bool.and_eq_true, Bool.and_eq_true, and_assoc,
      List.isEmpty_iff, groups, List.splitBy_eq_nil, Bool.not_eq_true']
    refine and_congr_right fun _ => ⟨?_, ?_⟩
    · rintro ⟨notCommented, noCode⟩
      rw [isCommented, decide_eq_false_iff_not, not_not] at notCommented
      exact notCommented.symm.trans noCode
    · rintro rfl
      exact ⟨rfl, rfl⟩
  rw [lineItems_append isLast position word codeIs commentedIs
    (groups_append_of_word nonempty undelimited codeEnds), isOpen,
    itemOf?_of_word nonempty undelimited]
  simp

end

end

/-- A text without line breaks stands on the first line. -/
theorem lines_append
    {text rest : List Char} {line : List Char} {others : List (List Char)}
    (unbroken : ∀ character ∈ text, Source.isLineBreak character = false)
    (cut : lines rest = line :: others) :
    lines (text ++ rest) = (text ++ line) :: others := by
  induction text with
  | nil => exact cut
  | cons first text inductionHypothesis =>
      obtain ⟨firstUnbroken, textUnbroken⟩ := List.forall_mem_cons.mp unbroken
      rw [List.cons_append, Source.lines, firstUnbroken, inductionHypothesis textUnbroken]
      · rfl
      · rintro other rfl _
        cases firstUnbroken

/-- A break ends an empty first line, and another line follows. -/
theorem exists_lines_of_isLineBreak
    {character : Char}
    (isBreak : Source.isLineBreak character = true)
    (rest : List Char) :
    ∃ next others, lines (character :: rest) = [] :: next :: others := by
  by_cases isPair : ∃ text, character = '\r' ∧ rest = '\n' :: text
  · obtain ⟨text, rfl, rfl⟩ := isPair
    obtain ⟨next, others, cut⟩ := List.exists_cons_of_ne_nil (Source.lines_ne_nil text)
    exact ⟨next, others, by rw [Source.lines_pair, cut]⟩
  · obtain ⟨next, others, cut⟩ := List.exists_cons_of_ne_nil (Source.lines_ne_nil rest)
    refine ⟨next, others, ?_⟩
    rw [Source.lines, if_pos isBreak, cut]
    exact fun text isReturn isFeed => isPair ⟨text, isReturn, isFeed⟩

/-- The first line starts as the text does, unless the text starts with a break. -/
theorem head?_of_lines
    {text line : List Char} {others : List (List Char)}
    (cut : lines text = line :: others) :
    line.head? = text.head?.filter fun character => !Source.isLineBreak character := by
  cases text with
  | nil =>
      cases cut
      rfl
  | cons first rest =>
      cases isBreak : Source.isLineBreak first with
      | true =>
          obtain ⟨next, more, cutHere⟩ := exists_lines_of_isLineBreak isBreak rest
          rw [cutHere] at cut
          cases cut
          rw [List.head?_cons, Option.filter_some, isBreak]
          rfl
      | false =>
          obtain ⟨restLine, restOthers, cutRest⟩ :=
            List.exists_cons_of_ne_nil (Source.lines_ne_nil rest)
          have cutHere := lines_append (List.forall_mem_singleton.mpr isBreak) cutRest
          rw [List.singleton_append, cut] at cutHere
          cases cutHere
          rw [List.head?_cons, Option.filter_some, isBreak]
          rfl

/-- The items of the first line in front of the others. -/
theorem linesItems_append
    {text rest line : List Char} {others : List (List Char)}
    (position : Position)
    (unbroken : ∀ character ∈ text, Source.isLineBreak character = false)
    (cut : lines rest = line :: others) :
    linesItems position (lines (text ++ rest)) =
      lineItems others.isEmpty position (text ++ line) ++
        linesItems position.nextLine others := by
  rw [lines_append unbroken cut, linesItems]

/-- Nothing is read up to a stop exactly if there is none. -/
theorem before?_eq_none_iff (stops : Char -> Bool) (text : List Char) :
    before? stops text = none ↔ ∀ character ∈ text, stops character = false := by
  induction text with
  | nil => simp [before?]
  | cons first rest inductionHypothesis =>
      rw [before?, List.forall_mem_cons]
      cases isStop : stops first with
      | true => simp
      | false => simp [inductionHypothesis]

/-- No character of a word is a line break. -/
theorem unbroken_of_undelimited
    {word : List Char}
    (undelimited : ∀ character ∈ word, isDelimiter character = false) :
    ∀ character ∈ word, Source.isLineBreak character = false :=
  fun character member => ((not_delimiter_iff character).mp (undelimited character member)).2.1

/-- A word at the end of a source is an open item. -/
theorem linesItems_openWord
    {word : List Char}
    (position : Position)
    (nonempty : word ≠ [])
    (undelimited : ∀ character ∈ word, isDelimiter character = false) :
    linesItems position (lines word) = [.openWord word position] := by
  have whole := linesItems_append position (unbroken_of_undelimited undelimited) Source.lines_nil
  have noEnd : ∀ character, ([] : List Char).head? = some character ->
      isDelimiter character = true := nofun
  rw [lineItems_append_of_word _ position nonempty undelimited noEnd, List.append_nil] at whole
  exact whole

/-- A word in front of a delimiter is an item. -/
theorem linesItems_word
    {word rest : List Char} {stop : Char}
    (position : Position)
    (nonempty : word ≠ [])
    (undelimited : ∀ character ∈ word, isDelimiter character = false)
    (isStop : isDelimiter stop = true) :
    linesItems position (lines (word ++ stop :: rest)) =
      .word word position :: linesItems (position.right word.length) (lines (stop :: rest)) := by
  obtain ⟨line, others, cut⟩ := List.exists_cons_of_ne_nil (Source.lines_ne_nil (stop :: rest))
  have head := head?_of_lines cut
  have ends : ∀ character, line.head? = some character -> isDelimiter character = true := by
    intro character isHead
    rw [isHead] at head
    obtain ⟨same, _⟩ := Option.filter_eq_some_iff.mp head.symm
    cases same
    exact isStop
  have closed : ¬ (others.isEmpty = true ∧ line = []) := by
    rintro ⟨noOthers, rfl⟩
    cases isBreak : Source.isLineBreak stop with
    | true =>
        obtain ⟨next, more, cutHere⟩ := exists_lines_of_isLineBreak isBreak rest
        rw [cutHere] at cut
        cases cut
        cases noOthers
    | false =>
        rw [List.head?_cons, Option.filter_some, isBreak] at head
        cases head
  rw [linesItems_append position (unbroken_of_undelimited undelimited) cut,
    lineItems_append_of_word _ position nonempty undelimited ends, if_neg closed, cut, linesItems]
  rfl

section

variable {character : Char} {rest : List Char} (position : Position)

theorem linesItems_emptyLine (others : List (List Char)) :
    linesItems position ([] :: others) = linesItems position.nextLine others := by
  rw [linesItems, lineItems_nil]
  rfl

theorem linesItems_blank
    (isBlank : Source.isBlank character = true) :
    linesItems position (lines (character :: rest)) =
      linesItems (position.right 1) (lines rest) := by
  obtain ⟨line, others, cut⟩ := List.exists_cons_of_ne_nil (Source.lines_ne_nil rest)
  have unbroken : Source.isLineBreak character = false := by
    simp only [Source.isBlank, Bool.or_eq_true, decide_eq_true_eq] at isBlank
    rcases isBlank with rfl | rfl <;> rfl
  have here := linesItems_append position (List.forall_mem_singleton.mpr unbroken) cut
  rw [List.singleton_append, List.singleton_append, lineItems_blank _ position isBlank] at here
  rw [here, cut, linesItems]
  rfl

/-- A pair of line break characters ends one line. -/
theorem linesItems_pair :
    linesItems position (lines ('\r' :: '\n' :: rest)) =
      linesItems position.nextLine (lines rest) := by
  rw [Source.lines_pair, linesItems_emptyLine]

theorem linesItems_lineBreak
    (notPair : ¬ (character = '\r' ∧ rest.head? = some '\n'))
    (isBreak : Source.isLineBreak character = true) :
    linesItems position (lines (character :: rest)) =
      linesItems position.nextLine (lines rest) := by
  have cut : lines (character :: rest) = [] :: lines rest := by
    rw [Source.lines, if_pos isBreak]
    rintro text rfl rfl
    exact notPair ⟨rfl, rfl⟩
  rw [cut, linesItems_emptyLine]

/-- A comment at the end of a source is an open item. -/
theorem linesItems_openComment
    (unbroken : ∀ character ∈ '/' :: rest, Source.isLineBreak character = false) :
    linesItems position (lines ('/' :: '/' :: rest)) = [.openComment position] := by
  have whole : ∀ character ∈ '/' :: '/' :: rest, Source.isLineBreak character = false :=
    List.forall_mem_cons.mpr ⟨rfl, unbroken⟩
  have here := linesItems_append position whole Source.lines_nil
  rw [List.append_nil, lineItems_comment] at here
  exact here

/-- A comment in front of a line break is no item. -/
theorem linesItems_comment
    {comment : List Char} {stop : Char}
    (unbroken : ∀ character ∈ '/' :: comment, Source.isLineBreak character = false)
    (isStop : Source.isLineBreak stop = true) :
    linesItems position (lines ('/' :: '/' :: comment ++ stop :: rest)) =
      linesItems (position.right (comment.length + 2)) (lines (stop :: rest)) := by
  obtain ⟨next, others, cut⟩ := exists_lines_of_isLineBreak isStop rest
  have whole : ∀ character ∈ '/' :: '/' :: comment, Source.isLineBreak character = false :=
    List.forall_mem_cons.mpr ⟨rfl, unbroken⟩
  have here := linesItems_append position whole cut
  rw [List.append_nil, lineItems_comment] at here
  rw [here, cut, linesItems_emptyLine]
  rfl

theorem linesItems_punctuation
    {kind : TokenKind}
    (unbroken : Source.isLineBreak character = false)
    (notComment : ¬ (character = '/' ∧ rest.head? = some '/'))
    (isPunctuation : punctuation? character = some kind) :
    linesItems position (lines (character :: rest)) =
      .mark kind character position :: linesItems (position.right 1) (lines rest) := by
  obtain ⟨line, others, cut⟩ := List.exists_cons_of_ne_nil (Source.lines_ne_nil rest)
  have noComment : ¬ (character = '/' ∧ line.head? = some '/') := by
    rintro ⟨rfl, isHead⟩
    rw [head?_of_lines cut] at isHead
    exact notComment ⟨rfl, (Option.filter_eq_some_iff.mp isHead).1⟩
  have here := linesItems_append position (List.forall_mem_singleton.mpr unbroken) cut
  rw [List.singleton_append, List.singleton_append,
    lineItems_punctuation _ position noComment isPunctuation] at here
  rw [here, cut, linesItems]
  rfl

end

/-- The scan of the rest of a source reads the items of its lines. -/
theorem scan_eq_mapM (cursor : Cursor) :
    scan cursor = (linesItems cursor.position (lines cursor.rest)).mapM Item.read := by
  fun_induction scan cursor with
  | case1 => rfl
  | case2 current following position isBlank inductionHypothesis =>
      rw [inductionHypothesis, linesItems_blank position isBlank]
      rfl
  | case3 current following position notBlank isPair inductionHypothesis =>
      obtain ⟨rfl, isHead⟩ := isPair
      obtain ⟨rest, rfl⟩ := List.head?_eq_some_iff.mp isHead
      rw [inductionHypothesis, linesItems_pair position]
      rfl
  | case4 current following position notBlank notPair isBreak inductionHypothesis =>
      rw [inductionHypothesis, linesItems_lineBreak position notPair isBreak]
      rfl
  | case5 current following position notBlank notPair notBreak isComment found =>
      obtain ⟨rfl, isHead⟩ := isComment
      obtain ⟨rest, rfl⟩ := List.head?_eq_some_iff.mp isHead
      rw [linesItems_openComment position ((before?_eq_none_iff _ _).mp found)]
      rfl
  | case6 current following position notBlank notPair notBreak isComment comment found
      inductionHypothesis =>
      obtain ⟨rfl, isHead⟩ := isComment
      obtain ⟨unbroken, stop, rest, isStop, rfl⟩ := (before?_eq_some_iff _ _ _).mp found
      -- The second slash belongs to what is read, since no line break follows the first one.
      obtain ⟨tail, rfl⟩ : ∃ tail, comment = '/' :: tail := by
        cases comment with
        | nil =>
            cases isHead
            cases isStop
        | cons first tail =>
            cases isHead
            exact ⟨tail, rfl⟩
      have behind : ('/' :: ('/' :: tail ++ stop :: rest)).drop (('/' :: tail).length + 1) =
          stop :: rest := List.drop_left
      rw [inductionHypothesis, Cursor.rest_advance, behind]
      exact congrArg (List.mapM Item.read) (linesItems_comment position unbroken isStop).symm
  | case7 current following position notBlank notPair notBreak notComment kind isPunctuation
      inductionHypothesis =>
      rw [inductionHypothesis, linesItems_punctuation position (Bool.eq_false_iff.mpr notBreak)
        notComment isPunctuation, List.mapM_cons]
      rfl
  | case8 current following position notBlank notPair notBreak notComment notPunctuation found =>
      have first := (not_delimiter_iff current).mpr
        ⟨Bool.eq_false_iff.mpr notBlank, Bool.eq_false_iff.mpr notBreak, notPunctuation⟩
      have undelimited : ∀ character ∈ current :: following, isDelimiter character = false :=
        List.forall_mem_cons.mpr ⟨first, (before?_eq_none_iff _ _).mp found⟩
      rw [linesItems_openWord position (List.cons_ne_nil _ _) undelimited]
      rfl
  | case9 current following position notBlank notPair notBreak notComment notPunctuation tail
      found word =>
      rename_i inductionHypothesis
      obtain ⟨tailUndelimited, stop, rest, isStop, rfl⟩ := (before?_eq_some_iff _ _ _).mp found
      have first := (not_delimiter_iff current).mpr
        ⟨Bool.eq_false_iff.mpr notBlank, Bool.eq_false_iff.mpr notBreak, notPunctuation⟩
      have undelimited : ∀ character ∈ word, isDelimiter character = false :=
        List.forall_mem_cons.mpr ⟨first, tailUndelimited⟩
      have behind : (word ++ stop :: rest).drop word.length = stop :: rest := List.drop_left
      rw [inductionHypothesis, Cursor.rest_advance]
      change (do
          let token ← ofWord (String.ofList word) (.onLine position word.length)
          let others ← (linesItems (position.right word.length)
            (lines (List.drop word.length (word ++ stop :: rest)))).mapM Item.read
          return token :: others) =
        (linesItems position (lines (word ++ stop :: rest))).mapM Item.read
      rw [linesItems_word position (List.cons_ne_nil _ _) undelimited isStop, behind,
        List.mapM_cons, Item.read_word]

/-- The scan of a source reads its items. -/
theorem scanSource_eq_mapM (source file : String) :
    scanSource source file = (items source file).mapM Item.read :=
  scan_eq_mapM (.ofSource source file)

end Token
end ScriptLang
