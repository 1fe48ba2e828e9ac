import ScriptLang.Proofs.Diagnostic.Caret
import ScriptLang.Proofs.Fault.Unreachable
import ScriptLang.Proofs.Token.Spans
import ScriptLang.Proofs.Twin.Checking
import ScriptLang.Proofs.Twin.Reading

/-!
# Where diagnostics point

Every stage of the front end reports at a place where a token or a word of the
source starts or ends.  So the line of every diagnostic is in the source, and its
column is in the text of this line.
-/

namespace ScriptLang

open Source (Position lines placeBehind)
open Token (IsTextOf IsFinishedTextOf Laid StartsWritten)

/-- A place of a file in the text of a line of a source, that is behind the blanks at the start of
this line and not behind its end. -/
structure InText (source file : String) (place : Position) : Prop where
  isFile : place.file = file
  found : ∃ line, Diagnostic.lineAt? source place = some line ∧
    Source.indentation line ≤ place.column ∧ place.column ≤ line.length

section

variable {source : String} {before text after : List Char}

/-- The start and the end of a written text on one line are in the text of this line. -/
theorem inText_of_text
    (file : String)
    (isSource : source.toList = before ++ (text ++ after))
    (starts : StartsWritten text)
    (unbroken : ∀ character ∈ text, Source.isLineBreak character = false) :
    InText source file (placeBehind file before) ∧
      InText source file (placeBehind file (before ++ text)) := by
  obtain ⟨last, head, isLine, column⟩ := Token.exists_lineAt?_of_text file isSource starts unbroken
  obtain ⟨first, others, rfl, notBlank, _⟩ := starts
  have found : (last ++ (first :: others ++ head))[last.length]? = some first := by
    rw [List.getElem?_append_right (Nat.le_refl _), Nat.sub_self]
    rfl
  have behindIndentation := Source.indentation_le_of_not_isBlank found notBlank
  have bound : last.length + (first :: others).length ≤
      (last ++ (first :: others ++ head)).length := by
    rw [List.length_append, List.length_append]
    omega
  constructor
  · refine ⟨rfl, _, isLine, ?_, ?_⟩ <;> rw [column]
    · exact behindIndentation
    · exact (Nat.le_add_right _ _).trans bound
  · rw [Source.placeBehind_append_of_unbroken file unbroken]
    refine ⟨rfl, _, isLine, ?_, ?_⟩ <;> dsimp only [Position.right] <;> rw [column]
    · exact behindIndentation.trans (Nat.le_add_right _ _)
    · exact bound

end

/-- The first of two places is in the text of a line of a source.  Twins in this sense are the
results of one run, seen twice. -/
abbrev Pointed (source file : String) (place _other : Position) : Prop := InText source file place

section

variable {source file : String}

/-- A token starts and ends in the text of a line. -/
theorem pointed_of_text
    {token : Token} {before text after : List Char}
    (isSource : source.toList = before ++ (text ++ after))
    (isText : IsFinishedTextOf token text)
    (starts : StartsWritten text)
    (spans : token.span = ⟨placeBehind file before, placeBehind file (before ++ text)⟩) :
    Token.Twin (Pointed source file) token token := by
  obtain ⟨kind, value, span, payload⟩ := token
  obtain rfl : span = _ := spans
  rcases isText with ⟨_, _, unbroken⟩ | ⟨first, _, gap, rfl, _⟩
  · obtain ⟨start, stop⟩ := inText_of_text file isSource starts unbroken
    exact .intro kind value payload start stop
  · -- The first character and the equals sign are on lines of their own, with layout between them.
    obtain ⟨_, _, same, notBlank, notBreak⟩ := starts
    obtain ⟨rfl, _⟩ := List.cons.inj same
    have firstSource : source.toList = before ++ ([first] ++ (gap ++ ['='] ++ after)) := by
      rw [isSource]
      simp
    have equalSource : source.toList = (before ++ first :: gap) ++ (['='] ++ after) := by
      rw [isSource]
      simp
    have atEnd : before ++ first :: (gap ++ ['=']) = (before ++ first :: gap) ++ ['='] := by simp
    obtain ⟨start, _⟩ := inText_of_text file firstSource ⟨first, [], rfl, notBlank, notBreak⟩
      (List.forall_mem_singleton.mpr notBreak)
    obtain ⟨_, stop⟩ := inText_of_text file equalSource ⟨'=', [], rfl, rfl, rfl⟩
      (List.forall_mem_singleton.mpr rfl)
    rw [← atEnd] at stop
    exact .intro kind value payload start stop

/-- All tokens of a source start and end in the text of a line. -/
theorem pointed_of_tokenize
    {tokens : List Token}
    (tokenized : Token.tokenize source file = .ok tokens) :
    ∀ token ∈ tokens, Token.Twin (Pointed source file) token token := by
  obtain ⟨scanned, scans, result⟩ := (bind_eq_ok_iff _ _ _).mp tokenized
  cases result
  intro token member
  obtain ⟨before, text, after, isSource, isText, starts, spans⟩ :=
    (Token.laid_of_scanSource scans).finished.exists_text token member
  exact pointed_of_text isSource isText starts spans

/-- A scan that stops does so in the text of a line. -/
theorem inText_of_tokenize
    {diagnostic : Diagnostic}
    (refused : Token.tokenize source file = .error diagnostic) :
    InText source file diagnostic.position := by
  rcases (bind_eq_error_iff _ _ _).mp refused with scanRefused | ⟨tokens, _, result⟩
  · obtain ⟨passed, ahead, isSource, ⟨first, others, rfl, notBlank, notBreak⟩, isPlace⟩ :=
      Token.stuck_of_scanSource scanRefused
    rw [isPlace]
    have isSource : source.toList = passed ++ ([first] ++ others) := isSource
    exact (inText_of_text file isSource ⟨first, [], rfl, notBlank, notBreak⟩
      (List.forall_mem_singleton.mpr notBreak)).1
  · cases result

/-- Faults of tokens of a source are reported in the text of a line. -/
theorem exists_inText_of_twin
    {fault other : Fault}
    (twin : Fault.Twin (Pointed source file) fault other) :
    ∃ diagnostic, fault = .report diagnostic ∧ InText source file diagnostic.position := by
  cases twin with
  | report issues samePlace => exact ⟨_, rfl, samePlace⟩

/-- A source with tokens that is not accepted is refused in the text of a line. -/
theorem exists_inText_of_refused
    {tokens : List Token} {fault : Fault}
    (tokenized : Token.tokenize source file = .ok tokens)
    (nonempty : tokens ≠ [])
    (refused : Grammar.parse tokens file = .error fault ∨
      ∃ program, Grammar.parse tokens file = .ok program ∧
        (Typing.analyze program).result = .error fault) :
    ∃ diagnostic, fault = .report diagnostic ∧ InText source file diagnostic.position := by
  have twins := List.forall₂_same.mpr (pointed_of_tokenize tokenized)
  have reading := Grammar.Sentence.readProgram_twin file file nonempty twins
  rcases refused with unparsed | ⟨program, parsed, unchecked⟩
  · rw [Grammar.parse_eq] at unparsed
    cases read : Grammar.Sentence.readProgram tokens file with
    | ok statements =>
        rw [read] at unparsed
        cases unparsed
    | error other =>
        rw [read] at unparsed reading
        cases unparsed
        cases reading with
        | error faults => exact exists_inText_of_twin faults
  · obtain ⟨statements, read, rfl⟩ := Grammar.exists_statements_of_parse parsed
    rw [read] at reading
    rw [Grammar.untaggedProgram, Typing.analyze_assemble] at unchecked
    cases reading with
    | ok statementsTwin =>
        have checking := StatementTree.checkAll_twin 2 SymbolTable.twin_empty statementsTwin
        cases checked : StatementTree.checkAll 2 .empty statements with
        | ok symbols =>
            rw [checked] at unchecked
            cases unchecked
        | error other =>
            rw [checked] at unchecked checking
            cases unchecked
            cases checking with
            | error faults => exact exists_inText_of_twin faults

end

/-- A source without tokens is refused as an empty program. -/
theorem fault_of_no_tokens
    {file : String} {fault : Fault}
    (refused : Grammar.parse [] file = .error fault ∨
      ∃ program, Grammar.parse [] file = .ok program ∧
        (Typing.analyze program).result = .error fault) :
    fault = .report (.ofSyntax .emptyProgram (.start file)) := by
  have isEmpty : Grammar.parse [] file = .error (.ofSyntax .emptyProgram (.start file)) := by
    rw [Grammar.parse_eq]
    rfl
  rw [isEmpty] at refused
  rcases refused with unparsed | ⟨_, parsed, _⟩
  · cases unparsed
    rfl
  · cases parsed

/-- Every diagnostic points into the source.  It has the name of the file, its line is in the
source, so that it is rendered with this line, and its column is not behind the end of the line.
A source without tokens is refused at its start; any other diagnostic is in the text of its line
behind the blanks at the start, and rendered with a caret below its column. -/
theorem points_of_check
    {source : String} {file? : Option String} {fault : Fault}
    (refused : (check source file?).result = .error fault) :
    ∃ diagnostic line,
      fault = .report diagnostic ∧
      diagnostic.position.file = file?.getD "shell" ∧
      Diagnostic.lineAt? source diagnostic.position = some line ∧
      diagnostic.position.column ≤ line.length ∧
      diagnostic.rows source = diagnostic.rowsWith line ∧
      (Token.tokenize source (Run.fileName file?) = .ok [] ->
        diagnostic = .ofSyntax .emptyProgram (.start (Run.fileName file?))) ∧
      (Token.tokenize source (Run.fileName file?) ≠ .ok [] ->
        Source.indentation line ≤ diagnostic.position.column ∧
          diagnostic.PointsAt source line) := by
  by_cases noTokens : Token.tokenize source (Run.fileName file?) = .ok []
  · obtain ⟨line, others, cut⟩ := List.exists_cons_of_ne_nil (Source.lines_ne_nil source.toList)
    have isEmpty : fault = .report (.ofSyntax .emptyProgram (.start (Run.fileName file?))) := by
      rcases check_eq_error refused with ⟨diagnostic, unscanned, _⟩ | ⟨tokens, tokenized, stages⟩
      · rw [noTokens] at unscanned
        cases unscanned
      · rw [noTokens] at tokenized
        cases tokenized
        exact fault_of_no_tokens stages
    have isLine : Diagnostic.lineAt? source (.start (Run.fileName file?)) = some line := by
      unfold Diagnostic.lineAt? Source.line?
      rw [cut]
      rfl
    exact ⟨_, line, isEmpty, rfl, isLine, Nat.zero_le _, Diagnostic.rows_of_lineAt? isLine,
      fun _ => rfl, fun someTokens => absurd noTokens someTokens⟩
  · obtain ⟨diagnostic, isReport, isFile, line, isLine, inText, inLine⟩ :
        ∃ diagnostic, fault = .report diagnostic ∧
          InText source (Run.fileName file?) diagnostic.position := by
      rcases check_eq_error refused with
        ⟨diagnostic, unscanned, isReport⟩ | ⟨tokens, tokenized, stages⟩
      · exact ⟨diagnostic, isReport, inText_of_tokenize unscanned⟩
      · refine exists_inText_of_refused tokenized ?_ stages
        rintro rfl
        exact noTokens tokenized
    exact ⟨diagnostic, line, isReport, isFile, isLine, inLine, Diagnostic.rows_of_lineAt? isLine,
      fun isNone => absurd isNone noTokens,
      fun _ => ⟨inText, Diagnostic.pointsAt_of_lineAt? isLine inText inLine⟩⟩

/-- A statement that is not finished, on an indented line with characters of several bytes in
front of it: the caret stands behind what is left of the line when the blanks at its end are
removed. -/
theorem points_of_unfinished_statement :
    ∃ diagnostic line,
      (check "//ø😀\r\n \tstdout 2 " none).result = .error (.report diagnostic) ∧
      diagnostic.position = ⟨2, 10, "shell"⟩ ∧
      line = [' ', '\t', 's', 't', 'd', 'o', 'u', 't', ' ', '2', ' '] ∧
      Diagnostic.lineAt? "//ø😀\r\n \tstdout 2 " diagnostic.position = some line ∧
      diagnostic.PointsAt "//ø😀\r\n \tstdout 2 " line := by
  have refused : (check "//ø😀\r\n \tstdout 2 " none).result =
      .error (.ofSyntax (.missingSemicolon "2") ⟨2, 10, "shell"⟩) := by decide +kernel
  have isLine : Diagnostic.lineAt? "//ø😀\r\n \tstdout 2 " ⟨2, 10, "shell"⟩ =
      some [' ', '\t', 's', 't', 'd', 'o', 'u', 't', ' ', '2', ' '] := by decide +kernel
  obtain ⟨diagnostic, line, isReport, _, found, _, _, _, shown⟩ := points_of_check refused
  cases isReport
  cases isLine.symm.trans found
  exact ⟨_, _, refused, rfl, rfl, isLine, (shown (by decide +kernel)).2⟩

end ScriptLang
