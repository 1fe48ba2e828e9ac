import ScriptLang.Check
import ScriptLang.Proofs.Fault.Checking
import ScriptLang.Proofs.Fault.Reading
import ScriptLang.Proofs.Program.Closed
import ScriptLang.Proofs.Typing.Refinement

/-!
# Internal faults

What every stage of the front end can fail with, for every source.  The main
statement says that the only internal fault is the report of the parser that an
expression leaves none or several operands.
-/

namespace ScriptLang

open Source (Cursor Position)
open Fault (IsSyntax IsLeftover IsFinding)
open Grammar (IsReading Readable)

namespace Token

theorem ofWord_eq_error
    {word : String} {span : Source.Span} {diagnostic : Diagnostic}
    (refused : ofWord word span = .error diagnostic) :
    (Fault.report diagnostic).IsSyntax := by
  unfold ofWord at refused
  split at refused
  · cases refused
  · cases refused
    exact .intro _ _

/-- Scanning fails with syntax errors only. -/
theorem isSyntax_of_scan
    {cursor : Cursor} {diagnostic : Diagnostic}
    (refused : scan cursor = .error diagnostic) :
    (Fault.report diagnostic).IsSyntax := by
  fun_induction scan cursor with
  | case1 => cases refused
  | case2 current following position isBlank inductionHypothesis =>
      exact inductionHypothesis refused
  | case3 current following position notBlank isPair inductionHypothesis =>
      exact inductionHypothesis refused
  | case4 current following position notBlank notPair isBreak inductionHypothesis =>
      exact inductionHypothesis refused
  | case5 =>
      cases refused
      exact .intro _ _
  | case6 current following position notBlank notPair notBreak isComment comment found
      inductionHypothesis =>
      exact inductionHypothesis refused
  | case7 current following position notBlank notPair notBreak notComment kind isPunctuation
      inductionHypothesis =>
      rcases (bind_eq_error_iff _ _ _).mp refused with othersRefused | ⟨others, _, result⟩
      · exact inductionHypothesis othersRefused
      · cases result
  | case8 =>
      cases refused
      exact .intro _ _
  | case9 current following position notBlank notPair notBreak notComment notPunctuation tail
      found word =>
      rename_i inductionHypothesis
      rcases (bind_eq_error_iff _ _ _).mp refused with firstRefused | ⟨first, _, rest⟩
      · exact ofWord_eq_error firstRefused
      · rcases (bind_eq_error_iff _ _ _).mp rest with othersRefused | ⟨others, _, result⟩
        · exact inductionHypothesis othersRefused
        · cases result

/-- A source is refused with syntax errors only. -/
theorem isSyntax_of_tokenize
    {source file : String} {diagnostic : Diagnostic}
    (refused : tokenize source file = .error diagnostic) :
    (Fault.report diagnostic).IsSyntax := by
  rcases (bind_eq_error_iff _ _ _).mp refused with scanRefused | ⟨tokens, _, result⟩
  · exact isSyntax_of_scan scanRefused
  · cases result

end Token

/-- Coherent tokens are parsed with two sorts of faults; what is parsed is closed, and its
analysis makes findings only. -/
theorem parse_analyze_yields
    {tokens : List Token}
    (file : String)
    (coherent : ∀ token ∈ tokens, token.Coherent) :
    Yields
      (fun program => program.Closed ∧
        Yields (fun _ => True) IsFinding (Typing.analyze program).result)
      IsReading (Grammar.parse tokens file) := by
  have readable : ∀ token ∈ tokens, Readable (fun _ => True) token :=
    fun token member => ⟨coherent token member, fun _ _ _ => trivial⟩
  refine (Grammar.parse_yields file readable).imp ?_ fun fault isReading => isReading
  rintro program _ ⟨statements, wellFormed, rfl⟩
  refine ⟨Program.closed_assemble _ _ _, ?_⟩
  rw [Grammar.untaggedProgram, Typing.analyze_assemble]
  have yields := StatementTree.checkAll_yields 2 .empty wellFormed
  cases checked : StatementTree.checkAll 2 .empty statements with
  | error fault => exact yields.fault checked
  | ok symbols => trivial

/-- The result of a run is that of its first stage that fails. -/
theorem check_eq_error
    {source : String} {file? : Option String} {fault : Fault}
    (refused : (check source file?).result = .error fault) :
    (∃ diagnostic, Token.tokenize source (Run.fileName file?) = .error diagnostic ∧
      fault = .report diagnostic) ∨
    ∃ tokens, Token.tokenize source (Run.fileName file?) = .ok tokens ∧
      (Grammar.parse tokens (Run.fileName file?) = .error fault ∨
        ∃ program, Grammar.parse tokens (Run.fileName file?) = .ok program ∧
          (Typing.analyze program).result = .error fault) := by
  change (Run.ofSource source (Run.fileName file?)).1 = .error fault at refused
  unfold Run.ofSource at refused
  cases tokenized : Token.tokenize source (Run.fileName file?) with
  | error diagnostic =>
      rw [tokenized] at refused
      cases refused
      exact .inl ⟨diagnostic, rfl, rfl⟩
  | ok tokens =>
      refine .inr ⟨tokens, rfl, ?_⟩
      rw [tokenized] at refused
      simp only [Run.ofTokens] at refused
      unfold Grammar.parse
      revert refused
      rcases Grammar.parseLogged tokens (Run.fileName file?) with ⟨_ | program, log⟩
      · rintro ⟨⟩
        exact .inl rfl
      · intro refused
        refine .inr ⟨program, rfl, ?_⟩
        simp only [Run.analyzed] at refused
        cases result : (Typing.analyze program).result with
        | error other =>
            rw [result] at refused
            cases refused
            rfl
        | ok _ =>
            rw [result] at refused
            cases refused

/-- The only internal fault of a run is that of the parser which finds none or several operands
at the end of an expression; no number of a node is looked up in vain and no chain of nodes
is a cycle.  Cutting a source into tokens fails with syntax errors only, and parsing its tokens
with syntax errors or that fault.  A parsed program is closed, and its analysis fails with
findings only. -/
theorem isInternal_only_leftover (source : String) (file? : Option String) :
    (∀ fault, (check source file?).result = .error fault ->
      (fault.isInternal = true ->
        fault.IsLeftover ∧
          ∃ tokens, Token.tokenize source (Run.fileName file?) = .ok tokens ∧
            Grammar.parse tokens (Run.fileName file?) = .error fault) ∧
        ∀ node, fault ≠ .missingNode node ∧ fault ≠ .cycle node) ∧
    (∀ diagnostic, Token.tokenize source (Run.fileName file?) = .error diagnostic ->
      (Fault.report diagnostic).IsSyntax) ∧
    (∀ tokens, Token.tokenize source (Run.fileName file?) = .ok tokens ->
      Yields
        (fun program => program.Closed ∧
          Yields (fun _ => True) IsFinding (Typing.analyze program).result)
        (fun fault => fault.IsSyntax ∨ fault.IsLeftover)
        (Grammar.parse tokens (Run.fileName file?))) := by
  have parsing : ∀ tokens, Token.tokenize source (Run.fileName file?) = .ok tokens -> _ :=
    fun tokens tokenized =>
      parse_analyze_yields (Run.fileName file?) (Token.coherent_of_tokenize tokenized)
  refine ⟨?_, fun diagnostic => Token.isSyntax_of_tokenize, parsing⟩
  intro fault refused
  have sorts : fault.IsSyntax ∨ fault.IsFinding ∨
      (fault.IsLeftover ∧
        ∃ tokens, Token.tokenize source (Run.fileName file?) = .ok tokens ∧
          Grammar.parse tokens (Run.fileName file?) = .error fault) := by
    rcases check_eq_error refused with
      ⟨diagnostic, tokenizing, rfl⟩ | ⟨tokens, tokenized, parsed | ⟨program, parsed, analyzed⟩⟩
    · exact .inl (Token.isSyntax_of_tokenize tokenizing)
    · rcases (parsing tokens tokenized).fault parsed with isSyntax | isLeftover
      · exact .inl isSyntax
      · exact .inr (.inr ⟨isLeftover, tokens, tokenized, parsed⟩)
    · exact .inr (.inl (((parsing tokens tokenized).value parsed).2.fault analyzed))
  rcases sorts with isSyntax | isFinding | ⟨isLeftover, unparsed⟩
  · refine ⟨fun isInternal => ?_, fun node => ?_⟩
    · rw [isSyntax.isInternal_eq_false] at isInternal
      cases isInternal
    · cases isSyntax
      exact ⟨nofun, nofun⟩
  · refine ⟨fun isInternal => ?_, fun node => ?_⟩
    · rw [isFinding.isInternal_eq_false] at isInternal
      cases isInternal
    · cases isFinding <;> exact ⟨nofun, nofun⟩
  · refine ⟨fun _ => ⟨isLeftover, unparsed⟩, fun node => ?_⟩
    cases isLeftover
    exact ⟨nofun, nofun⟩

/-- Two operands without an operator are the internal fault that is left. -/
theorem isInternal_two_operands :
    ∃ fault : Fault, (check "stdout 1 2;\n" none).result = .error fault ∧
      fault.isInternal = true ∧ fault.IsLeftover := by
  have internal : (((check "stdout 1 2;\n" none).result.map fun _ => false).tryCatch
      fun fault => .ok fault.isInternal).toOption = some true := by decide +kernel
  obtain ⟨sorts, _⟩ := isInternal_only_leftover "stdout 1 2;\n" none
  cases refused : (check "stdout 1 2;\n" none).result with
  | ok program =>
      rw [refused] at internal
      cases internal
  | error fault =>
      rw [refused] at internal
      have isInternal : fault.isInternal = true := Option.some.inj internal
      exact ⟨fault, rfl, isInternal, ((sorts fault refused).1 isInternal).1⟩

end ScriptLang
