import ScriptLang.Proofs.Fault.Unreachable
import ScriptLang.Proofs.Grammar.Progress
import ScriptLang.Proofs.Typing.Announcements

/-!
# The chronicle of a run

The log of a run tells how far it has come: the tokens of the source, the statements
that are parsed, the program, the variables that are declared, and the symbol table in
the end.  Each stage tells what it has completed before its first fault, and the last
event is the outcome, which is the only possible error of the log.
-/

namespace ScriptLang

open Grammar (Chunk Completed parse parseLogged untaggedProgram)

namespace Typing

/-- The events of an analysis that has announced the declarations of given statements. -/
def announcements (program final : Program) (statements : List NodeId) : Log :=
  .analyzing program.statements.length :: statements.filterMap final.announcement?

section

variable (position : Source.Position) (statements : List StatementTree)

/-- An analysis leaves the statements of a program as they are. -/
theorem statements_untaggedProgram :
    (untaggedProgram position statements).statements =
      (analyzedProgram position statements).statements := by
  rw [statements_analyzedProgram]
  exact Program.statements_assemble ..

/-- What the analysis of a program tells, given what the check of its statements does. -/
theorem log_analyze_untaggedProgram :
    (analyze (untaggedProgram position statements)).log =
      .analyzing (untaggedProgram position statements).statements.length ::
        StatementTree.eventsOfAll 2 .empty statements ++
          match StatementTree.checkAll 2 .empty statements with
          | .ok symbols => listing symbols
          | .error _ => [] := by
  have length : statements.length = (untaggedProgram position statements).statements.length := by
    rw [untaggedProgram, Program.statements_assemble, Tagged.length_tops, List.length_map]
  rw [← length]
  exact congrArg Outcome.log (analyze_assemble position statements)

end

/-- An analysis without a fault announces every declaration of the program and lists every symbol
in the end; there are as many symbols as declarations. -/
theorem analyze_tells_of_accepted
    {tokens : List Token} {file : String} {program : Program}
    (parsed : parse tokens file = .ok program)
    (accepted : (analyze program).result = .ok ()) :
    let final := (analyze program).program
    let declarations := program.statements.filterMap program.declaredName?
    (analyze program).log =
        announcements program final program.statements ++ listing final.symbols ∧
      (program.statements.filterMap final.announcement?).length = declarations.length ∧
      (listing final.symbols).Perm (final.symbols.symbols.map .declared) ∧
      final.symbols.symbols.length = declarations.length := by
  intro final declarations
  obtain ⟨statements, _, rfl⟩ := Grammar.exists_statements_of_parse parsed
  let position := Grammar.Sentence.startOf tokens file
  have analyzed := analyze_assemble position statements
  cases checked : StatementTree.checkAll 2 .empty statements with
  | error fault =>
      rw [untaggedProgram, analyzed, checked] at accepted
      cases accepted
  | ok last =>
      have left : final = analyzedProgram position statements := congrArg Outcome.program analyzed
      have symbolsAre : final.symbols = last := by
        rw [left, symbols_analyzedProgram]
        exact (StatementTree.reachedAll_of_checkAll_eq_ok checked).1
      have declared : declarations = statements.filterMap StatementTree.declaredName? :=
        Program.filterMap_eq_of_map_eq (Program.map_declaredName?_untaggedProgram ..)
      have names := (SymbolTable.Remembers.empty.run checked).names.length_eq
      rw [List.nil_append, StatementTree.map_statement_typedAll, SymbolTable.names,
        List.length_map] at names
      have announced := eventsOfAll_of_accepted position checked
      have told := log_analyze_untaggedProgram position statements
      have listed := statements_untaggedProgram position statements
      rw [checked, announced, ← listed, ← left] at told
      refine ⟨?_, ?_, List.mergeSort_perm .., ?_⟩
      · rw [symbolsAre]
        exact told
      · rw [declared, listed, left, ← announced]
        exact StatementTree.length_eventsOfAll checked
      · rw [symbolsAre, declared, names]

/-- An analysis with a fault fails at a statement: it announces the declarations in front of that
one, and this one exactly if it declares a variable again. -/
theorem analyze_tells_of_refused
    {tokens : List Token} {file : String} {program : Program} {fault : Fault}
    (parsed : parse tokens file = .ok program)
    (refused : (analyze program).result = .error fault) :
    let final := (analyze program).program
    ∃ index, program.FailsAt fault index ∧
      (analyze program).log =
        announcements program final (program.statements.take (index + 1)) ∧
      ((program.statements[index]?.bind final.announcement?).isSome ↔ fault.IsDuplicate) := by
  intro final
  obtain ⟨statements, _, rfl⟩ := Grammar.exists_statements_of_parse parsed
  let position := Grammar.Sentence.startOf tokens file
  have analyzed := analyze_assemble position statements
  cases checked : StatementTree.checkAll 2 .empty statements with
  | ok last =>
      rw [untaggedProgram, analyzed, checked] at refused
      cases refused
  | error other =>
      rw [untaggedProgram, analyzed, checked] at refused
      cases refused
      have left : final = analyzedProgram position statements := congrArg Outcome.program analyzed
      have told := log_analyze_untaggedProgram position statements
      have listed := statements_untaggedProgram position statements
      rw [checked, List.append_nil] at told
      obtain ⟨before, statement, after, last, rfl, accepted, refused⟩ :=
        StatementTree.exists_refused_of_checkAll checked
      obtain ⟨announced, duplicate⟩ := eventsOfAll_of_refused position accepted refused
      rw [announced, ← listed, ← left] at told
      rw [← listed, ← left] at duplicate
      exact ⟨before.length, failsAt_of_refused position after accepted refused, told, duplicate⟩

end Typing

/-- Defects of the front end go by one name. -/
theorem Diagnostic.isInternal_iff (diagnostic : Diagnostic) :
    diagnostic.isInternal = true ↔ diagnostic.issue.name = "CompilerError" := by
  obtain ⟨issue, position⟩ := diagnostic
  cases issue <;> simp [isInternal, severity, Issue.severity, Issue.name]

/-- An event sums up a stage of a run, and tells of no single token, statement or variable. -/
def Event.isSummary : Event -> Bool
  | .tokenized _ => true
  | .parsed _ _ _ => true
  | .analyzing _ => true
  | _ => false

namespace Run

open Typing (analyze announcements)

/-- What the log of a run tells before the outcome. -/
inductive Tells (source file : String) : Except Fault Program -> Log -> Prop
  /-- A source that is not cut into tokens leaves nothing to tell. -/
  | untokenized
      {diagnostic : Diagnostic}
      (tokenized : Token.tokenize source file = .error diagnostic) :
      Tells source file (.error (.report diagnostic)) []
  /-- If the tokens are not parsed, they are told, and the statements in front of the fault. -/
  | unparsed
      {tokens : List Token} {fault : Fault} {done rest : List Chunk} {firsts : List Token}
      (tokenized : Token.tokenize source file = .ok tokens)
      (parsed : parse tokens file = .error fault)
      (completed : Completed tokens file done rest firsts) :
      Tells source file (.error fault)
        (.tokenized tokens.length :: tokens.map .token ++ firsts.map .parsedStatement)
  /-- If the program is refused by its analysis, all of its statements are told, then the program,
  and then the declarations up to the statement that is refused.  This one is among them exactly if
  it declares a variable again. -/
  | refused
      {tokens : List Token} {fault : Fault} {done : List Chunk} {firsts : List Token}
      {program : Program} {index : Nat}
      (tokenized : Token.tokenize source file = .ok tokens)
      (parsed : parse tokens file = .ok program)
      (completed : Completed tokens file done [] firsts)
      (all : firsts.length = program.statements.length)
      (analyzed : (analyze program).result = .error fault)
      (failsAt : program.FailsAt fault index)
      (again : (program.statements[index]?.bind (analyze program).program.announcement?).isSome ↔
        fault.IsDuplicate) :
      Tells source file (.error fault)
        (.tokenized tokens.length :: tokens.map .token ++ firsts.map .parsedStatement ++
          [.parsed program.statements.length program.size file] ++
          announcements program (analyze program).program (program.statements.take (index + 1)))
  /-- If the program is accepted, all of its declarations are told, and then all of its symbols, of
  which there are as many. -/
  | accepted
      {tokens : List Token} {done : List Chunk} {firsts : List Token} {program final : Program}
      {symbols : Log}
      (tokenized : Token.tokenize source file = .ok tokens)
      (parsed : parse tokens file = .ok program)
      (completed : Completed tokens file done [] firsts)
      (all : firsts.length = program.statements.length)
      (analyzed : (analyze program).result = .ok ())
      (left : (analyze program).program = final)
      (announced : (program.statements.filterMap final.announcement?).length =
        (program.statements.filterMap program.declaredName?).length)
      (listed : symbols.Perm (final.symbols.symbols.map .declared))
      (declared : symbols.length = (program.statements.filterMap program.declaredName?).length) :
      Tells source file (.ok final)
        (.tokenized tokens.length :: tokens.map .token ++ firsts.map .parsedStatement ++
          [.parsed program.statements.length program.size file] ++
          announcements program final program.statements ++ symbols)

/-- The log of a run tells of its stages. -/
theorem tells_ofSource (source file : String) :
    Tells source file (ofSource source file).1 (ofSource source file).2 := by
  unfold ofSource
  cases tokenized : Token.tokenize source file with
  | error diagnostic => exact .untokenized tokenized
  | ok tokens =>
      obtain ⟨done, rest, firsts, completed, whole, reported⟩ :=
        Grammar.exists_completed tokens file
      have result : parse tokens file = (parseLogged tokens file).1 := rfl
      dsimp only
      unfold ofTokens
      cases logged : parseLogged tokens file with
      | mk parsed log =>
          rw [logged] at result reported
          dsimp only at result reported
          rw [result] at reported
          cases parsed with
          | error fault =>
              rw [reported, List.append_nil]
              exact .unparsed tokenized result completed
          | ok program =>
              obtain ⟨rfl, all⟩ := whole program result
              rw [reported]
              unfold Run.analyzed
              dsimp only
              cases analyzed : (analyze program).result with
              | error fault =>
                  obtain ⟨index, failsAt, told, again⟩ :=
                    Typing.analyze_tells_of_refused result analyzed
                  rw [told, ← List.append_assoc, ← List.append_assoc]
                  exact .refused tokenized result completed all analyzed failsAt again
              | ok _ =>
                  obtain ⟨told, announced, listed, declared⟩ :=
                    Typing.analyze_tells_of_accepted result analyzed
                  have count := listed.length_eq.trans ((List.length_map _).trans declared)
                  rw [told, ← List.append_assoc, ← List.append_assoc, ← List.append_assoc]
                  exact .accepted tokenized result completed all analyzed rfl announced listed count

/-- An event before the outcome is told at the level of its sort. -/
def AtItsLevel (event : Event) : Prop :=
  event.level = if event.isSummary then .debug else .trace

/-- Everything before the outcome is told at the level of its sort. -/
theorem Tells.atItsLevel
    {source file : String} {result : Except Fault Program} {events : Log}
    (tells : Tells source file result events) :
    ∀ event ∈ events, AtItsLevel event := by
  have tokensTold (tokens : List Token) :
      ∀ event ∈ Event.tokenized tokens.length :: tokens.map .token, AtItsLevel event := by
    rw [List.forall_mem_cons, List.forall_mem_map]
    exact ⟨rfl, fun _ _ => rfl⟩
  have statementsTold (firsts : List Token) :
      ∀ event ∈ firsts.map Event.parsedStatement, AtItsLevel event := by
    rw [List.forall_mem_map]
    exact fun _ _ => rfl
  have declarationsTold (program final : Program) (statements : List NodeId) :
      ∀ event ∈ announcements program final statements, AtItsLevel event := by
    intro event member
    rcases List.mem_cons.mp member with rfl | isAnnounced
    · rfl
    · obtain ⟨id, _, announced⟩ := List.mem_filterMap.mp isAnnounced
      obtain ⟨name, ty, rfl⟩ := Program.exists_of_announcement?_eq_some announced
      rfl
  cases tells with
  | untokenized tokenized => exact List.forall_mem_nil _
  | unparsed tokenized parsed completed =>
      rw [List.forall_mem_append]
      exact ⟨tokensTold _, statementsTold _⟩
  | refused tokenized parsed completed all analyzed failsAt again =>
      simp only [List.forall_mem_append, List.forall_mem_singleton]
      exact ⟨⟨⟨tokensTold _, statementsTold _⟩, rfl⟩, declarationsTold _ _ _⟩
  | accepted tokenized parsed completed all analyzed left announced listed declared =>
      simp only [List.forall_mem_append, List.forall_mem_singleton, listed.mem_iff]
      refine ⟨⟨⟨⟨tokensTold _, statementsTold _⟩, rfl⟩, declarationsTold _ _ _⟩, ?_⟩
      rw [List.forall_mem_map]
      exact fun _ _ => rfl

/-- The result of a run is a program or a diagnostic. -/
theorem isReport_of_check
    {source : String} {file? : Option String} {fault : Fault}
    (refused : (check source file?).result = .error fault) :
    fault.IsReport := by
  rcases check_eq_error refused with
    ⟨diagnostic, _, rfl⟩ | ⟨tokens, tokenized, parsed | ⟨program, parsed, analyzed⟩⟩
  · exact ⟨diagnostic, rfl⟩
  · have yields := parse_analyze_yields (fileName file?) (Token.coherent_of_tokenize tokenized)
    rcases yields.fault parsed with isSyntax | isLeftover
    · cases isSyntax
      exact ⟨_, rfl⟩
    · cases isLeftover
      exact ⟨_, rfl⟩
  · have yields := parse_analyze_yields (fileName file?) (Token.coherent_of_tokenize tokenized)
    cases (yields.value parsed).2.fault analyzed <;> exact ⟨_, rfl⟩

/-- The event that a run ends with, given its result. -/
inductive Concludes (file : String) : Except Fault Program -> Event -> Prop
  /-- A program that is accepted is told with the number of its statements. -/
  | checked (program : Program) :
      Concludes file (.ok program) (.checked file program.statements.length)
  /-- A fault is told as it is. -/
  | refused (fault : Fault) : Concludes file (.error fault) (.refused file fault)

theorem concludes_outcome (file : String) (result : Except Fault Program) :
    Concludes file result (outcome file result) := by
  cases result with
  | ok program => exact .checked program
  | error fault => exact .refused fault

/-- The outcome of a run is an error of its log exactly if the result is a defect of the front
end. -/
theorem Concludes.level_eq_error_iff
    {source : String} {file? : Option String} {last : Event}
    (concludes : Concludes (fileName file?) (check source file?).result last) :
    last.level = .error ↔
      ∃ diagnostic, (check source file?).result = .error (.report diagnostic) ∧
        diagnostic.issue.name = "CompilerError" := by
  cases result : (check source file?).result with
  | ok program =>
      rw [result] at concludes
      cases concludes
      refine iff_of_false nofun ?_
      rintro ⟨_, ⟨⟩, _⟩
  | error fault =>
      obtain ⟨diagnostic, rfl⟩ := isReport_of_check result
      rw [result] at concludes
      cases concludes
      have level : (Event.refused (fileName file?) (.report diagnostic)).level = .error ↔
          diagnostic.isInternal = true := ite_eq_left_iff.trans (by simp [Fault.isInternal])
      rw [level, diagnostic.isInternal_iff]
      constructor
      · exact fun isDefect => ⟨diagnostic, rfl, isDefect⟩
      · rintro ⟨other, ⟨⟩, isDefect⟩
        exact isDefect

/-- The log of a run tells of its stages and then of the outcome.  What sums up a stage is told for
debugging, and everything else of the stages as a trace.  So the outcome is the only possible error
of the log, and it is one exactly if the result is a defect of the front end. -/
theorem check_tells (source : String) (file? : Option String) :
    ∃ events last,
      (check source file?).log = events ++ [last] ∧
      Tells source (fileName file?) (check source file?).result events ∧
      Concludes (fileName file?) (check source file?).result last ∧
      (∀ event ∈ events, event.level = if event.isSummary then .debug else .trace) ∧
      (last.level = .error ↔
        ∃ diagnostic, (check source file?).result = .error (.report diagnostic) ∧
          diagnostic.issue.name = "CompilerError") := by
  have tells := tells_ofSource source (fileName file?)
  have concludes := concludes_outcome (fileName file?) (check source file?).result
  exact ⟨_, _, rfl, tells, concludes, tells.atItsLevel, concludes.level_eq_error_iff⟩

-- A fault of the program that is checked is no error of the log.
example :
    (check "stdin y;\n" (some "a")).log.map (fun event => (event.level, event.message)) = [
      (.debug, "tokenized 3 tokens"),
      (.trace, "(StandardInput:1,0) ()"),
      (.trace, "(Identifier:1,6) (y)"),
      (.trace, "(Semicolon:1,7) ()"),
      (.trace, "parsed statement starting at (StandardInput:1,0)"),
      (.debug, "parsed 1 statements (4 nodes) from a"),
      (.debug, "analyzing 1 statements"),
      (.debug, "a: UndeclaredIdentifier at line 1, column 6: the identifier `y` is being used " ++
        "without having been declared")] := by
  decide +kernel

end Run

end ScriptLang
