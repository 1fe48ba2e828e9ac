import ScriptLang.Proofs.Typing.Surroundings

/-!
# Analysis of trees

The analysis of a statement of a program is the check of its tree: it has the same
result, changes the symbol table of the outermost code block as the check does, and
records the types of the expressions that the check comes to.
-/

namespace ScriptLang

open Source (Position)

namespace Typing

section

variable {surroundings : Surroundings} {symbols : SymbolTable} {statement : StatementTree}

/-- The type of a declaration is what the check of its parts gives. -/
def Declares
    (surroundings : Surroundings) (symbols : SymbolTable) (place : Position)
    (identifier : LeafAt) (typeKeyword : Option LeafAt) (expression : Option Tree) : Prop :=
  ∀ (name : String) (log : Log),
    StatementTree.nameOf surroundings.start identifier = .ok name ->
    let statement := StatementTree.declaration place identifier typeKeyword expression
    declaredTy name place (typeKeyword.map fun _ => surroundings.start + 1)
        (expression.map (statement.expressionTop surroundings.start))
        ⟨surroundings.program symbols
          (statement.layout Tree.untagged surroundings.start (some 0)), log⟩ =
      Running.outcome
        (StatementTree.declaredTy surroundings.start symbols name place typeKeyword expression)
        ⟨surroundings.program symbols
          (statement.reached symbols surroundings.start (some 0)), log⟩

namespace Declares

theorem bare (place : Position) (identifier : LeafAt) :
    Declares surroundings symbols place identifier none none := by
  intro name log named statement
  rw [StatementTree.reached_eq_layout _ (.inl rfl)]
  rfl

theorem inferred (place : Position) (identifier : LeafAt) (tree : Tree) :
    Declares surroundings symbols place identifier none (some tree) := by
  intro name log named statement
  have reaches : statement.reachesExpression surroundings.start symbols = true := by
    rw [StatementTree.reachesExpression, named]
    rfl
  have inferred := infer_statement statement rfl reaches
  rw [Option.map_some, Option.map_none, declaredTy,
    Running.bind_of_outcome (inferring_of_outcome log inferred), StatementTree.declaredTy]
  cases tree.typeIn symbols <;> rfl

theorem keyword (place : Position) (identifier leaf : LeafAt) :
    Declares surroundings symbols place identifier (some leaf) none := by
  intro name log named statement
  have keyword : keywordTy (surroundings.program symbols
      (statement.layout Tree.untagged surroundings.start (some 0))) (surroundings.start + 1) =
        StatementTree.keywordTy (surroundings.start + 1) leaf :=
    keywordTy_eq statement 1 rfl
  rw [StatementTree.reached_eq_layout _ (.inl rfl), Option.map_some, Option.map_none, declaredTy,
    Running.bind_of_outcome (lookingUp_apply _ _), keyword, StatementTree.declaredTy]
  cases StatementTree.keywordTy (surroundings.start + 1) leaf <;> rfl

/-- A declaration with a type and an expression is refused unless both types are the same. -/
theorem both (place : Position) (identifier leaf : LeafAt) (tree : Tree) :
    Declares surroundings symbols place identifier (some leaf) (some tree) := by
  intro name log named statement
  have keyword : keywordTy (surroundings.program symbols
      (statement.layout Tree.untagged surroundings.start (some 0))) (surroundings.start + 1) =
        StatementTree.keywordTy (surroundings.start + 1) leaf :=
    keywordTy_eq statement 1 rfl
  rw [Option.map_some, Option.map_some, declaredTy,
    Running.bind_of_outcome (lookingUp_apply _ _), keyword, StatementTree.declaredTy]
  cases declared : StatementTree.keywordTy (surroundings.start + 1) leaf with
  | error fault =>
      have refused : statement.reachesExpression surroundings.start symbols = false := by
        rw [StatementTree.reachesExpression, named]
        simp [declared, Except.isOk, Except.toBool]
      rw [StatementTree.reached_eq_layout _ (.inr refused)]
      rfl
  | ok declaredTy =>
      have reaches : statement.reachesExpression surroundings.start symbols = true := by
        rw [StatementTree.reachesExpression, named]
        simp [declared, Except.isOk, Except.toBool]
      have inferred := infer_statement statement rfl reaches
      rw [Running.proceed_ok, Running.bind_of_outcome (inferring_of_outcome log inferred), ok_bind]
      cases tree.typeIn symbols with
      | error fault => rfl
      | ok inferredTy =>
          simp only [Running.proceed_ok, ok_bind]
          split
          · rfl
          · obtain ⟨node, found, position⟩ := node_expressionTop statement rfl reaches symbols
            rw [Running.bind_of_outcome (lookingUp_apply _ _), found, Running.proceed_ok, position]
            rfl

end Declares

/-- The type of every declaration is what the check of its parts gives. -/
theorem declares_declaration
    (surroundings : Surroundings) (symbols : SymbolTable) (place : Position)
    (identifier : LeafAt) (typeKeyword : Option LeafAt) (expression : Option Tree) :
    Declares surroundings symbols place identifier typeKeyword expression := by
  cases typeKeyword with
  | none =>
      cases expression with
      | none => exact .bare place identifier
      | some tree => exact .inferred place identifier tree
  | some leaf =>
      cases expression with
      | none => exact .keyword place identifier leaf
      | some tree => exact .both place identifier leaf tree

/-- What the analysis of a statement leaves. -/
def checkedState (surroundings : Surroundings) (symbols : SymbolTable) (log : Log)
    (statement : StatementTree) : State :=
  ⟨surroundings.program ((statement.check surroundings.start symbols).toOption.getD symbols)
      (statement.reached symbols surroundings.start (some 0)),
    log ++ statement.events surroundings.start symbols⟩

/-- The analysis of a statement is the check of its tree. -/
def Analyzes (surroundings : Surroundings) (symbols : SymbolTable) (statement : StatementTree) :
    Prop :=
  ∀ log : Log,
    analyzeForm (surroundings.start + statement.descendants) statement.position
        (statement.form surroundings.start)
        ⟨surroundings.program symbols
          (statement.layout Tree.untagged surroundings.start (some 0)), log⟩ =
      Running.outcome ((statement.check surroundings.start symbols).map fun _ => ())
        (checkedState surroundings symbols log statement)

namespace Analyzes

theorem declaration
    (place : Position) (identifier : LeafAt) (typeKeyword : Option LeafAt)
    (expression : Option Tree) :
    Analyzes surroundings symbols (.declaration place identifier typeKeyword expression) := by
  intro log
  let statement : StatementTree := .declaration place identifier typeKeyword expression
  let state : State := ⟨surroundings.program symbols
    (statement.layout Tree.untagged surroundings.start (some 0)), log⟩
  have name : identifierName state.program surroundings.start =
      StatementTree.nameOf surroundings.start identifier :=
    identifierName_eq statement 0 rfl
  rw [StatementTree.form, StatementTree.position, analyzeForm,
    Running.bind_of_outcome (lookingUp_apply _ state), name, checkedState,
    StatementTree.check, StatementTree.events]
  cases named : StatementTree.nameOf surroundings.start identifier with
  | error fault =>
      have refused : statement.reachesExpression surroundings.start symbols = false := by
        rw [StatementTree.reachesExpression, named]
        rfl
      rw [StatementTree.reached_eq_layout _ (.inr refused)]
      simp only [Running.proceed_error, List.append_nil]
      rfl
  | ok name =>
      have declared := declares_declaration surroundings symbols place identifier typeKeyword
        expression name log named
      rw [Running.proceed_ok, Running.bind_of_outcome declared, ok_bind]
      cases result : StatementTree.declaredTy surroundings.start symbols name place
        typeKeyword expression with
      | error fault =>
          simp only [result, Running.proceed_error, List.append_nil]
          rfl
      | ok declared =>
          obtain ⟨ty, initialized⟩ := declared
          simp only [result, Running.proceed_ok, ok_bind]
          exact declareSymbol_eq statement ⟨name, ty, initialized, place.line⟩ place log

theorem assignment (place : Position) (identifier : LeafAt) (tree : Tree) :
    Analyzes surroundings symbols (.assignment place identifier tree) := by
  intro log
  let statement : StatementTree := .assignment place identifier tree
  let state : State := ⟨surroundings.program symbols
    (statement.layout Tree.untagged surroundings.start (some 0)), log⟩
  have name : identifierName state.program surroundings.start =
      StatementTree.nameOf surroundings.start identifier :=
    identifierName_eq statement 0 rfl
  rw [StatementTree.form, StatementTree.position, analyzeForm,
    Running.bind_of_outcome (lookingUp_apply _ state), name, checkedState,
    StatementTree.check, StatementTree.events, List.append_nil]
  cases named : StatementTree.nameOf surroundings.start identifier with
  | error fault =>
      have refused : statement.reachesExpression surroundings.start symbols = false := by
        rw [StatementTree.reachesExpression, named]
      rw [StatementTree.reached_eq_layout _ (.inr refused)]
      rfl
  | ok name =>
      have target : resolveTarget _ _ _ state = _ :=
        resolveTarget_eq symbols statement rfl name log
      rw [Running.proceed_ok, Running.bind_of_outcome target, ok_bind]
      cases resolved : symbols.resolve name identifier.position with
      | error fault =>
          have refused : statement.reachesExpression surroundings.start symbols = false := by
            rw [StatementTree.reachesExpression, named]
            simp [resolved, Except.isOk, Except.toBool]
          rw [StatementTree.reached_eq_layout _ (.inr refused)]
          rfl
      | ok symbol =>
          have reaches : statement.reachesExpression surroundings.start symbols = true := by
            rw [StatementTree.reachesExpression, named]
            simp [resolved, Except.isOk, Except.toBool]
          have inferred := infer_statement statement rfl reaches
          simp only [Except.map, Running.proceed_ok]
          rw [Running.bind_of_outcome (inferring_of_outcome log inferred), ok_bind]
          cases tree.typeIn symbols with
          | error fault => rfl
          | ok inferredTy =>
              simp only [Running.proceed_ok, ok_bind]
              split
              · exact markInitialized_eq resolved _ _ _
              · obtain ⟨node, found, position⟩ :=
                  node_expressionTop statement rfl reaches symbols
                rw [Running.bind_of_outcome (lookingUp_apply _ _), found, Running.proceed_ok,
                  position]
                rfl

theorem input (place : Position) (identifier : LeafAt) :
    Analyzes surroundings symbols (.input place identifier) := by
  intro log
  let statement : StatementTree := .input place identifier
  let state : State := ⟨surroundings.program symbols
    (statement.layout Tree.untagged surroundings.start (some 0)), log⟩
  have name : identifierName state.program surroundings.start =
      StatementTree.nameOf surroundings.start identifier :=
    identifierName_eq statement 0 rfl
  rw [StatementTree.form, StatementTree.position, analyzeForm,
    Running.bind_of_outcome (lookingUp_apply _ state), name, checkedState,
    StatementTree.check, StatementTree.events, List.append_nil]
  cases StatementTree.nameOf surroundings.start identifier with
  | error fault => rfl
  | ok name =>
      have target : resolveTarget _ _ _ state = _ :=
        resolveTarget_eq symbols statement rfl name log
      rw [Running.proceed_ok, Running.bind_of_outcome target, ok_bind]
      cases resolved : symbols.resolve name identifier.position with
      | error fault => rfl
      | ok symbol => exact markInitialized_eq resolved _ _ _

theorem output (place : Position) (tree : Tree) :
    Analyzes surroundings symbols (.output place tree) := by
  intro log
  let statement : StatementTree := .output place tree
  let state : State := ⟨surroundings.program symbols
    (statement.layout Tree.untagged surroundings.start (some 0)), log⟩
  have inferred : infer _ state.program = _ :=
    infer_statement statement rfl rfl
  rw [StatementTree.form, analyzeForm,
    Running.bind_of_outcome (inferring_of_outcome log inferred), StatementTree.check,
    checkedState, StatementTree.check]
  simp only [StatementTree.events, List.append_nil]
  cases tree.typeIn symbols <;> rfl

end Analyzes

/-- The analysis of every statement is the check of its tree. -/
theorem analyzes_statement
    (surroundings : Surroundings) (symbols : SymbolTable) (statement : StatementTree) :
    Analyzes surroundings symbols statement := by
  cases statement with
  | declaration place identifier typeKeyword expression =>
      exact .declaration place identifier typeKeyword expression
  | assignment place identifier tree => exact .assignment place identifier tree
  | input place identifier => exact .input place identifier
  | output place tree => exact .output place tree

/-- The statement at the last node of its layout is analyzed. -/
theorem analyzeStatement_eq (log : Log) :
    analyzeStatement (surroundings.start + statement.descendants)
        ⟨surroundings.program symbols
          (statement.layout Tree.untagged surroundings.start (some 0)), log⟩ =
      Running.outcome ((statement.check surroundings.start symbols).map fun _ => ())
        (checkedState surroundings symbols log statement) := by
  let state : State := ⟨surroundings.program symbols
    (statement.layout Tree.untagged surroundings.start (some 0)), log⟩
  obtain ⟨_, _, last⟩ := Program.holds_statement (Surroundings.holds_program symbols
    (statement.layout Tree.untagged surroundings.start (some 0)))
  have found : state.program.node (surroundings.start + statement.descendants) =
      .ok (statement.node surroundings.start (some 0)) := by
    rw [Program.node, last]
  rw [analyzeStatement, Running.bind_of_outcome (lookingUp_apply _ state), found,
    Running.proceed_ok]
  exact analyzes_statement surroundings symbols statement log

/-- The statements of a program are checked one after the other. -/
theorem analyzeAll_eq
    (position : Position) (ids : List NodeId) (symbols : SymbolTable) (before after : List Node)
    (statements : List StatementTree) (log : Log) :
    let start := 2 + before.length
    analyzeAll (Tagged.tops start (statements.map Tagged.plain))
        ⟨(Program.frame position ids symbols).extend
          (before ++ Tagged.layouts start (statements.map Tagged.plain) ++ after), log⟩ =
      Running.outcome ((StatementTree.checkAll start symbols statements).map fun _ => ())
        ⟨(Program.frame position ids (StatementTree.symbolsOfAll start symbols statements)).extend
            (before ++ StatementTree.reachedAll start symbols statements ++ after),
          log ++ StatementTree.eventsOfAll start symbols statements⟩ := by
  induction statements generalizing symbols before log with
  | nil =>
      intro start
      simp only [List.map_nil, StatementTree.eventsOfAll, List.append_nil]
      rfl
  | cons first rest inductionHypothesis =>
      intro start
      let next := start + first.descendants + 1
      let surroundings : Surroundings :=
        ⟨position, ids, before, Tagged.layouts next (rest.map Tagged.plain) ++ after⟩
      have analyzed : analyzeStatement (start + first.descendants)
          ⟨surroundings.program symbols (first.layout Tree.untagged start (some 0)), log⟩ =
        Running.outcome ((first.check start symbols).map fun _ => ())
          (checkedState surroundings symbols log first) := analyzeStatement_eq log
      have program : (Program.frame position ids symbols).extend
          (before ++ Tagged.layouts start ((first :: rest).map Tagged.plain) ++ after) =
          surroundings.program symbols (first.layout Tree.untagged start (some 0)) := by
        simp only [Surroundings.program, surroundings, List.map_cons, Tagged.layouts,
          List.append_assoc]
        rfl
      rw [program, List.map_cons, Tagged.tops, analyzeAll]
      simp only [Tagged.plain]
      rw [Running.bind_of_outcome analyzed, checkedState, StatementTree.checkAll,
        StatementTree.symbolsOfAll, StatementTree.reachedAll, StatementTree.eventsOfAll]
      cases checked : first.check start symbols with
      | error fault =>
          have stops : surroundings.start = start := rfl
          simp only [stops, checked]
          simp only [Surroundings.program, surroundings, List.append_assoc, List.append_nil]
          rfl
      | ok last =>
          have starts : surroundings.start = start := rfl
          have length : (before ++ first.reached symbols start (some 0)).length =
              before.length + (first.descendants + 1) := by
            rw [List.length_append, StatementTree.length_reached]
          have continued := inductionHypothesis last
            (before ++ first.reached symbols start (some 0)) (log ++ first.events start symbols)
          have restStarts : 2 + (before ++ first.reached symbols start (some 0)).length =
              next := by
            rw [length]
            omega
          simp only [restStarts] at continued
          simp only [starts, checked, Except.map, Running.proceed_ok, ok_bind]
          simp only [Surroundings.program, surroundings, List.append_assoc] at continued ⊢
          exact continued

/-- The program that the analysis of statements leaves. -/
def analyzedProgram (position : Position) (statements : List StatementTree) : Program :=
  (Program.frame position (Tagged.tops 2 (statements.map Tagged.plain))
    (StatementTree.symbolsOfAll 2 .empty statements)).extend
      (StatementTree.reachedAll 2 .empty statements)

theorem symbols_analyzedProgram (position : Position) (statements : List StatementTree) :
    (analyzedProgram position statements).symbols =
      StatementTree.symbolsOfAll 2 .empty statements := by
  have code : (analyzedProgram position statements).code = 0 := rfl
  rw [Program.symbols, code, analyzedProgram, Program.node?_frame_zero]

/-- The analysis of a program is the check of its statements. -/
theorem analyze_assemble (position : Position) (statements : List StatementTree) :
    let checked := StatementTree.checkAll 2 .empty statements
    analyze (Program.assemble position .empty (statements.map Tagged.plain)) =
      ⟨checked.map fun _ => (), analyzedProgram position statements,
        .analyzing statements.length :: StatementTree.eventsOfAll 2 .empty statements ++
          match checked with
          | .ok symbols => listing symbols
          | .error _ => []⟩ := by
  intro checked
  let state : State :=
    ⟨Program.assemble position .empty (statements.map Tagged.plain),
      [.analyzing statements.length]⟩
  have analyzed : analyzeAll (Tagged.tops 2 (statements.map Tagged.plain)) state =
      Running.outcome (checked.map fun _ => ())
        ⟨analyzedProgram position statements,
          .analyzing statements.length :: StatementTree.eventsOfAll 2 .empty statements⟩ := by
    have all := analyzeAll_eq position (Tagged.tops 2 (statements.map Tagged.plain)) .empty [] []
      statements [.analyzing statements.length]
    simp only [List.append_nil] at all
    exact all
  have symbols : ∀ last, checked = .ok last ->
      (analyzedProgram position statements).symbols = last := by
    intro last succeeds
    rw [symbols_analyzedProgram]
    exact (StatementTree.reachedAll_of_checkAll_eq_ok succeeds).1
  rw [analyze, analyzeProgram, Running.bind_of_ok (Running.get_apply _)]
  simp only [Program.statements_assemble, Tagged.length_tops, List.length_map]
  rw [report, Running.bind_of_ok (Running.modify_apply _ _)]
  simp only [List.nil_append]
  rw [Running.bind_of_outcome analyzed]
  cases result : checked with
  | error fault => simp only [Except.map, Running.proceed_error, List.append_nil]
  | ok last =>
      simp only [Except.map, Running.proceed_ok, Running.modify_apply, symbols last result]

/-- A program without a fault is left with all types and symbols of its check. -/
theorem analyzedProgram_of_checkAll_eq_ok
    {statements : List StatementTree} {symbols : SymbolTable}
    (position : Position)
    (checked : StatementTree.checkAll 2 .empty statements = .ok symbols) :
    analyzedProgram position statements =
      Program.assemble position symbols (StatementTree.typedAll 2 .empty statements) := by
  obtain ⟨symbolsAre, nodesAre⟩ := StatementTree.reachedAll_of_checkAll_eq_ok checked
  rw [analyzedProgram, Program.assemble, symbolsAre, nodesAre, StatementTree.tops_typedAll]

end

end Typing
end ScriptLang
