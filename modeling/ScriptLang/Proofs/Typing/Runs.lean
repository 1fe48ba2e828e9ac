import ScriptLang.Proofs.Typing.DefiniteAssignment

/-!
# Runs without a fault

An analysis of statements that ends without a fault is put together from those of its
parts, and ends where the check of their trees does.
-/

namespace ScriptLang

open Source (Position)
open Grammar (untaggedProgram)

/-- Where the numbers of statements are parted, there the statements are. -/
theorem Tagged.exists_parts_of_tops_eq_append
    {start : Nat} {statements : List StatementTree} {before after : List NodeId}
    (tops : Tagged.tops start (statements.map Tagged.plain) = before ++ after) :
    ∃ front rest, statements = front ++ rest ∧
      before = Tagged.tops start (front.map Tagged.plain) ∧
      after = Tagged.tops (start + Tagged.extent (front.map Tagged.plain))
        (rest.map Tagged.plain) := by
  have parted := List.take_append_drop before.length statements
  have length : (Tagged.tops start ((statements.take before.length).map Tagged.plain)).length =
      before.length := by
    have lengths := congrArg List.length tops
    rw [Tagged.length_tops, List.length_map, List.length_append] at lengths
    rw [Tagged.length_tops, List.length_map, List.length_take]
    omega
  rw [← parted, List.map_append, Tagged.tops_append] at tops
  obtain ⟨isFront, isRest⟩ := List.append_inj tops length
  exact ⟨_, _, parted.symm, isFront.symm, isRest.symm⟩

namespace Program

/-- Two programs have the same types recorded and the same symbols. -/
structure SameTyping (first second : Program) : Prop where
  recorded : ∀ id, first.recordedTy? id = second.recordedTy? id
  symbols : first.symbols = second.symbols

section

variable {position : Position} {ids : List NodeId} {symbols : SymbolTable} {nodes : List Node}

theorem statements_frame :
    ((frame position ids symbols).extend nodes).statements = ids := by
  have code : ((frame position ids symbols).extend nodes).code = 0 := rfl
  rw [Program.statements, code, node?_frame_zero]

theorem symbols_frame :
    ((frame position ids symbols).extend nodes).symbols = symbols := by
  have code : ((frame position ids symbols).extend nodes).code = 0 := rfl
  rw [Program.symbols, code, node?_frame_zero]

end
end Program

namespace Typing

/-- Statements are analyzed behind others that are accepted. -/
theorem analyzeAll_append_eq_ok_iff (ids others : List NodeId) (state after : State) :
    analyzeAll (ids ++ others) state = .ok () after ↔
      ∃ middle, analyzeAll ids state = .ok () middle ∧ analyzeAll others middle = .ok () after := by
  induction ids generalizing state with
  | nil =>
      constructor
      · exact fun done => ⟨state, rfl, done⟩
      · rintro ⟨_, ⟨⟩, done⟩
        exact done
  | cons first rest inductionHypothesis =>
      rw [List.cons_append, analyzeAll, analyzeAll, Running.bind_eq_ok_iff]
      simp only [Running.bind_eq_ok_iff, inductionHypothesis]
      constructor
      · rintro ⟨_, next, firstDone, middle, restDone, done⟩
        exact ⟨middle, ⟨_, next, firstDone, restDone⟩, done⟩
      · rintro ⟨middle, ⟨_, next, firstDone, restDone⟩, done⟩
        exact ⟨_, next, firstDone, middle, restDone, done⟩

section

variable {position : Position} {ids : List NodeId} {symbols : SymbolTable} {nodes : List Node}
  {start : Nat} {log : Log} {state : State} (before after : List Node)

/-- Statements among other nodes get through their analysis if their check accepts them, and have
all their types then. -/
theorem analyzeAll_eq_ok_iff
    (statements : List StatementTree)
    (starts : start = 2 + before.length)
    (parted : nodes = before ++ (Tagged.layouts start (statements.map Tagged.plain) ++ after)) :
    analyzeAll (Tagged.tops start (statements.map Tagged.plain))
        ⟨(Program.frame position ids symbols).extend nodes, log⟩ = .ok () state ↔
      ∃ last, StatementTree.checkAll start symbols statements = .ok last ∧
        state = ⟨(Program.frame position ids last).extend
            (before ++ (Tagged.layouts start (StatementTree.typedAll start symbols statements) ++
              after)),
          log ++ StatementTree.eventsOfAll start symbols statements⟩ := by
  have run := analyzeAll_eq position ids symbols before after statements log
  simp only [← starts, List.append_assoc] at run
  rw [parted, run]
  cases checked : StatementTree.checkAll start symbols statements with
  | error fault =>
      constructor
      · intro done
        cases done
      · rintro ⟨_, ⟨⟩, _⟩
  | ok last =>
      obtain ⟨symbolsAre, nodesAre⟩ := StatementTree.reachedAll_of_checkAll_eq_ok checked
      rw [symbolsAre, nodesAre]
      constructor
      · rintro ⟨⟩
        exact ⟨last, rfl, rfl⟩
      · rintro ⟨_, ⟨⟩, rfl⟩
        rfl

/-- The same for one statement. -/
theorem analyzeAll_singleton_eq_ok_iff
    (statement : StatementTree)
    (starts : start = 2 + before.length)
    (parted : nodes = before ++ (statement.layout Tree.untagged start (some 0) ++ after)) :
    analyzeAll [start + statement.descendants]
        ⟨(Program.frame position ids symbols).extend nodes, log⟩ = .ok () state ↔
      ∃ next, statement.check start symbols = .ok next ∧
        state = ⟨(Program.frame position ids next).extend
            (before ++ (statement.layout (Tree.typing symbols) start (some 0) ++ after)),
          log ++ StatementTree.eventsOfAll start symbols [statement]⟩ := by
  have one : ∀ last, StatementTree.checkAll start symbols [statement] = .ok last ↔
      statement.check start symbols = .ok last := by
    intro last
    rw [StatementTree.checkAll]
    cases statement.check start symbols <;> rfl
  have tops : [start + statement.descendants] =
      Tagged.tops start ([statement].map Tagged.plain) := rfl
  have parted : nodes =
      before ++ (Tagged.layouts start ([statement].map Tagged.plain) ++ after) := by
    simpa [Tagged.layouts, Tagged.plain] using parted
  rw [tops, analyzeAll_eq_ok_iff before after [statement] starts parted]
  simp only [Tagged.layouts, List.append_nil, StatementTree.typedAll, one]

end

/-- The analysis of a program without a fault is that of its statements. -/
theorem exists_analyzeAll_iff (program final : Program) :
    (analyze program).result = .ok () ∧ (analyze program).program = final ↔
      ∃ later, analyzeAll program.statements
        ⟨program, [.analyzing program.statements.length]⟩ = .ok () ⟨final, later⟩ := by
  rw [analyze, analyzeProgram, Running.bind_of_ok (Running.get_apply _), report,
    Running.bind_of_ok (Running.modify_apply _ _), Running.bind_apply]
  simp only [List.nil_append]
  cases analyzeAll program.statements ⟨program, [.analyzing program.statements.length]⟩ with
  | ok _ after =>
      obtain ⟨left, later⟩ := after
      constructor
      · rintro ⟨_, rfl⟩
        exact ⟨later, rfl⟩
      · rintro ⟨_, ⟨⟩⟩
        exact ⟨rfl, rfl⟩
  | error fault after =>
      constructor
      · rintro ⟨⟨⟩, _⟩
      · rintro ⟨_, ⟨⟩⟩

/-- A program without a fault is that of statements that are accepted. -/
theorem analyze_untaggedProgram_iff
    (position : Position) (statements : List StatementTree) (final : Program) :
    let program := untaggedProgram position statements
    (analyze program).result = .ok () ∧ (analyze program).program = final ↔
      ∃ last, StatementTree.checkAll 2 .empty statements = .ok last ∧
        final = (Program.frame position program.statements last).extend
          (Tagged.layouts 2 (StatementTree.typedAll 2 .empty statements)) := by
  intro program
  have order : program.statements = Tagged.tops 2 (statements.map Tagged.plain) :=
    Program.statements_assemble ..
  have analyzed := congrArg (fun outcome => (outcome.result, outcome.program))
    (analyze_assemble position statements)
  obtain ⟨result, left⟩ := Prod.mk.inj analyzed
  simp only [program, untaggedProgram] at order ⊢
  rw [result, left, order]
  cases checked : StatementTree.checkAll 2 .empty statements with
  | error fault =>
      constructor
      · rintro ⟨⟨⟩, _⟩
      · rintro ⟨_, ⟨⟩, _⟩
  | ok last =>
      rw [analyzedProgram_of_checkAll_eq_ok position checked, Program.assemble,
        StatementTree.tops_typedAll]
      constructor
      · rintro ⟨_, rfl⟩
        exact ⟨last, rfl, rfl⟩
      · rintro ⟨_, ⟨⟩, rfl⟩
        exact ⟨rfl, rfl⟩

end Typing
end ScriptLang
