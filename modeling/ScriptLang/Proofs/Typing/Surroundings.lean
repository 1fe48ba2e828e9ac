import ScriptLang.Proofs.Typing.Reached

/-!
# One statement among others

What an analysis looks up and changes in a program is described for one statement
and whatever surrounds its nodes: its leaves, its expression, the symbols of the
outermost code block, and the nodes with the types that are recorded.
-/

namespace ScriptLang

open Source (Position)

namespace Typing

/-- What surrounds the nodes of one statement in a program. -/
structure Surroundings where
  position : Position
  statements : List NodeId
  before : List Node
  after : List Node

namespace Surroundings

variable (surroundings : Surroundings)

/-- The number of the first node that is surrounded. -/
def start : Nat := 2 + surroundings.before.length

/-- The program with the given symbols and nodes. -/
def program (symbols : SymbolTable) (nodes : List Node) : Program :=
  (Program.frame surroundings.position surroundings.statements symbols).extend
    (surroundings.before ++ nodes ++ surroundings.after)

variable {surroundings}

theorem holds_program (symbols : SymbolTable) (nodes : List Node) :
    (surroundings.program symbols nodes).Holds surroundings.start nodes :=
  Program.holds_extend_append _ _ _ _ _ rfl

/-- The outermost code block, whatever is surrounded. -/
theorem node_program_zero (symbols : SymbolTable) (nodes : List Node) :
    (surroundings.program symbols nodes).node 0 =
      .ok ⟨.codeBlock surroundings.statements symbols, surroundings.position, some 1⟩ := by
  rw [Program.node, program, Program.node?_frame_zero]

theorem modifyKind_program
    (symbols changed : SymbolTable) (nodes : List Node) :
    (surroundings.program symbols nodes).modifyKind 0 (.withSymbols changed) =
      surroundings.program changed nodes :=
  Program.modifyKind_frame _ _ _ _ _ _ _ rfl

/-- Every node of a statement ascends, also while types are being recorded. -/
theorem ascends_program
    {symbols : SymbolTable} {statement : StatementTree} {nodes : List Node}
    (looksAlike : nodes.map Program.outlook =
      (statement.layout Tree.untagged surroundings.start (some 0)).map Program.outlook)
    (id : Nat)
    (least : surroundings.start ≤ id)
    (greatest : id ≤ surroundings.start + statement.descendants) :
    (surroundings.program symbols nodes).Ascends symbols id := by
  have ascends := Program.ascends_of_statement
    (surroundings.holds_program symbols
      (statement.layout Tree.untagged surroundings.start (some 0))) id least greatest
  refine Program.Ascends.congr ?_ ascends
  simp only [List.map_append, looksAlike]

theorem pos_of_start_le
    {id : Nat}
    (least : surroundings.start ≤ id) :
    0 < id := by
  unfold start at least
  omega

/-- A symbol is declared in the outermost code block. -/
theorem declareIn_program
    (symbols : SymbolTable) (nodes : List Node) (symbol : Symbol) (position : Position) :
    (surroundings.program symbols nodes).declareIn 0 symbol position =
      (StatementTree.declare symbols symbol position).map fun extended =>
        surroundings.program extended nodes := by
  rw [Program.declareIn, node_program_zero, ok_bind, StatementTree.declare]
  simp only [NodeKind.symbols?]
  cases symbols.register symbol with
  | error issue => rfl
  | ok extended => exact congrArg Except.ok (modifyKind_program symbols extended nodes)

/-- A symbol of the outermost code block is marked as initialized. -/
theorem markInitialized_program
    (symbols : SymbolTable) (nodes : List Node) (name : String) :
    (surroundings.program symbols nodes).markInitialized 0 name =
      .ok (some (symbols.contains name,
        surroundings.program (symbols.markInitialized name) nodes)) := by
  rw [Program.markInitialized, node_program_zero, ok_bind]
  simp only [NodeKind.symbols?, Option.map_some, modifyKind_program]
  rfl

end Surroundings

section

variable {surroundings : Surroundings} {symbols : SymbolTable} {statement : StatementTree}

theorem lookingUp_apply {α : Type} (query : Program -> Except Fault α) (state : State) :
    lookingUp query state = Running.outcome (query state.program) state := by
  rw [lookingUp, Running.bind_of_ok (Running.get_apply _)]
  exact Running.liftExcept_apply _ _

theorem inferring_of_outcome
    {action : Inferring α} {result : Except Fault α} {program after : Program}
    (log : Log)
    (inferred : action program = Running.outcome result after) :
    inferring action ⟨program, log⟩ = Running.outcome result ⟨after, log⟩ := by
  rw [inferring, inferred]
  cases result <;> rfl

/-- The inference of the expression of a statement. -/
theorem infer_statement
    (statement : StatementTree)
    {tree : Tree}
    (isExpression : statement.expression? = some tree)
    (reaches : statement.reachesExpression surroundings.start symbols = true) :
    infer (statement.expressionTop surroundings.start tree)
        (surroundings.program symbols
          (statement.layout Tree.untagged surroundings.start (some 0))) =
      Running.outcome (tree.typeIn symbols)
        (surroundings.program symbols
          (statement.reached symbols surroundings.start (some 0))) := by
  let top := some (surroundings.start + statement.descendants)
  let first := surroundings.start + statement.leaves.length
  let leafNodes := statement.leaves.map (LeafAt.node top)
  let last := statement.node surroundings.start (some 0)
  have layoutIs : surroundings.before ++
      statement.layout Tree.untagged surroundings.start (some 0) ++ surroundings.after =
      surroundings.before ++ leafNodes ++ tree.expressionLayout Tree.untagged first top ++
        ([last] ++ surroundings.after) := by
    simp [StatementTree.layout, StatementTree.lower, StatementTree.parts, isExpression,
      StatementTree.expressionNodes, leafNodes, top, first, last]
  have reachedIs : surroundings.before ++
      statement.reached symbols surroundings.start (some 0) ++ surroundings.after =
      surroundings.before ++ leafNodes ++ tree.expressionReached symbols first top ++
        ([last] ++ surroundings.after) := by
    simp [StatementTree.reached, isExpression, reaches, leafNodes, top, first, last]
  have positive : 0 < first := by
    change 0 < 2 + surroundings.before.length + statement.leaves.length
    omega
  have inferred := infer_expression
    (Program.frame surroundings.position surroundings.statements symbols) symbols tree first top
    (surroundings.before ++ leafNodes) ([last] ++ surroundings.after)
    (by simp [first, leafNodes, Surroundings.start]; omega)
    positive
    (by
      intro id least greatest
      have size : statement.descendants =
          statement.leaves.length + (tree.expressionDescendants + 1) := by
        simp [StatementTree.descendants, isExpression, StatementTree.expressionSize]
      have ascends : (surroundings.program symbols
          (statement.layout Tree.untagged surroundings.start (some 0))).Ascends symbols id :=
        Surroundings.ascends_program rfl id (by omega) (by omega)
      rw [Surroundings.program, layoutIs] at ascends
      exact ascends)
  rw [Surroundings.program, Surroundings.program, layoutIs, reachedIs]
  exact inferred

/-- The leaves of a statement are found in its order. -/
theorem node_leaf
    {tag : Tree.Tagging} {leaf : LeafAt} {index : Nat}
    (isLeaf : statement.leaves[index]? = some leaf) :
    (surroundings.program symbols (statement.layout tag surroundings.start (some 0))).node
        (surroundings.start + index) =
      .ok (leaf.node (some (surroundings.start + statement.descendants))) := by
  obtain ⟨leavesHold, _, _⟩ := Program.holds_statement (Surroundings.holds_program symbols
    (statement.layout tag surroundings.start (some 0)))
  have inRange : index < statement.leaves.length := (List.getElem?_eq_some_iff.mp isLeaf).1
  have found := leavesHold index (by rw [List.length_map]; exact inRange)
  rw [List.getElem?_map, isLeaf] at found
  rw [Program.node, found]
  rfl

/-- The expression of a statement stands where its tree does. -/
theorem node_expressionTop
    (statement : StatementTree)
    {tree : Tree}
    (isExpression : statement.expression? = some tree)
    (reaches : statement.reachesExpression surroundings.start symbols = true)
    (changed : SymbolTable) :
    ∃ node, (surroundings.program changed
        (statement.reached symbols surroundings.start (some 0))).node
          (statement.expressionTop surroundings.start tree) = .ok node ∧
      node.position = tree.position := by
  let top := some (surroundings.start + statement.descendants)
  let first := surroundings.start + statement.leaves.length
  obtain ⟨lower, last, reachedIs, length, position⟩ :=
    tree.exists_expressionReached_eq symbols first top
  have lastFound : ∀ program : Program,
      program.Holds first (tree.expressionReached symbols first top) ->
        program.node? (first + tree.expressionDescendants) = some last := by
    intro program holds
    rw [reachedIs, Program.holds_append, Program.holds_singleton, length] at holds
    exact holds.2
  have holds : (surroundings.program changed
      (statement.reached symbols surroundings.start (some 0))).Holds surroundings.start
        (statement.leaves.map (LeafAt.node top) ++ tree.expressionReached symbols first top ++
          [statement.node surroundings.start (some 0)]) := by
    have whole := surroundings.holds_program changed
      (statement.reached symbols surroundings.start (some 0))
    simpa only [StatementTree.reached, isExpression, reaches, if_true] using whole
  rw [Program.holds_append, Program.holds_append, List.length_map] at holds
  refine ⟨last, ?_, position⟩
  rw [Program.node, StatementTree.expressionTop, lastFound _ holds.1.2]

theorem identifierName_eq
    (statement : StatementTree) (index : Nat)
    {tag : Tree.Tagging} {leaf : LeafAt}
    (isLeaf : statement.leaves[index]? = some leaf) :
    identifierName
        (surroundings.program symbols (statement.layout tag surroundings.start (some 0)))
        (surroundings.start + index) =
      StatementTree.nameOf (surroundings.start + index) leaf := by
  rw [identifierName, node_leaf isLeaf, ok_bind, StatementTree.nameOf, LeafAt.node]
  cases leaf.content <;> rfl

theorem keywordTy_eq
    (statement : StatementTree) (index : Nat)
    {tag : Tree.Tagging} {leaf : LeafAt}
    (isLeaf : statement.leaves[index]? = some leaf) :
    keywordTy
        (surroundings.program symbols (statement.layout tag surroundings.start (some 0)))
        (surroundings.start + index) =
      StatementTree.keywordTy (surroundings.start + index) leaf := by
  rw [keywordTy, node_leaf isLeaf, ok_bind, StatementTree.keywordTy, LeafAt.node]
  cases leaf.content <;> rfl

/-- The target of a statement is looked up in the symbol table. -/
theorem resolveTarget_eq
    (symbols : SymbolTable) (statement : StatementTree)
    {leaf : LeafAt}
    (isFirst : statement.leaves[0]? = some leaf)
    (name : String) (log : Log) :
    let state : State :=
      ⟨surroundings.program symbols
        (statement.layout Tree.untagged surroundings.start (some 0)), log⟩
    resolveTarget (surroundings.start + statement.descendants) surroundings.start name state =
      Running.outcome ((symbols.resolve name leaf.position).map fun symbol => (0, symbol))
        state := by
  intro state
  have found : state.program.node surroundings.start =
      .ok (leaf.node (some (surroundings.start + statement.descendants))) := node_leaf isFirst
  have ascends : state.program.Ascends symbols (surroundings.start + statement.descendants) :=
    Surroundings.ascends_program rfl _ (Nat.le_add_right _ _) (Nat.le_refl _)
  have resolved := Program.resolve_of_ascends ascends
    (Surroundings.pos_of_start_le (Nat.le_add_right _ _)) name leaf.position
  rw [resolveTarget, Running.bind_of_outcome (lookingUp_apply _ _), found, Running.proceed_ok,
    lookingUp_apply]
  simp only [LeafAt.node, resolved, SymbolTable.resolve]
  cases symbols.get? name <;> rfl

/-- A symbol that has been found is marked as initialized. -/
theorem markInitialized_eq
    {name : String} {position : Position} {symbol : Symbol}
    (resolved : symbols.resolve name position = .ok symbol)
    (nodes : List Node) (place : Position) (log : Log) :
    markInitialized 0 name place ⟨surroundings.program symbols nodes, log⟩ =
      .ok () ⟨surroundings.program (symbols.markInitialized name) nodes, log⟩ := by
  have contained : symbols.contains name = true := by
    unfold SymbolTable.resolve at resolved
    unfold SymbolTable.contains
    cases found : symbols.get? name with
    | none =>
        rw [found] at resolved
        cases resolved
    | some symbol => rfl
  rw [markInitialized, Running.bind_of_outcome (lookingUp_apply _ _)]
  simp only [Surroundings.markInitialized_program, contained, Running.proceed_ok]
  rfl

/-- The symbol of a declaration goes into the symbol table. -/
theorem declareSymbol_eq
    (statement : StatementTree) (symbol : Symbol) (place : Position) (log : Log) :
    declareSymbol (surroundings.start + statement.descendants) symbol place
        ⟨surroundings.program symbols
          (statement.reached symbols surroundings.start (some 0)), log⟩ =
      Running.outcome ((StatementTree.declare symbols symbol place).map fun _ => ())
        ⟨surroundings.program ((StatementTree.declare symbols symbol place).toOption.getD symbols)
          (statement.reached symbols surroundings.start (some 0)),
          log ++ [.declaring symbol.identifier symbol.ty 0]⟩ := by
  let nodes := statement.reached symbols surroundings.start (some 0)
  have ascends : (surroundings.program symbols nodes).Ascends symbols
      (surroundings.start + statement.descendants) :=
    Surroundings.ascends_program (statement.outlook_reached ..) _ (Nat.le_add_right _ _)
      (Nat.le_refl _)
  have scope := Program.enclosingScope_of_ascends ascends
    (Surroundings.pos_of_start_le (Nat.le_add_right _ _))
  rw [declareSymbol, Running.bind_of_outcome (lookingUp_apply _ _), scope, Running.proceed_ok]
  rw [Running.bind_apply]
  simp only [report, Running.modify_apply]
  rw [Running.bind_of_outcome (lookingUp_apply _ _), Surroundings.declareIn_program]
  cases StatementTree.declare symbols symbol place <;> rfl

end

end Typing
end ScriptLang
