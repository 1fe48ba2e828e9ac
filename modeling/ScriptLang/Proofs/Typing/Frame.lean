import ScriptLang.Proofs.Program.Rebound
import ScriptLang.Proofs.Program.Retagged
import ScriptLang.Proofs.Typing.Surroundings

/-!
# What a statement changes

A statement that fails leaves nothing behind but types of expressions below it, and
one that succeeds changes at most one symbol besides.  This holds in every program
whose links lead to its nodes and do not come back, whatever it looks like
otherwise, and with it no analysis changes anything but types and symbols.
-/

namespace ScriptLang
namespace Typing

open Source (Position)
open Program (Retagged WellLinked)
open Running (Ends)

/-- What a statement at a node makes of a program, apart from types. -/
inductive Changes (program changed : Program) (id : NodeId) : Statement -> Prop
  /-- A declaration adds one symbol to the nearest code block. -/
  | declaration
      {identifier : NodeId} {typeKeyword expression : Option NodeId}
      (name : String) (ty : Ty) (node : Node)
      (isNamed : program.kind? identifier = some (.leaf (.identifier name)))
      (isNode : program.node? id = some node)
      (declares : program.DeclaresAt changed id
        ⟨name, ty, expression.isSome, node.position.line⟩) :
      Changes program changed id (.declaration identifier typeKeyword expression)
  /-- An assignment gives the variable that is found by lookup a value. -/
  | assignment
      {identifier expression : NodeId}
      (name : String)
      (isNamed : program.kind? identifier = some (.leaf (.identifier name)))
      (initializes : program.InitializesAt changed id name) :
      Changes program changed id (.assignment identifier expression)
  /-- So does an input. -/
  | input
      {identifier : NodeId}
      (name : String)
      (isNamed : program.kind? identifier = some (.leaf (.identifier name)))
      (initializes : program.InitializesAt changed id name) :
      Changes program changed id (.input identifier)
  /-- An output changes nothing. -/
  | output {expression : NodeId} (unchanged : changed = program) :
      Changes program changed id (.output expression)

/-- What a statement at a node leaves: a report and the program with other types below the node,
or the program with its one change and with other types below the node. -/
def Leaves (program : Program) (id : NodeId) : EStateM.Result Fault State Unit -> Prop :=
  Ends
    (fun _ after => ∃ statement changed,
      program.kind? id = some (.statement statement) ∧ Changes program changed id statement ∧
        Retagged (program.Under id) changed after.program)
    (fun fault after => fault.IsReport ∧ Retagged (program.Under id) program after.program ∧
      ∀ scope, after.program.symbolsAt? scope = program.symbolsAt? scope)

/-! ## Inference -/

variable {α : Type}

/-- An inference that changes types below a node only, and fails with reports only. -/
def Retags (base : Program) (top : NodeId) : EStateM.Result Fault Program α -> Prop :=
  Ends (fun _ after => Retagged (base.Under top) base after)
    (fun fault after => fault.IsReport ∧ Retagged (base.Under top) base after)

section

variable {base current : Program} {top id : NodeId}

theorem retags_liftExcept
    {good : α -> Prop} {result : Except Fault α}
    (retagged : Retagged (base.Under top) base current)
    (yields : Yields good Fault.IsReport result) :
    Retags base top ((liftExcept result : Inferring α) current) := by
  cases result with
  | ok value => exact retagged
  | error fault => exact ⟨yields, retagged⟩

/-- The type of a leaf is found, or what is wrong with it is reported. -/
theorem leafTy_yields
    (linked : current.WellLinked)
    (inRange : id < current.size)
    (position : Position) (content : Leaf) :
    Yields (fun _ => True) Fault.IsReport (leafTy current id position content) := by
  cases content with
  | literal value => exact trivial
  | typeKeyword ty => exact ⟨_, rfl⟩
  | identifier name =>
      apply (linked.climbable.resolve_yields inRange name position).bind
      rintro ⟨scope, symbol⟩ _
      dsimp only
      split
      · exact trivial
      · exact ⟨_, rfl⟩

theorem reportAt_isReport (position : Position) (result : Except TypeCause Ty) :
    Yields (fun _ => True) Fault.IsReport (reportAt position result) := by
  cases result with
  | ok ty => exact trivial
  | error cause => exact ⟨_, rfl⟩

/-- An expression is inferred from its parts, each of which starts where the last one ends. -/
theorem formTy_retags
    {inferPart : NodeId -> Inferring Ty} {form : ExpressionForm}
    (position : Position)
    (retagged : Retagged (base.Under top) base current)
    (parts : ∀ part ∈ form.children, ∀ current, Retagged (base.Under top) base current ->
      Retags base top (inferPart part current)) :
    Retags base top (formTy inferPart position form current) := by
  cases form with
  | single leaf => exact parts leaf List.mem_cons_self current retagged
  | unary operator operand =>
      apply (parts operand List.mem_cons_self current retagged).bind
      intro operandTy after retaggedAfter
      exact retags_liftExcept retaggedAfter (reportAt_isReport position _)
  | binary operator left right =>
      apply (parts left List.mem_cons_self current retagged).bind
      intro leftTy middle retaggedMiddle
      apply (parts right (List.mem_cons_of_mem _ List.mem_cons_self) middle retaggedMiddle).bind
      intro rightTy after retaggedAfter
      exact retags_liftExcept retaggedAfter (reportAt_isReport position _)

/-- The induction is on the depth, which is never used up: every part is a new node of a walk from
parents to children, and such a walk has at most as many nodes as the program. -/
theorem inferAt_retags
    {depth : Nat} {passed : List NodeId}
    (linked : base.WellLinked)
    (trail : Trail base.Child base.size passed id)
    (inRange : id < base.size)
    (enough : base.size < depth + passed.length)
    (under : base.Under top id)
    (retagged : Retagged (base.Under top) base current) :
    Retags base top (inferAt depth id current) := by
  induction depth generalizing passed id current with
  | zero =>
      have few := trail.length_le
      omega
  | succ depth inductionHypothesis =>
      have inRangeHere : id < current.size := by
        rw [retagged.size_eq]
        exact inRange
      have linkedHere := linked.of_bare_eq retagged.bare_eq
      obtain ⟨node, found⟩ := Program.exists_node_of_lt inRangeHere
      have isNode : current.node id = .ok node := by rw [Program.node, found]
      cases isKind : node.kind with
      | leaf content =>
          rw [inferAt_of_leaf depth isNode isKind, ← Running.liftExcept_apply]
          exact retags_liftExcept retagged (leafTy_yields linkedHere inRangeHere _ _)
      | expression expression =>
          rw [inferAt, Running.bind_of_ok (Running.get_apply _), isNode,
            Running.bind_of_ok (Running.liftExcept_ok _ _), isKind]
          -- A part may be shared and may have been typed before, so the state is any that has
          -- other types only; the links are still those of the first program.
          have parts : ∀ part ∈ expression.form.children, ∀ current,
              Retagged (base.Under top) base current ->
                Retags base top (inferAt depth part current) := by
            intro part isPart other retaggedOther
            have isChild : base.Child id part :=
              (Program.child_iff_of_bare_eq retagged.bare_eq id part).mp
                ⟨node, found, by rw [isKind]; exact isPart⟩
            apply inductionHypothesis (trail.extend linked.childWalk inRange isChild)
              (linked.childInRange id part isChild) _ (under.tail isChild) retaggedOther
            rw [List.length_cons]
            omega
          apply (formTy_retags node.position retagged parts).bind
          intro ty after retaggedAfter
          exact retaggedAfter.tag under ty
      | program code =>
          rw [inferAt, Running.bind_of_ok (Running.get_apply _), isNode,
            Running.bind_of_ok (Running.liftExcept_ok _ _), isKind]
          exact ⟨⟨_, rfl⟩, retagged⟩
      | codeBlock statements symbols =>
          rw [inferAt, Running.bind_of_ok (Running.get_apply _), isNode,
            Running.bind_of_ok (Running.liftExcept_ok _ _), isKind]
          exact ⟨⟨_, rfl⟩, retagged⟩
      | statement statement =>
          rw [inferAt, Running.bind_of_ok (Running.get_apply _), isNode,
            Running.bind_of_ok (Running.liftExcept_ok _ _), isKind]
          exact ⟨⟨_, rfl⟩, retagged⟩

theorem infer_retags
    (linked : base.WellLinked)
    (inRange : id < base.size)
    (under : base.Under top id)
    (retagged : Retagged (base.Under top) base current) :
    Retags base top (infer id current) := by
  rw [infer, Running.bind_of_ok (Running.get_apply _)]
  apply inferAt_retags linked (.start id) inRange _ under retagged
  rw [retagged.size_eq]
  exact Nat.lt_succ_self _

end

/-! ## Statements -/

section

variable {program : Program} {id : NodeId} {state : State}

/-- A step of a statement ends with a condition on its value and state, or fails with a report and
other types below the statement. -/
def StepEnds (program : Program) (id : NodeId) (good : α -> State -> Prop) :
    EStateM.Result Fault State α -> Prop :=
  Ends good fun fault after => fault.IsReport ∧ Retagged (program.Under id) program after.program

theorem lookingUp_ends
    {good : α -> Prop} {query : Program -> Except Fault α}
    (retagged : Retagged (program.Under id) program state.program)
    (yields : Yields good Fault.IsReport (query state.program)) :
    StepEnds program id (fun value after => good value ∧ state = after)
      (lookingUp query state) := by
  rw [lookingUp_apply]
  cases result : query state.program with
  | ok value =>
      rw [result] at yields
      exact ⟨yields, rfl⟩
  | error fault =>
      rw [result] at yields
      exact ⟨yields, retagged⟩

theorem inferring_ends
    {action : Inferring α}
    (retags : Retags program id (action state.program)) :
    StepEnds program id
      (fun _ after => Retagged (program.Under id) program after.program)
      (inferring action state) := by
  unfold inferring
  cases result : action state.program with
  | ok value after =>
      rw [result] at retags
      exact retags
  | error fault after =>
      rw [result] at retags
      exact retags

/-- A wrong type is reported at the node of the expression. -/
theorem mismatch_ends
    {good : α -> State -> Prop} {expression : NodeId}
    (retagged : Retagged (program.Under id) program state.program)
    (inRange : expression < program.size)
    (cause : TypeCause) :
    StepEnds program id good
      ((do
        let node ← lookingUp fun program => program.node expression
        throw (.ofType cause node.position) : Analyzing α) state) := by
  have inRangeHere : expression < state.program.size := by
    rw [retagged.size_eq]
    exact inRange
  apply (lookingUp_ends retagged (Program.node_yields inRangeHere)).bind
  rintro node _ ⟨_, rfl⟩
  exact ⟨⟨_, rfl⟩, retagged⟩

theorem identifierName_yields
    {identifier : NodeId}
    (inRange : identifier < program.size) :
    Yields (fun name => program.kind? identifier = some (.leaf (.identifier name)))
      Fault.IsReport (identifierName program identifier) := by
  apply (Program.node_yields inRange).bind
  intro node found
  have isKind := Program.kind?_of_node? found
  split
  · rename_i name isName
    rw [isName] at isKind
    exact isKind
  · exact ⟨_, rfl⟩

theorem keywordTy_isReport
    {keyword : NodeId}
    (inRange : keyword < program.size) :
    Yields (fun _ => True) Fault.IsReport (keywordTy program keyword) := by
  apply (Program.node_yields inRange).bind
  intro node found
  split
  · exact trivial
  · exact ⟨_, rfl⟩

variable (linked : program.WellLinked)
variable (retagged : Retagged (program.Under id) program state.program)

include linked retagged

/-- The expression of a statement is inferred. -/
theorem infer_child_ends
    {expression : NodeId}
    (isChild : program.Child id expression) :
    StepEnds program id
      (fun _ after => Retagged (program.Under id) program after.program)
      (inferring (infer expression) state) :=
  inferring_ends (infer_retags linked (linked.childInRange id expression isChild)
    (.single isChild) retagged)

/-- The name of a statement is read off the node of its identifier. -/
theorem identifierName_ends
    {identifier : NodeId}
    (isChild : program.Child id identifier) :
    StepEnds program id
      (fun name after => program.kind? identifier = some (.leaf (.identifier name)) ∧
        state = after)
      (lookingUp (fun program => identifierName program identifier) state) := by
  have inRange : identifier < state.program.size := by
    rw [retagged.size_eq]
    exact linked.childInRange id identifier isChild
  apply (lookingUp_ends retagged (identifierName_yields inRange)).imp _ fun _ _ isBad => isBad
  rintro name after ⟨isName, same⟩
  exact ⟨retagged.kind?_of_kind? isName rfl, same⟩

/-- The type of a declaration is found, with whether there is a value. -/
theorem declaredTy_ends
    {typeKeyword expression : Option NodeId}
    (name : String) (position : Position)
    (keywords : ∀ keyword ∈ typeKeyword, program.Child id keyword)
    (expressions : ∀ part ∈ expression, program.Child id part) :
    StepEnds program id
      (fun declared after => declared.2 = expression.isSome ∧
        Retagged (program.Under id) program after.program)
      (declaredTy name position typeKeyword expression state) := by
  have keywordEnds : ∀ keyword ∈ typeKeyword, StepEnds program id
      (fun _ after => True ∧ state = after)
      (lookingUp (fun program => keywordTy program keyword) state) := by
    intro keyword isKeyword
    apply lookingUp_ends retagged
    apply keywordTy_isReport
    rw [retagged.size_eq]
    exact linked.childInRange id keyword (keywords keyword isKeyword)
  cases typeKeyword with
  | none =>
      cases expression with
      | none => exact ⟨⟨_, rfl⟩, retagged⟩
      | some part =>
          apply (infer_child_ends linked retagged (expressions part rfl)).bind
          intro ty after retaggedAfter
          exact ⟨rfl, retaggedAfter⟩
  | some keyword =>
      cases expression with
      | none =>
          apply (keywordEnds keyword rfl).bind
          rintro ty _ ⟨_, rfl⟩
          exact ⟨rfl, retagged⟩
      | some part =>
          apply (keywordEnds keyword rfl).bind
          rintro declared _ ⟨_, rfl⟩
          apply (infer_child_ends linked retagged (expressions part rfl)).bind
          intro inferred after retaggedAfter
          split
          · exact ⟨rfl, retaggedAfter⟩
          · exact mismatch_ends retaggedAfter
              (linked.childInRange id part (expressions part rfl)) _

/-- A symbol is put into the symbol table of the nearest code block, which does not have its
name yet. -/
theorem declareSymbol_ends
    (inRange : id < program.size)
    (symbol : Symbol) (position : Position) :
    StepEnds program id
      (fun _ after => ∃ changed, program.DeclaresAt changed id symbol ∧
        Retagged (program.Under id) changed after.program)
      (declareSymbol id symbol position state) := by
  have scopeYields := linked.climbable.enclosingScope_yields inRange
  rw [← retagged.looksLike.enclosingScope_eq id] at scopeYields
  apply (lookingUp_ends retagged scopeYields).bind
  rintro scope _ ⟨⟨isScope, symbols, isTable⟩, rfl⟩
  rw [report, Running.bind_of_ok (Running.modify_apply _ _)]
  have isTableHere := retagged.symbolsAt?_eq scope
  rw [isTable] at isTableHere
  obtain ⟨node, found, hasSymbols⟩ := Option.bind_eq_some_iff.mp isTableHere
  have declared : state.program.declareIn scope symbol position =
      (StatementTree.declare symbols symbol position).map fun extended =>
        state.program.modifyKind scope (.withSymbols extended) := by
    rw [Program.declareIn, Program.node, found, ok_bind, hasSymbols, StatementTree.declare]
    dsimp only
    cases symbols.register symbol <;> rfl
  rw [Running.bind_apply, lookingUp_apply, declared, StatementTree.declare]
  cases isFresh : symbols.get? symbol.identifier with
  | some first =>
      rw [SymbolTable.register_of_get?_eq_some isFresh]
      exact ⟨⟨_, rfl⟩, retagged⟩
  | none =>
      rw [SymbolTable.register_of_get?_eq_none isFresh]
      obtain ⟨inner, outer, isChain, isNearest⟩ :=
        Program.exists_split_of_nearestScope linked.climbable inRange isScope
      exact ⟨_, ⟨inner, scope, outer, isChain, isNearest, Program.gains_insert isTable isFresh⟩,
        retagged.withSymbols scope _⟩

/-- The variable of a statement is found by lookup, in a symbol table that has it. -/
theorem resolveTarget_ends
    {identifier : NodeId}
    (inRange : id < program.size)
    (isChild : program.Child id identifier)
    (name : String) :
    StepEnds program id
      (fun target after => (program.lookup? id name = .ok (some target) ∧
        ∃ symbols, program.symbolsAt? target.1 = some symbols ∧
          symbols.get? name = some target.2) ∧ state = after)
      (resolveTarget id identifier name state) := by
  have inRangeHere : identifier < state.program.size := by
    rw [retagged.size_eq]
    exact linked.childInRange id identifier isChild
  have idInRange : id < state.program.size := by
    rw [retagged.size_eq]
    exact inRange
  have linkedHere := linked.of_bare_eq retagged.bare_eq
  apply (lookingUp_ends retagged (Program.node_yields inRangeHere)).bind
  rintro node _ ⟨_, rfl⟩
  have resolved := linkedHere.climbable.resolve_yields idInRange name node.position
  apply (lookingUp_ends retagged resolved).imp _ fun _ _ isBad => isBad
  rintro ⟨scope, symbol⟩ after ⟨⟨isFound, symbols, isTable, inTable⟩, same⟩
  rw [retagged.looksLike.lookup?_eq] at isFound
  rw [retagged.symbolsAt?_eq] at isTable
  exact ⟨⟨isFound, symbols, isTable, inTable⟩, same⟩

/-- A variable that is found in a symbol table is given a value there. -/
theorem markInitialized_ends
    {scope : NodeId} {symbols : SymbolTable} {symbol : Symbol} {name : String}
    (inRange : id < program.size)
    (isFound : program.lookup? id name = .ok (some (scope, symbol)))
    (isTable : program.symbolsAt? scope = some symbols)
    (inTable : symbols.get? name = some symbol)
    (position : Position) :
    StepEnds program id
      (fun _ after => ∃ changed, program.InitializesAt changed id name ∧
        Retagged (program.Under id) changed after.program)
      (markInitialized scope name position state) := by
  obtain ⟨chain, isChain, isInnermost⟩ :=
    Program.exists_innermost_of_lookup? linked.climbable inRange isFound
  have isTableHere := retagged.symbolsAt?_eq scope
  rw [isTable] at isTableHere
  obtain ⟨node, found, hasSymbols⟩ := Option.bind_eq_some_iff.mp isTableHere
  have marked : state.program.markInitialized scope name =
      .ok (some (true,
        state.program.modifyKind scope (.withSymbols (symbols.markInitialized name)))) := by
    rw [Program.markInitialized, Program.node, found, ok_bind, hasSymbols, Option.map_some,
      SymbolTable.contains, inTable]
    rfl
  rw [markInitialized, Running.bind_apply, lookingUp_apply, marked]
  exact ⟨_, ⟨chain, scope, symbol, isChain, isInnermost, isFound,
    Program.rebinds_markInitialized isTable inTable⟩, retagged.withSymbols scope _⟩

end

section

variable {program : Program} {id : NodeId}

/-- The parts of a statement are the children of its node. -/
theorem child_of_statement
    {statement : Statement}
    (isStatement : program.kind? id = some (.statement statement)) :
    ∀ child ∈ statement.children, program.Child id child := by
  intro child member
  obtain ⟨node, found, isKind⟩ := Option.map_eq_some_iff.mp isStatement
  refine ⟨node, found, ?_⟩
  rw [isKind]
  exact member

variable (linked : program.WellLinked) (inRange : id < program.size)

include linked inRange

/-- A statement of any form makes its one change, or fails before it. -/
theorem analyzeForm_ends
    {statement : Statement} {node : Node}
    (isNode : program.node? id = some node)
    (isStatement : node.kind = .statement statement)
    (log : Log) :
    StepEnds program id
      (fun _ after => ∃ changed, Changes program changed id statement ∧
        Retagged (program.Under id) changed after.program)
      (analyzeForm id node.position statement ⟨program, log⟩) := by
  have isKind := Program.kind?_of_node? isNode
  rw [isStatement] at isKind
  have children := child_of_statement isKind
  have unchanged : Retagged (program.Under id) program program := .refl _ program
  cases statement with
  | declaration identifier typeKeyword expression =>
      have isIdentifier := children identifier List.mem_cons_self
      apply (identifierName_ends linked unchanged isIdentifier).bind
      rintro name _ ⟨isNamed, rfl⟩
      have keywords : ∀ keyword ∈ typeKeyword, program.Child id keyword := by
        rintro keyword ⟨⟩
        exact children keyword (by simp [Statement.children])
      have expressions : ∀ part ∈ expression, program.Child id part := by
        rintro part ⟨⟩
        exact children part (by simp [Statement.children])
      apply (declaredTy_ends linked unchanged name node.position keywords expressions).bind
      rintro ⟨ty, initialized⟩ middle ⟨rfl, retagged⟩
      apply (declareSymbol_ends linked retagged inRange _ _).imp _ fun _ _ isBad => isBad
      rintro _ after ⟨changed, declares, retaggedAfter⟩
      exact ⟨changed, .declaration name ty node isNamed isNode declares, retaggedAfter⟩
  | assignment identifier expression =>
      have isIdentifier := children identifier List.mem_cons_self
      have isExpression := children expression (List.mem_cons_of_mem _ List.mem_cons_self)
      apply (identifierName_ends linked unchanged isIdentifier).bind
      rintro name _ ⟨isNamed, rfl⟩
      apply (resolveTarget_ends linked unchanged inRange isIdentifier name).bind
      rintro ⟨scope, symbol⟩ _ ⟨⟨isFound, symbols, isTable, inTable⟩, rfl⟩
      apply (infer_child_ends linked unchanged isExpression).bind
      intro inferred middle retagged
      split
      · apply (markInitialized_ends linked retagged inRange isFound isTable inTable
          node.position).imp _ fun _ _ isBad => isBad
        rintro _ after ⟨changed, initializes, retaggedAfter⟩
        exact ⟨changed, .assignment name isNamed initializes, retaggedAfter⟩
      · exact mismatch_ends retagged (linked.childInRange id expression isExpression) _
  | input identifier =>
      have isIdentifier := children identifier List.mem_cons_self
      apply (identifierName_ends linked unchanged isIdentifier).bind
      rintro name _ ⟨isNamed, rfl⟩
      apply (resolveTarget_ends linked unchanged inRange isIdentifier name).bind
      rintro ⟨scope, symbol⟩ _ ⟨⟨isFound, symbols, isTable, inTable⟩, rfl⟩
      apply (markInitialized_ends linked unchanged inRange isFound isTable inTable
        node.position).imp _ fun _ _ isBad => isBad
      rintro _ after ⟨changed, initializes, retaggedAfter⟩
      exact ⟨changed, .input name isNamed initializes, retaggedAfter⟩
  | output expression =>
      apply (infer_child_ends linked unchanged (children expression List.mem_cons_self)).bind
      intro _ after retagged
      exact ⟨program, .output rfl, retagged⟩

/-- Every node is analyzed as a statement, or refused as it is. -/
theorem analyzeStatement_leaves (log : Log) :
    Leaves program id (analyzeStatement id ⟨program, log⟩) := by
  obtain ⟨node, found⟩ := Program.exists_node_of_lt inRange
  have isNode : program.node id = .ok node := by rw [Program.node, found]
  have unchanged : Retagged (program.Under id) program program := .refl _ program
  have ends : StepEnds program id
      (fun _ after => ∃ statement changed,
        program.kind? id = some (.statement statement) ∧ Changes program changed id statement ∧
          Retagged (program.Under id) changed after.program)
      (analyzeStatement id ⟨program, log⟩) := by
    rw [analyzeStatement, Running.bind_apply, lookingUp_apply, isNode]
    cases isKind : node.kind with
    | statement statement =>
        simp only [Running.outcome_ok, isKind]
        apply (analyzeForm_ends linked inRange found isKind log).imp _ fun _ _ isBad => isBad
        rintro _ after ⟨changed, changes, retagged⟩
        refine ⟨statement, changed, ?_, changes, retagged⟩
        rw [Program.kind?_of_node? found, isKind]
    | _ =>
        simp only [Running.outcome_ok, isKind]
        exact ⟨⟨_, rfl⟩, unchanged⟩
  apply ends.imp
  · intro _ _ isGood
    exact isGood
  · rintro _ _ ⟨isReport, retagged⟩
    exact ⟨isReport, retagged, retagged.symbolsAt?_eq⟩

end

/-! ## Whole runs -/

/-- The change of a statement concerns symbols only. -/
theorem Changes.bare_eq
    {program changed : Program} {id : NodeId} {statement : Statement}
    (changes : Changes program changed id statement) :
    changed.bare = program.bare := by
  cases changes with
  | declaration name ty node isNamed isNode declares => exact declares.bare_eq
  | assignment name isNamed initializes => exact initializes.bare_eq
  | input name isNamed initializes => exact initializes.bare_eq
  | output unchanged => rw [unchanged]

/-- A run that changes nothing but types and symbols, and fails with reports only. -/
def KeepsBare (program : Program) : EStateM.Result Fault State Unit -> Prop :=
  Ends (fun _ after => after.program.bare = program.bare)
    (fun fault after => fault.IsReport ∧ after.program.bare = program.bare)

theorem analyzeStatement_keepsBare
    {program : Program} {id : NodeId}
    (linked : program.WellLinked)
    (inRange : id < program.size)
    (log : Log) :
    KeepsBare program (analyzeStatement id ⟨program, log⟩) := by
  apply (analyzeStatement_leaves linked inRange log).imp
  · rintro _ after ⟨statement, changed, _, changes, retagged⟩
    exact retagged.bare_eq.trans changes.bare_eq
  · rintro fault after ⟨isReport, retagged, _⟩
    exact ⟨isReport, retagged.bare_eq⟩

/-- Statements one after the other change nothing but types and symbols. -/
theorem analyzeAll_keepsBare
    {program : Program} {state : State} {statements : List NodeId}
    (linked : program.WellLinked)
    (inRange : ∀ id ∈ statements, id < program.size)
    (same : state.program.bare = program.bare) :
    KeepsBare program (analyzeAll statements state) := by
  induction statements generalizing state with
  | nil => exact same
  | cons first rest inductionHypothesis =>
      obtain ⟨firstInRange, restInRange⟩ := List.forall_mem_cons.mp inRange
      have inRangeHere : first < state.program.size := by
        rw [Program.size_of_mapNodes_eq same]
        exact firstInRange
      have here := analyzeStatement_keepsBare (linked.of_bare_eq same) inRangeHere state.log
      unfold KeepsBare at here
      rw [same] at here
      apply here.bind
      intro _ after sameAfter
      exact inductionHypothesis restInRange sameAfter

/-- A program is analyzed without a fault or refused with a report, and in both cases nothing but
types and symbols is changed. -/
theorem analyze_keepsBare
    {program : Program}
    (linked : program.WellLinked) :
    Yields (fun _ => True) Fault.IsReport (analyze program).result ∧
      (analyze program).program.bare = program.bare := by
  have inRange : ∀ id ∈ program.statements, id < program.size := by
    intro id member
    unfold Program.statements at member
    split at member
    · rename_i statements symbols position parent? found
      exact linked.childInRange program.code id ⟨_, found, member⟩
    · cases member
  have ends : KeepsBare program (analyzeProgram ⟨program, []⟩) := by
    rw [analyzeProgram, Running.bind_of_ok (Running.get_apply _), report,
      Running.bind_of_ok (Running.modify_apply _ _)]
    apply (analyzeAll_keepsBare linked inRange rfl).bind
    intro _ after same
    exact same
  unfold analyze
  cases result : analyzeProgram ⟨program, []⟩ with
  | ok _ state =>
      rw [result] at ends
      exact ⟨trivial, ends⟩
  | error fault state =>
      rw [result] at ends
      exact ends

/-- What is changed by an analysis.  In every program whose links lead to its nodes and do not
come back, a statement that fails leaves nothing behind but types below it, and one that succeeds
makes its one change besides.  A whole analysis keeps everything but types and symbols, and the
text of the program with it. -/
theorem analysis_frame
    {program : Program}
    (linked : program.WellLinked) :
    (∀ id < program.size, ∀ log,
      Leaves program id (analyzeStatement id ⟨program, log⟩) ∧
        KeepsBare program (analyzeStatement id ⟨program, log⟩)) ∧
      (analyze program).program.bare = program.bare ∧
      (analyze program).program.toText = program.toText := by
  have keeps := (analyze_keepsBare linked).2
  refine ⟨fun id inRange log => ⟨?_, ?_⟩, keeps, ?_⟩
  · exact analyzeStatement_leaves linked inRange log
  · exact analyzeStatement_keepsBare linked inRange log
  · rw [← Program.toText_bare, keeps, Program.toText_bare]

/-- A code block within another one.  In it the name of the outer variable is declared again, by
a declaration with one node as its name and as both operands, and a statement is to be
written. -/
def nestedBlocks : Program where
  nodes := #[
    ⟨.codeBlock [2] ⟨[⟨"x", .int, true, 1⟩], List.pairwise_singleton ..⟩, Source.nowhere, some 1⟩,
    ⟨.program 0, Source.nowhere, none⟩,
    ⟨.codeBlock [5, 6] .empty, Source.nowhere, some 0⟩,
    ⟨.leaf (.identifier "x"), Source.nowhere, some 4⟩,
    ⟨.expression ⟨.binary .divide 3 3, none⟩, Source.nowhere, some 5⟩,
    ⟨.statement (.declaration 3 none (some 4)), Source.nowhere, some 2⟩,
    ⟨.statement (.output 5), Source.nowhere, some 2⟩]
  root := 1
  code := 0

/-- The declaration succeeds in the inner block, which then has the name as well as the outer one,
and the other statement fails. -/
theorem analysis_frame_of_nested_blocks :
    (∃ after, analyzeStatement 5 ⟨nestedBlocks, []⟩ = .ok () after ∧
      Leaves nestedBlocks 5 (.ok () after) ∧
      after.program.symbolAt? 2 "x" = some ⟨"x", .float, true, 0⟩ ∧
      after.program.symbolAt? 0 "x" = some ⟨"x", .int, true, 1⟩) ∧
    (∃ fault after, analyzeStatement 6 ⟨nestedBlocks, []⟩ = .error fault after ∧
      Leaves nestedBlocks 6 (.error fault after)) ∧
    nestedBlocks.nearestScope 5 = .ok (some 2) ∧
    (analyze nestedBlocks).program.toText = nestedBlocks.toText := by
  have linked : nestedBlocks.WellLinked :=
    Program.wellLinked_of_ranked
      (by decide : nestedBlocks.ranked [5, 6, 4, 0, 1, 2, 3] [1, 0, 2, 5, 4, 3, 3] = true)
  obtain ⟨statements, _, sameText⟩ := analysis_frame linked
  have declaration := (statements 5 (by decide) []).1
  have output := (statements 6 (by decide) []).1
  exact ⟨⟨_, rfl, declaration, rfl, rfl⟩, ⟨_, _, rfl, output⟩, rfl, sameText⟩

end Typing
end ScriptLang
