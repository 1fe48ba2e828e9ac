import ScriptLang.Proofs.Program.Shape
import ScriptLang.Proofs.Typing.CommandTree
import ScriptLang.Proofs.Typing.Lines
import ScriptLang.Proofs.Typing.Refinement

/-!
# Analysis is the check of commands

The analysis of a program that walks over its nodes, looks names up along their
parents and records types as it goes has the result of the check of the commands
that the program consists of.  It leaves the environment of the check as the
symbols of the outermost code block, and at every expression the type that the
check gives it.
-/

namespace ScriptLang

open Source (Position)

/-- A symbol as a variable, apart from its name. -/
def Symbol.toVariable (symbol : Symbol) : Variable :=
  ⟨symbol.ty, symbol.initialized, symbol.line⟩

namespace SymbolTable

/-- A symbol table as an environment. -/
def environment (symbols : SymbolTable) : Environment :=
  fun name => (symbols.get? name).map Symbol.toVariable

@[simp] theorem environment_empty : empty.environment = .empty := rfl

theorem environment_markInitialized (symbols : SymbolTable) (name : String) :
    (symbols.markInitialized name).environment = symbols.environment.giveValue name := by
  funext other
  rw [environment, get?_markInitialized, Environment.giveValue, Function.update_apply]
  by_cases same : other = name
  · subst same
    rw [if_pos rfl, if_pos rfl, environment, Option.map_map, Option.map_map]
    rfl
  · rw [if_neg same, if_neg (Ne.symm same)]
    rfl

theorem environment_of_register
    {symbols extended : SymbolTable} {symbol : Symbol}
    (registered : symbols.register symbol = .ok extended) :
    extended.environment =
      symbols.environment.declare symbol.identifier symbol.toVariable := by
  funext other
  rw [environment, (get?_of_register_eq_ok registered other).2, Environment.declare,
    Function.update_apply]
  by_cases same : other = symbol.identifier
  · rw [if_pos same, if_pos same.symm]
    rfl
  · rw [if_neg same, if_neg (Ne.symm same)]
    rfl

/-- A name is found in a symbol table as it is in its environment. -/
theorem resolve_eq_find (symbols : SymbolTable) (name : String) (position : Position) :
    (symbols.resolve name position).map Symbol.toVariable =
      (symbols.environment.find name position).mapError Fault.report := by
  rw [resolve, Environment.find, environment]
  cases symbols.get? name <;> rfl

end SymbolTable

section

variable {symbols : SymbolTable}

theorem reportAt_eq_mapError (position : Position) (result : Except TypeCause Ty) :
    Typing.reportAt position result =
      (result.mapError fun cause => Diagnostic.ofType cause position).mapError Fault.report := by
  cases result <;> rfl

/-- The type of a tree is that of the expression that it is. -/
theorem Tree.typeIn_of_term?
    {tree : Tree} {term : Term}
    (isTerm : tree.term? = some term) :
    tree.typeIn symbols = (term.typeIn symbols.environment).mapError Fault.report := by
  induction tree generalizing term with
  | leaf content position =>
      cases content with
      | literal value =>
          cases isTerm
          rfl
      | typeKeyword ty => cases isTerm
      | identifier name =>
          cases isTerm
          have found := symbols.resolve_eq_find name position
          rw [typeIn, Leaf.typeIn, Term.typeIn, mapError_bind, ← found]
          cases symbols.resolve name position with
          | error fault => rfl
          | ok symbol =>
              change (if symbol.initialized = true then _ else _) =
                Except.mapError _ (if symbol.initialized = true then _ else _)
              split <;> rfl
  | unary operator position operand inductionHypothesis =>
      obtain ⟨operandTerm, operandIsTerm, result⟩ := Option.bind_eq_some_iff.mp isTerm
      cases result
      rw [typeIn, Term.typeIn, mapError_bind, ← inductionHypothesis operandIsTerm]
      simp only [reportAt_eq_mapError]
  | binary operator position left right leftHypothesis rightHypothesis =>
      obtain ⟨leftTerm, leftIsTerm, rest⟩ := Option.bind_eq_some_iff.mp isTerm
      obtain ⟨rightTerm, rightIsTerm, result⟩ := Option.bind_eq_some_iff.mp rest
      cases result
      rw [typeIn, Term.typeIn, mapError_bind, ← leftHypothesis leftIsTerm]
      simp only [mapError_bind, ← rightHypothesis rightIsTerm, reportAt_eq_mapError]

theorem Tree.position_of_term?
    {tree : Tree} {term : Term}
    (isTerm : tree.term? = some term) :
    tree.position = term.position := by
  cases tree with
  | leaf content position => cases content <;> cases isTerm <;> rfl
  | unary operator position operand =>
      obtain ⟨operandTerm, _, result⟩ := Option.bind_eq_some_iff.mp isTerm
      cases result
      rfl
  | binary operator position left right =>
      obtain ⟨leftTerm, _, rest⟩ := Option.bind_eq_some_iff.mp isTerm
      obtain ⟨rightTerm, _, result⟩ := Option.bind_eq_some_iff.mp rest
      cases result
      rfl

namespace StatementTree

theorem nameOf_of_nameAt?
    {leaf : LeafAt} {name : String} {position : Position}
    (isName : leaf.nameAt? = some (name, position))
    (id : NodeId) :
    nameOf id leaf = .ok name ∧ position = leaf.position := by
  unfold LeafAt.nameAt? at isName
  split at isName
  · next content =>
      cases isName
      rw [nameOf, content]
      exact ⟨rfl, rfl⟩
  · cases isName

theorem keywordTy_of_keyword?
    {leaf : LeafAt} {ty : Ty}
    (isKeyword : leaf.keyword? = some ty)
    (id : NodeId) :
    keywordTy id leaf = .ok ty := by
  unfold LeafAt.keyword? at isKeyword
  split at isKeyword
  · next content =>
      cases isKeyword
      rw [keywordTy, content]
  · cases isKeyword

/-- The type of a declaration is that of what it says about its variable. -/
theorem declaredTy_of_declared?
    {typeKeyword : Option LeafAt} {expression : Option Tree} {declared : Declared}
    (isDeclared : declared? typeKeyword expression = some declared)
    (start : Nat) (name : String) (position : Position) :
    declaredTy start symbols name position typeKeyword expression =
      ((declared.typeIn symbols.environment name).mapError Fault.report).map
        fun ty => (ty, declared.initializes) := by
  cases typeKeyword with
  | none =>
      cases expression with
      | none => cases isDeclared
      | some tree =>
          obtain ⟨term, isTerm, result⟩ := Option.bind_eq_some_iff.mp isDeclared
          cases result
          rw [declaredTy, tree.typeIn_of_term? isTerm]
          change _ = Except.map _ (Except.mapError _ (term.typeIn symbols.environment))
          cases term.typeIn symbols.environment <;> rfl
  | some leaf =>
      cases expression with
      | none =>
          obtain ⟨ty, isKeyword, result⟩ := Option.bind_eq_some_iff.mp isDeclared
          cases result
          rw [declaredTy, keywordTy_of_keyword? isKeyword]
          rfl
      | some tree =>
          obtain ⟨ty, isKeyword, rest⟩ := Option.bind_eq_some_iff.mp isDeclared
          obtain ⟨term, isTerm, result⟩ := Option.bind_eq_some_iff.mp rest
          cases result
          rw [declaredTy, keywordTy_of_keyword? isKeyword, tree.typeIn_of_term? isTerm,
            tree.position_of_term? isTerm, Declared.typeIn]
          cases term.typeIn symbols.environment with
          | error diagnostic => rfl
          | ok inferred =>
              change (if ty = inferred then _ else _) =
                Except.map _ (Except.mapError _ (if ty = inferred then _ else _))
              split <;> rfl

/-- The check of a statement is the check of the command that it is. -/
theorem check_of_command?
    {statement : StatementTree} {command : Command}
    (isCommand : statement.command? = some command)
    (start : Nat) :
    (statement.check start symbols).map SymbolTable.environment =
      (command.check symbols.environment).mapError Fault.report := by
  cases statement with
  | declaration position identifier typeKeyword expression =>
      obtain ⟨⟨name, place⟩, isName, rest⟩ := Option.bind_eq_some_iff.mp isCommand
      obtain ⟨declared, isDeclared, result⟩ := Option.bind_eq_some_iff.mp rest
      cases result
      obtain ⟨named, rfl⟩ := nameOf_of_nameAt? isName start
      rw [check, named, ok_bind, declaredTy_of_declared? isDeclared, Command.check]
      cases declared.typeIn symbols.environment name with
      | error diagnostic => rfl
      | ok ty =>
          let symbol : Symbol := ⟨name, ty, declared.initializes, position.line⟩
          have environment : symbols.environment name =
              (symbols.get? symbol.identifier).map Symbol.toVariable := rfl
          change (declare symbols symbol position).map SymbolTable.environment = _
          simp only [ok_bind, environment, declare]
          cases found : symbols.get? symbol.identifier with
          | some first =>
              rw [SymbolTable.register_of_get?_eq_some found]
              rfl
          | none =>
              have registered := SymbolTable.register_of_get?_eq_none found
              rw [registered]
              exact congrArg Except.ok (SymbolTable.environment_of_register registered)
  | assignment position identifier expression =>
      obtain ⟨⟨name, place⟩, isName, rest⟩ := Option.bind_eq_some_iff.mp isCommand
      obtain ⟨term, isTerm, result⟩ := Option.bind_eq_some_iff.mp rest
      cases result
      obtain ⟨named, rfl⟩ := nameOf_of_nameAt? isName start
      have found := symbols.resolve_eq_find name identifier.position
      rw [check, named, ok_bind, Command.check, mapError_bind, ← found,
        expression.typeIn_of_term? isTerm, expression.position_of_term? isTerm]
      cases symbols.resolve name identifier.position with
      | error fault => rfl
      | ok symbol =>
          have typeIs : symbol.toVariable.ty = symbol.ty := rfl
          simp only [Except.map, ok_bind, typeIs]
          cases term.typeIn symbols.environment with
          | error diagnostic => rfl
          | ok inferred =>
              simp only [Except.mapError, ok_bind]
              by_cases same : symbol.ty = inferred
              · rw [if_pos same, if_pos same]
                exact congrArg Except.ok (symbols.environment_markInitialized name)
              · rw [if_neg same, if_neg same]
                rfl
  | input position identifier =>
      obtain ⟨⟨name, place⟩, isName, result⟩ := Option.bind_eq_some_iff.mp isCommand
      cases result
      obtain ⟨named, rfl⟩ := nameOf_of_nameAt? isName start
      have found := symbols.resolve_eq_find name identifier.position
      rw [check, named, ok_bind, Command.check, mapError_bind, ← found]
      cases symbols.resolve name identifier.position with
      | error fault => rfl
      | ok symbol => exact congrArg Except.ok (symbols.environment_markInitialized name)
  | output position expression =>
      obtain ⟨term, isTerm, result⟩ := Option.bind_eq_some_iff.mp isCommand
      cases result
      rw [check, expression.typeIn_of_term? isTerm, Command.check]
      cases term.typeIn symbols.environment <;> rfl

/-- The check of statements is the check of the commands that they are. -/
theorem checkAll_of_commands
    {statements : List StatementTree} {commands : List Command}
    (areCommands : statements.mapM command? = some commands)
    (start : Nat) :
    (checkAll start symbols statements).map SymbolTable.environment =
      (Command.checkAll symbols.environment commands).mapError Fault.report := by
  induction statements generalizing start symbols commands with
  | nil =>
      cases areCommands
      rfl
  | cons first rest inductionHypothesis =>
      rw [List.mapM_cons] at areCommands
      obtain ⟨command, isCommand, restCommands⟩ := Option.bind_eq_some_iff.mp areCommands
      obtain ⟨others, areOthers, result⟩ := Option.bind_eq_some_iff.mp restCommands
      cases result
      have firstChecked : (first.check start symbols).map SymbolTable.environment = _ :=
        check_of_command? isCommand start
      rw [checkAll, Command.checkAll, mapError_bind, ← firstChecked]
      cases first.check start symbols with
      | error fault => rfl
      | ok next => exact inductionHypothesis areOthers _

theorem commands_take
    {statements : List StatementTree} {commands : List Command}
    (areCommands : statements.mapM command? = some commands)
    (count : Nat) :
    (statements.take count).mapM command? = some (commands.take count) := by
  induction statements generalizing commands count with
  | nil =>
      rw [List.mapM_nil] at areCommands
      cases areCommands
      rw [List.take_nil, List.take_nil]
      rfl
  | cons first rest inductionHypothesis =>
      rw [List.mapM_cons] at areCommands
      obtain ⟨command, isCommand, restCommands⟩ := Option.bind_eq_some_iff.mp areCommands
      obtain ⟨others, areOthers, result⟩ := Option.bind_eq_some_iff.mp restCommands
      cases result
      cases count with
      | zero => rfl
      | succ count =>
          rw [List.take_succ_cons, List.mapM_cons, isCommand, inductionHypothesis areOthers]
          rfl

/-- Statements that are checked without a fault are commands that are checked without one. -/
theorem checkAll_of_checkAll_eq_ok
    {statements : List StatementTree} {commands : List Command} {start : Nat}
    {last : SymbolTable}
    (areCommands : statements.mapM command? = some commands)
    (checked : checkAll start symbols statements = .ok last) :
    Command.checkAll symbols.environment commands = .ok last.environment := by
  have agree : (checkAll start symbols statements).map SymbolTable.environment = _ :=
    checkAll_of_commands areCommands start
  rw [checked] at agree
  cases result : Command.checkAll symbols.environment commands with
  | error diagnostic =>
      rw [result] at agree
      cases agree
  | ok environment =>
      rw [result] at agree
      cases agree
      rfl

end StatementTree

end

namespace Program

/-- The expression at a node is recorded with the type that it has in an environment. -/
def TypedIn (program : Program) (environment : Environment) (id : NodeId) : Prop :=
  ∀ expression, program.kind? id = some (.expression expression) ->
    ∃ term ty, program.term? id = some term ∧ term.typeIn environment = .ok ty ∧
      expression.ty? = some ty

/-- Every expression belongs to a statement, and is recorded with the type that it has in the
environment after the commands before that statement. -/
def Annotated (program : Program) (commands : List Command) : Prop :=
  ∀ id expression, program.kind? id = some (.expression expression) ->
    ∃ (index : Nat) (statement : NodeId) (before : Environment),
      program.statements[index]? = some statement ∧ program.Under statement id ∧
        Command.checkAll .empty (commands.take index) = .ok before ∧ program.TypedIn before id

section

variable {program : Program} {symbols : SymbolTable} {start : Nat} {parent? : Option NodeId}

/-- A node that no expression stands at has no type to record. -/
theorem typedIn_of_not_expression
    {environment : Environment} {id : NodeId} {node : Node}
    (found : program.node? id = some node)
    (other : ∀ expression, node.kind ≠ .expression expression) :
    program.TypedIn environment id := by
  intro expression isExpression
  rw [kind?_of_node? found] at isExpression
  exact absurd (Option.some.inj isExpression) (other expression)

/-- The type of the tree that a node is viewed as is recorded there. -/
theorem typedIn_of_tree
    {tree : Tree} {id : NodeId} {node : Node} {ty : Ty}
    (isTerm : ∃ term, tree.term? = some term)
    (typed : tree.typeIn symbols = .ok ty)
    (viewed : program.term? id = tree.term?)
    (found : program.node? id = some node)
    (recorded : ∀ expression, node.kind = .expression expression ->
      expression.ty? = tree.typing symbols) :
    program.TypedIn symbols.environment id := by
  intro expression isExpression
  rw [kind?_of_node? found] at isExpression
  obtain ⟨term, isTerm⟩ := isTerm
  refine ⟨term, ty, viewed.trans isTerm, ?_, ?_⟩
  · rw [tree.typeIn_of_term? isTerm] at typed
    cases result : term.typeIn symbols.environment with
    | error diagnostic =>
        rw [result] at typed
        cases typed
    | ok _ =>
        rw [result] at typed
        cases typed
        rfl
  · exact (recorded expression (Option.some.inj isExpression)).trans
      (Tree.typing_of_typeIn_eq_ok typed)

/-- The types of all parts of a well-typed expression are recorded. -/
theorem typedIn_of_expressionLayout
    {good : Leaf -> Prop} {tree : Tree} {ty : Ty} {id : Nat}
    (holds : program.Holds start (tree.expressionLayout (Tree.typing symbols) start parent?))
    (every : tree.Every fun content => (∀ ty, content ≠ .typeKeyword ty) ∧ good content)
    (typed : tree.typeIn symbols = .ok ty)
    (least : start ≤ id)
    (greatest : id ≤ start + tree.expressionDescendants) :
    program.TypedIn symbols.environment id := by
  rcases exists_part_of_expressionLayout holds least greatest with
    ⟨part, first, above?, isPart, partHolds, rfl⟩ | ⟨content, position, rfl, rfl⟩
  · obtain ⟨partTy, partTyped⟩ := Tree.exists_typeIn_of_part isPart typed
    refine typedIn_of_tree (Tree.exists_term? (every.of_part isPart)) partTyped
      (term?_of_layout partHolds) (node?_of_layout partHolds) ?_
    intro expression isExpression
    cases part <;> cases isExpression <;> rfl
  · refine typedIn_of_tree (Tree.exists_term? every) typed (term?_of_expressionLayout holds)
      (node?_of_expressionLayout holds) ?_
    intro expression isExpression
    cases isExpression
    rfl

/-- The types of all expressions in a statement that is checked without a fault are
recorded. -/
theorem typedIn_of_statement
    {good : Leaf -> Prop} {statement : StatementTree} {place : Nat} {next : SymbolTable}
    {id : Nat}
    (holds : program.Holds start (statement.layout (Tree.typing symbols) start parent?))
    (wellFormed : statement.WellFormed good)
    (checked : statement.check place symbols = .ok next)
    (least : start ≤ id)
    (greatest : id ≤ start + statement.descendants) :
    program.TypedIn symbols.environment id := by
  rcases node_of_statement holds least greatest with
    rfl | ⟨leaf, _, found⟩ | ⟨tree, isExpression, treeHolds, behindLeaves, inExpression⟩
  · exact typedIn_of_not_expression (holds_statement holds).2.2 nofun
  · exact typedIn_of_not_expression found nofun
  · obtain ⟨_, ty, typed⟩ := StatementTree.exists_typeIn_of_check checked isExpression
    exact typedIn_of_expressionLayout treeHolds (wellFormed.of_expression? isExpression).1 typed
      behindLeaves inExpression

/-- The program of statements that are checked without a fault is annotated. -/
theorem annotated_assemble
    {good : Leaf -> Prop} {statements : List StatementTree} {commands : List Command}
    {last : SymbolTable}
    (position : Position)
    (wellFormed : ∀ statement ∈ statements, statement.WellFormed good)
    (areCommands : statements.mapM StatementTree.command? = some commands)
    (checked : StatementTree.checkAll 2 .empty statements = .ok last) :
    (assemble position symbols (StatementTree.typedAll 2 .empty statements)).Annotated
      commands := by
  intro id expression isExpression
  obtain ⟨least, inRange⟩ := range_of_isExpression ⟨expression, isExpression⟩
  obtain ⟨index, here, first, isStatement, isTop, statementHolds, leastHere, greatest⟩ :=
    exists_statement_of_lt
      (holds_assemble position symbols (StatementTree.typedAll 2 .empty statements)) least inRange
  obtain ⟨place, before, next, takenChecked, hereChecked, isTree, isTag⟩ :=
    StatementTree.exists_of_getElem?_typedAll checked isStatement
  rw [isTag] at statementHolds
  refine ⟨index, _, before.environment, ?_,
    (subtree_of_statement statementHolds).under leastHere greatest, ?_, ?_⟩
  · rw [statements_assemble]
    exact isTop
  · exact StatementTree.checkAll_of_checkAll_eq_ok
      (StatementTree.commands_take areCommands index) takenChecked
  · exact typedIn_of_statement statementHolds
      (wellFormed _ (List.mem_of_getElem? isTree)) hereChecked leastHere greatest

end

end Program

/-- Analysis is the check of commands.  The program of a source consists of commands, its
analysis has the result of their check, and if they are accepted, it leaves the environment of
the check as the symbols of the outermost code block, and at every expression its type. -/
theorem analyze_eq_checkAll
    {source sourceFile : String} {tokens : List Token} {file : String} {program : Program}
    (tokenized : Token.tokenize source sourceFile = .ok tokens)
    (parsed : Grammar.parse tokens file = .ok program) :
    ∃ commands, program.commands? = some commands ∧
      (Typing.analyze program).result =
        ((Command.checkAll .empty commands).mapError Fault.report).map (fun _ => ()) ∧
      ∀ environment, Command.checkAll .empty commands = .ok environment ->
        (Typing.analyze program).program.commands? = some commands ∧
          (Typing.analyze program).program.symbols.environment = environment ∧
          (Typing.analyze program).program.Annotated commands := by
  obtain ⟨statements, wellFormed, rfl⟩ := Grammar.exists_wellFormed_of_parse tokenized parsed
  obtain ⟨commands, areCommands⟩ := StatementTree.exists_commands wellFormed
  have agree : (StatementTree.checkAll 2 .empty statements).map SymbolTable.environment =
      (Command.checkAll .empty commands).mapError Fault.report :=
    StatementTree.checkAll_of_commands areCommands 2
  have analyzed := Typing.analyze_assemble (Grammar.Sentence.startOf tokens file) statements
  refine ⟨commands, ?_, ?_, ?_⟩
  · rw [Grammar.untaggedProgram, Program.commands?_assemble, Tagged.map_statement_plain,
      areCommands]
  · rw [Grammar.untaggedProgram, analyzed, ← agree]
    cases StatementTree.checkAll 2 .empty statements <;> rfl
  · intro environment accepted
    rw [accepted] at agree
    rw [Grammar.untaggedProgram, analyzed]
    cases checked : StatementTree.checkAll 2 .empty statements with
    | error fault =>
        rw [checked] at agree
        cases agree
    | ok symbols =>
        rw [checked] at agree
        cases agree
        simp only [Typing.analyzedProgram_of_checkAll_eq_ok _ checked]
        refine ⟨?_, ?_, Program.annotated_assemble _ wellFormed areCommands checked⟩
        · rw [Program.commands?_assemble, StatementTree.map_statement_typedAll, areCommands]
        · rw [Program.symbols_assemble]

/-- A program with a declaration, an assignment that reads its own target, and an output. -/
theorem analyze_eq_checkAll_of_assignment :
    ∃ tokens program commands,
      Token.tokenize "declare x = 1; x := x + 2; stdout x < 3.5;" "" = .ok tokens ∧
      Grammar.parse tokens "" = .ok program ∧
      program.commands? = some commands ∧
      (Typing.analyze program).result =
        ((Command.checkAll .empty commands).mapError Fault.report).map (fun _ => ()) := by
  obtain ⟨tokens, program, tokenized, parsed⟩ := Grammar.exists_of_parses
    (by decide +kernel : Grammar.parses
      "declare x = 1; x := x + 2; stdout x < 3.5;" "" = true)
  obtain ⟨commands, areCommands, agree, _⟩ := analyze_eq_checkAll tokenized parsed
  exact ⟨tokens, program, commands, tokenized, parsed, areCommands, agree⟩

end ScriptLang
