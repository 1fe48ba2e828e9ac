import ScriptLang.Proofs.Program.Shape
import ScriptLang.Proofs.Typing.History
import ScriptLang.Proofs.Typing.Refinement

/-!
# Definite assignment

After the analysis of the first statements of a program its symbols are what these
statements have declared and given values.  In an accepted program every name is
therefore declared once and before it is used, and has a value wherever it is
read; and a name that is blamed for the lack of a declaration or of a value lacks
it.
-/

namespace ScriptLang

open Source (Position)
open Grammar (untaggedProgram)

namespace Program

/-- The name that the statement at a node assigns or reads. -/
def targetName? (program : Program) (id : NodeId) : Option String := do
  match ← program.kind? id with
  | .statement (.assignment identifier _) => return (← program.nameAt? identifier).1
  | .statement (.input identifier) => return (← program.nameAt? identifier).1
  | _ => none

/-- The expression of the statement at a node. -/
def expressionOf? (program : Program) (id : NodeId) : Option NodeId := do
  match ← program.kind? id with
  | .statement (.declaration _ _ expression) => expression
  | .statement (.assignment _ expression) => return expression
  | .statement (.output expression) => return expression
  | _ => none

/-- The type that is recorded at an expression. -/
def recordedTy? (program : Program) (id : NodeId) : Option Ty := do
  match ← program.kind? id with
  | .expression expression => expression.ty?
  | _ => none

/-- The type that the declaration at a node gives its variable: that of its keyword, or else the
one that is recorded at its value. -/
def declaredTy? (program : Program) (id : NodeId) : Option Ty := do
  match ← program.kind? id with
  | .statement (.declaration _ (some typeKeyword) _) => program.keyword? typeKeyword
  | .statement (.declaration _ none (some expression)) => program.recordedTy? expression
  | _ => none

/-- The line of a node. -/
def line? (program : Program) (id : NodeId) : Option Nat :=
  (program.node? id).map fun node => node.position.line

/-- The statement with a number declares a name. -/
def Declares (program : Program) (index : Nat) (name : String) : Prop :=
  program.statements[index]?.bind program.declaredName? = some name

/-- The statement with a number declares a name and gives it a value. -/
def Initializes (program : Program) (index : Nat) (name : String) : Prop :=
  program.Declares index name ∧
    (program.statements[index]?.bind program.expressionOf?).isSome

/-- The statement with a number assigns or reads a name. -/
def Targets (program : Program) (index : Nat) (name : String) : Prop :=
  program.statements[index]?.bind program.targetName? = some name

/-- The statement with a number gives a name a value. -/
def GivesValue (program : Program) (index : Nat) (name : String) : Prop :=
  program.Initializes index name ∨ program.Targets index name

/-- A name occurs in the expression of the statement with a number. -/
def Mentions (program : Program) (index : Nat) (name : String) : Prop :=
  ∃ top leaf, program.statements[index]?.bind program.expressionOf? = some top ∧
    program.Under top leaf ∧ program.kind? leaf = some (.leaf (.identifier name))

/-- Another program has exactly the symbols that the first statements declare, each with the
line of its declaration and with the type that is declared or recorded for it; those have been
given values that are declared with one or that a later one of these statements assigns or
reads. -/
structure Records (program after : Program) (count : Nat) : Prop where
  names : after.symbols.names.Perm
    ((program.statements.take count).filterMap program.declaredName?)
  symbol : ∀ index name, index < count -> program.Declares index name ->
    ∃ symbol, after.symbols.get? name = some symbol ∧
      program.statements[index]?.bind program.line? = some symbol.line ∧
      after.statements[index]?.bind after.declaredTy? = some symbol.ty ∧
      (symbol.initialized = true ↔ program.Initializes index name ∨
        ∃ later, index < later ∧ later < count ∧ program.Targets later name)

/-- Every name is declared once and before it is used, and has a value where it is read. -/
structure Definite (program : Program) : Prop where
  once : (program.statements.filterMap program.declaredName?).Nodup
  target : ∀ index name, program.Targets index name ->
    ∃ first, first < index ∧ program.Declares first name
  mention : ∀ index name, program.Mentions index name ->
    ∃ first giving, first ≤ giving ∧ giving < index ∧ program.Declares first name ∧
      program.GivesValue giving name

/-- The analysis gets through the statements before the one with a number, which fails. -/
def FailsAt (program : Program) (fault : Fault) (index : Nat) : Prop :=
  ∃ id before after, program.statements[index]? = some id ∧
    Typing.analyzeAll (program.statements.take index)
      ⟨program, [.analyzing program.statements.length]⟩ = .ok () before ∧
    Typing.analyzeStatement id before = .error fault after

namespace Records

variable {program after : Program} {count : Nat}

/-- A symbol that is recorded is that of a declaration. -/
theorem exists_declares
    (records : program.Records after count)
    {name : String} {symbol : Symbol}
    (found : after.symbols.get? name = some symbol) :
    ∃ first, first < count ∧ program.Declares first name ∧
      (symbol.initialized = true ↔ program.Initializes first name ∨
        ∃ later, first < later ∧ later < count ∧ program.Targets later name) := by
  have declared := (after.symbols.mem_names_iff name).mpr ⟨symbol, found⟩
  rw [records.names.mem_iff, List.mem_filterMap] at declared
  obtain ⟨id, member, isName⟩ := declared
  obtain ⟨first, isFirst⟩ := List.mem_iff_getElem?.mp member
  rw [List.getElem?_take] at isFirst
  split at isFirst
  · next inRange =>
      have declares : program.Declares first name := by
        rw [Declares, isFirst]
        exact isName
      obtain ⟨other, otherFound, _, _, initialized⟩ := records.symbol first name inRange declares
      rw [found] at otherFound
      cases otherFound
      exact ⟨first, inRange, declares, initialized⟩
  · cases isFirst

/-- What is declared is recorded. -/
theorem not_declares
    (records : program.Records after count)
    {name : String}
    (missing : after.symbols.get? name = none) :
    ∀ first, first < count -> ¬ program.Declares first name := by
  intro first inRange declares
  obtain ⟨symbol, found, _⟩ := records.symbol first name inRange declares
  rw [missing] at found
  cases found

end Records

section

variable {program : Program} {tag : Tree.Tagging} {start : Nat} {parent? : Option NodeId}
  {statement : StatementTree}

theorem targetName?_of_holds
    (holds : program.Holds start (statement.layout tag start parent?)) :
    program.targetName? (start + statement.descendants) = statement.targetName? := by
  obtain ⟨leaf, _⟩ := parts_of_statement holds
  rw [targetName?, kind?_of_node? (holds_statement holds).2.2]
  cases statement with
  | declaration position identifier typeKeyword initializer => rfl
  | assignment position identifier tree =>
      have name : program.nameAt? start = identifier.nameAt? := (leaf 0 identifier rfl).1
      rw [StatementTree.targetName?, ← name]
      change ((program.nameAt? start).bind fun named => some named.1) = _
      rw [Option.map_eq_bind]
      rfl
  | input position identifier =>
      have name : program.nameAt? start = identifier.nameAt? := (leaf 0 identifier rfl).1
      rw [StatementTree.targetName?, ← name]
      change ((program.nameAt? start).bind fun named => some named.1) = _
      rw [Option.map_eq_bind]
      rfl
  | output position tree => rfl

theorem expressionOf?_of_holds
    (holds : program.Holds start (statement.layout tag start parent?)) :
    program.expressionOf? (start + statement.descendants) =
      statement.expression?.map (statement.expressionTop start) := by
  rw [expressionOf?, kind?_of_node? (holds_statement holds).2.2]
  cases statement <;> rfl

theorem line?_of_holds
    (holds : program.Holds start (statement.layout tag start parent?)) :
    program.line? (start + statement.descendants) = some statement.position.line := by
  rw [line?, (holds_statement holds).2.2]
  rfl

theorem recordedTy?_of_expressionLayout
    {tree : Tree}
    (holds : program.Holds start (tree.expressionLayout tag start parent?)) :
    program.recordedTy? (start + tree.expressionDescendants) = tag tree := by
  rw [recordedTy?, kind?_of_node? (node?_of_expressionLayout holds)]
  rfl

theorem declaredTy?_of_holds
    (holds : program.Holds start (statement.layout tag start parent?)) :
    program.declaredTy? (start + statement.descendants) = statement.declaredTy? tag := by
  obtain ⟨leaf, _⟩ := parts_of_statement holds
  obtain ⟨_, expressionHolds, top⟩ := holds_statement holds
  rw [declaredTy?, kind?_of_node? top]
  cases statement with
  | declaration position identifier typeKeyword initializer =>
      cases typeKeyword with
      | some keyword => exact (leaf 1 keyword rfl).2
      | none =>
          cases initializer with
          | none => rfl
          | some tree => exact recordedTy?_of_expressionLayout expressionHolds
  | assignment position identifier tree => rfl
  | input position identifier => rfl
  | output position tree => rfl

/-- A name that occurs at a node of an expression is read in its tree. -/
theorem mentions_of_expressionLayout
    {tree : Tree} {leaf : NodeId} {name : String}
    (holds : program.Holds start (tree.expressionLayout tag start parent?))
    (under : program.Under (start + tree.expressionDescendants) leaf)
    (isName : program.kind? leaf = some (.leaf (.identifier name))) :
    tree.Mentions name := by
  have subtree := subtree_of_expressionLayout holds
  obtain ⟨least, greatest⟩ := subtree.le_of_under subtree.ordered (Nat.le_refl _) under
  rcases exists_part_of_expressionLayout holds least greatest with
    ⟨part, first, above?, isPart, partHolds, rfl⟩ | ⟨content, position, rfl, rfl⟩
  · rw [kind?_of_node? (node?_of_layout partHolds)] at isName
    cases part with
    | leaf content position =>
        cases isName
        exact ⟨position, isPart⟩
    | unary operator position operand => cases isName
    | binary operator position left right => cases isName
  · have top : program.node? (start + 1) = some _ := node?_of_expressionLayout holds
    rw [kind?_of_node? top] at isName
    cases isName

end

section

variable {position : Position} {symbols : SymbolTable} {statements : List Tagged}
  {β : Type} {reading : StatementTree -> β}

/-- What every statement of a program is seen as. -/
theorem map_statements_assemble
    {view : NodeId -> β}
    (seen : ∀ {tag : Tree.Tagging} {statement : StatementTree} {start : Nat},
      (assemble position symbols statements).Holds start
          (statement.layout tag start (some 0)) ->
        view (start + statement.descendants) = reading statement) :
    (assemble position symbols statements).statements.map view =
      (statements.map Tagged.statement).map reading := by
  rw [statements_assemble]
  apply List.ext_getElem?
  intro index
  rw [List.getElem?_map, List.getElem?_map, List.getElem?_map]
  rcases getElem?_tops (holds_assemble position symbols statements) index with
    ⟨missing, isMissing⟩ | ⟨tagged, first, isTree, isTop, here⟩
  · rw [missing, isMissing]
    rfl
  · rw [isTree, isTop]
    exact congrArg some (seen here)

/-- What the statement with a number is seen as. -/
theorem bind_statements_assemble
    {view : NodeId -> Option β} {reading : StatementTree -> Option β}
    (seen : ∀ {tag : Tree.Tagging} {statement : StatementTree} {start : Nat},
      (assemble position symbols statements).Holds start
          (statement.layout tag start (some 0)) ->
        view (start + statement.descendants) = reading statement)
    (index : Nat) :
    (assemble position symbols statements).statements[index]?.bind view =
      (statements.map Tagged.statement)[index]?.bind reading := by
  rw [statements_assemble, List.getElem?_map, Option.bind_map]
  exact bind_getElem?_tops (holds_assemble position symbols statements)
    (fun _ _ here => seen here) index

end

section

variable {position : Position} {statements : List StatementTree} {index : Nat} {name : String}

/-- The names that a program declares. -/
theorem map_declaredName?_untaggedProgram (position : Position) (statements : List StatementTree) :
    (untaggedProgram position statements).statements.map
        (untaggedProgram position statements).declaredName? =
      statements.map StatementTree.declaredName? := by
  rw [untaggedProgram, map_statements_assemble declaredName?_of_holds,
    Tagged.map_statement_plain]

theorem filterMap_eq_of_map_eq
    {α β γ : Type} {first : α -> Option γ} {second : β -> Option γ} {list : List α}
    {other : List β}
    (same : list.map first = other.map second) :
    list.filterMap first = other.filterMap second := by
  have asMap := congrArg (List.filterMap id) same
  rwa [List.filterMap_map, List.filterMap_map] at asMap

theorem declares_untaggedProgram :
    (untaggedProgram position statements).Declares index name ↔
      statements[index]?.bind StatementTree.declaredName? = some name := by
  rw [Declares, untaggedProgram, bind_statements_assemble declaredName?_of_holds,
    Tagged.map_statement_plain]

theorem targets_untaggedProgram :
    (untaggedProgram position statements).Targets index name ↔
      statements[index]?.bind StatementTree.targetName? = some name := by
  rw [Targets, untaggedProgram, bind_statements_assemble targetName?_of_holds,
    Tagged.map_statement_plain]

theorem initializes_untaggedProgram :
    (untaggedProgram position statements).Initializes index name ↔
      ∃ statement, statements[index]? = some statement ∧
        statement.declaredName? = some name ∧ statement.expression?.isSome := by
  have holds := holds_assemble position .empty (statements.map Tagged.plain)
  rw [Initializes, declares_untaggedProgram, Option.bind_eq_some_iff]
  rcases getElem?_tops holds index with
    ⟨_, missing⟩ | ⟨tagged, first, isTagged, isTop, here⟩
  · rw [List.getElem?_map, Option.map_eq_none_iff] at missing
    simp [missing]
  · rw [List.getElem?_map] at isTagged
    obtain ⟨statement, isStatement, rfl⟩ := Option.map_eq_some_iff.mp isTagged
    have isExpression := expressionOf?_of_holds here
    rw [untaggedProgram, statements_assemble, isTop, isStatement]
    simp only [Option.bind_some, isExpression, Option.isSome_map, Option.some.injEq,
      exists_eq_left']
    rfl

/-- A name that occurs in the expression of a statement is read in its tree. -/
theorem exists_of_mentions_untaggedProgram
    (mentions : (untaggedProgram position statements).Mentions index name) :
    ∃ statement tree, statements[index]? = some statement ∧
      statement.expression? = some tree ∧ tree.Mentions name := by
  obtain ⟨top, leaf, isTop, under, isName⟩ := mentions
  have holds := holds_assemble position .empty (statements.map Tagged.plain)
  obtain ⟨id, isId, isExpression⟩ := Option.bind_eq_some_iff.mp isTop
  rw [untaggedProgram, statements_assemble] at isId
  obtain ⟨tagged, first, isTagged, rfl, here⟩ := exists_of_getElem?_tops holds isId
  rw [List.getElem?_map] at isTagged
  obtain ⟨statement, isStatement, rfl⟩ := Option.map_eq_some_iff.mp isTagged
  rw [untaggedProgram, expressionOf?_of_holds here] at isExpression
  obtain ⟨tree, isTree, rfl⟩ := Option.map_eq_some_iff.mp isExpression
  obtain ⟨_, expressionHolds, _⟩ := holds_statement here
  rw [isTree] at expressionHolds
  exact ⟨statement, tree, isStatement, isTree,
    mentions_of_expressionLayout expressionHolds under isName⟩

/-- The elements of a stretch of a list. -/
theorem exists_mem_drop_take_iff
    {α β : Type} {f : α -> Option β} {list : List α} {index count : Nat} {value : β} :
    (∃ element ∈ (list.take count).drop (index + 1), f element = some value) ↔
      ∃ later, index < later ∧ later < count ∧ list[later]?.bind f = some value := by
  constructor
  · rintro ⟨element, member, isValue⟩
    obtain ⟨offset, found⟩ := List.mem_iff_getElem?.mp member
    rw [List.getElem?_drop, List.getElem?_take] at found
    split at found
    · next inRange =>
        refine ⟨index + 1 + offset, by omega, inRange, ?_⟩
        rw [found]
        exact isValue
    · cases found
  · rintro ⟨later, behind, inRange, isValue⟩
    obtain ⟨element, found, isValue⟩ := Option.bind_eq_some_iff.mp isValue
    refine ⟨element, List.mem_iff_getElem?.mpr ⟨later - (index + 1), ?_⟩, isValue⟩
    rw [List.getElem?_drop, Nat.add_sub_cancel' behind, List.getElem?_take, if_pos inRange, found]

/-- The first statements of a program that are accepted are recorded. -/
theorem records_of_checkAll
    {count : Nat} {last : SymbolTable}
    (position : Position)
    (checked : StatementTree.checkAll 2 .empty (statements.take count) = .ok last) :
    (untaggedProgram position statements).Records
      (assemble position last (StatementTree.typedAll 2 .empty (statements.take count) ++
        (statements.drop count).map Tagged.plain)) count := by
  let typed := StatementTree.typedAll 2 .empty (statements.take count)
  have remembers : last.Remembers typed := SymbolTable.Remembers.empty.run checked
  have names : typed.map Tagged.statement = statements.take count :=
    StatementTree.map_statement_typedAll ..
  constructor
  · have declared := congrArg (List.take count)
      (map_declaredName?_untaggedProgram position statements)
    rw [← List.map_take, ← List.map_take] at declared
    rw [symbols_assemble, filterMap_eq_of_map_eq declared, ← names]
    exact remembers.names
  · intro index name inRange declares
    obtain ⟨statement, found, isName⟩ :=
      Option.bind_eq_some_iff.mp (declares_untaggedProgram.mp declares)
    have taken : (statements.take count)[index]? = some statement := by
      rw [List.getElem?_take, if_pos inRange, found]
    obtain ⟨tagged, isTagged, rfl⟩ := StatementTree.exists_getElem?_typedAll taken 2 .empty
    obtain ⟨symbol, isSymbol, line, ty, initialized⟩ :=
      remembers.symbol index tagged name isTagged isName
    refine ⟨symbol, ?_, ?_, ?_, ?_⟩
    · rw [symbols_assemble]
      exact isSymbol
    · rw [untaggedProgram, bind_statements_assemble line?_of_holds, Tagged.map_statement_plain,
        found, line]
      rfl
    · have inTyped := (List.getElem?_eq_some_iff.mp isTagged).1
      rw [statements_assemble, bind_getElem?_tops (holds_assemble position last _)
        (fun _ _ here => declaredTy?_of_holds here), List.getElem?_append_left inTyped, isTagged]
      exact ty
    · rw [initialized, initializes_untaggedProgram, names, exists_mem_drop_take_iff]
      simp only [targets_untaggedProgram, found, Option.some.injEq, exists_eq_left', isName,
        true_and]

/-- Names are declared and have values where the check of a program needs it. -/
theorem definite_of_checkAll
    {last : SymbolTable}
    (position : Position)
    (checked : StatementTree.checkAll 2 .empty statements = .ok last) :
    (untaggedProgram position statements).Definite := by
  have before : ∀ {index : Nat} {statement : StatementTree}, statements[index]? = some statement ->
      ∃ (place : Nat) (symbols next : SymbolTable),
        statement.check place symbols = .ok next ∧
        ∀ name symbol, symbols.get? name = some symbol ->
          ∃ first, first < index ∧ (untaggedProgram position statements).Declares first name ∧
            (symbol.initialized = true ↔
              (untaggedProgram position statements).Initializes first name ∨
              ∃ later, first < later ∧ later < index ∧
                (untaggedProgram position statements).Targets later name) := by
    intro index statement found
    obtain ⟨tagged, isTagged, rfl⟩ := StatementTree.exists_getElem?_typedAll found 2 .empty
    obtain ⟨place, symbols, next, takenChecked, hereChecked, _⟩ :=
      StatementTree.exists_of_getElem?_typedAll checked isTagged
    have records := records_of_checkAll position takenChecked
    refine ⟨place, symbols, next, hereChecked, fun name symbol isSymbol => ?_⟩
    rw [← symbols_assemble position symbols] at isSymbol
    exact records.exists_declares isSymbol
  constructor
  · have names := (SymbolTable.Remembers.empty.run checked).names
    rw [List.nil_append, StatementTree.map_statement_typedAll] at names
    rw [filterMap_eq_of_map_eq (map_declaredName?_untaggedProgram position statements)]
    exact names.nodup_iff.mp last.nodup_names
  · intro index name targets
    obtain ⟨statement, found, isTarget⟩ :=
      Option.bind_eq_some_iff.mp (targets_untaggedProgram.mp targets)
    obtain ⟨place, symbols, next, hereChecked, recorded⟩ := before found
    cases StatementTree.effect_of_check hereChecked with
    | declares _ noTarget => cases noTarget.symm.trans isTarget
    | givesValue _ otherTarget isSymbol =>
        cases otherTarget.symm.trans isTarget
        obtain ⟨first, earlier, declares, _⟩ := recorded name _ isSymbol
        exact ⟨first, earlier, declares⟩
    | keeps _ noTarget => cases noTarget.symm.trans isTarget
  · intro index name mentions
    obtain ⟨statement, tree, found, isTree, occurs⟩ :=
      exists_of_mentions_untaggedProgram mentions
    obtain ⟨place, symbols, next, hereChecked, recorded⟩ := before found
    obtain ⟨_, ty, typed⟩ := StatementTree.exists_typeIn_of_check hereChecked isTree
    obtain ⟨symbol, isSymbol, initialized⟩ := Tree.exists_of_mentions typed occurs
    obtain ⟨first, earlier, declares, givesValue⟩ := recorded name symbol isSymbol
    rcases givesValue.mp initialized with initializes | ⟨later, behind, inRange, targets⟩
    · exact ⟨first, first, Nat.le_refl _, earlier, declares, .inl initializes⟩
    · exact ⟨first, later, Nat.le_of_lt behind, inRange, declares, .inr targets⟩

end

end Program

namespace Typing

/-- An analysis that fails gets to a statement that fails. -/
theorem exists_failing
    {ids : List NodeId} {state after : State} {fault : Fault}
    (failed : analyzeAll ids state = .error fault after) :
    ∃ index id before, ids[index]? = some id ∧
      analyzeAll (ids.take index) state = .ok () before ∧
      analyzeStatement id before = .error fault after := by
  induction ids generalizing state with
  | nil => cases failed
  | cons first rest inductionHypothesis =>
      rw [analyzeAll, Running.bind_apply] at failed
      cases analyzed : analyzeStatement first state with
      | error _ _ =>
          rw [analyzed] at failed
          exact ⟨0, first, state, rfl, rfl, analyzed.trans failed⟩
      | ok _ middle =>
          rw [analyzed] at failed
          obtain ⟨index, id, before, found, done, fails⟩ := inductionHypothesis failed
          refine ⟨index + 1, id, before, found, ?_, fails⟩
          rw [List.take_succ_cons, analyzeAll, Running.bind_of_ok analyzed]
          exact done

/-- The analysis of one more statement. -/
theorem analyzeAll_take_succ
    {ids : List NodeId} {index : Nat} {id : NodeId} {state before : State}
    (found : ids[index]? = some id)
    (done : analyzeAll (ids.take index) state = .ok () before) :
    analyzeAll (ids.take (index + 1)) state = analyzeStatement id before := by
  induction ids generalizing index state with
  | nil => cases found
  | cons first rest inductionHypothesis =>
      cases index with
      | zero =>
          cases found
          cases done
          rw [List.take_succ_cons, List.take_zero, analyzeAll, Running.bind_apply]
          cases analyzeStatement id before <;> rfl
      | succ index =>
          rw [List.take_succ_cons, analyzeAll, Running.bind_apply] at done
          rw [List.take_succ_cons, analyzeAll, Running.bind_apply]
          cases analyzed : analyzeStatement first state with
          | error _ _ =>
              rw [analyzed] at done
              cases done
          | ok _ middle =>
              rw [analyzed] at done
              exact inductionHypothesis found done

/-- The analysis of the first statements of a program is their check. -/
theorem analyzeAll_take
    (position : Position) (statements : List StatementTree) (count : Nat) (log : Log) :
    ∃ after, analyzeAll ((untaggedProgram position statements).statements.take count)
        ⟨untaggedProgram position statements, log⟩ =
          Running.outcome
            ((StatementTree.checkAll 2 .empty (statements.take count)).map fun _ => ()) after ∧
      ∀ last, StatementTree.checkAll 2 .empty (statements.take count) = .ok last ->
        after.program = Program.assemble position last
          (StatementTree.typedAll 2 .empty (statements.take count) ++
            (statements.drop count).map Tagged.plain) := by
  let first := statements.take count
  let ids := Tagged.tops 2 (statements.map Tagged.plain)
  let rest := Tagged.layouts (2 + Tagged.extent (first.map Tagged.plain))
    ((statements.drop count).map Tagged.plain)
  have run := analyzeAll_eq position ids .empty [] rest first log
  have split : statements.map Tagged.plain =
      first.map Tagged.plain ++ (statements.drop count).map Tagged.plain := by
    rw [← List.map_append, List.take_append_drop]
  have taken : (untaggedProgram position statements).statements.take count =
      Tagged.tops 2 (first.map Tagged.plain) := by
    rw [untaggedProgram, Program.statements_assemble, Tagged.tops_take, List.map_take]
  have program : untaggedProgram position statements = (Program.frame position ids .empty).extend
      ([] ++ Tagged.layouts 2 (first.map Tagged.plain) ++ rest) := by
    rw [List.nil_append, ← Tagged.layouts_append, ← split]
    rfl
  rw [taken, program]
  refine ⟨_, run, ?_⟩
  intro last checked
  obtain ⟨symbolsAre, nodesAre⟩ := StatementTree.reachedAll_of_checkAll_eq_ok checked
  have tops : Tagged.tops 2 (StatementTree.typedAll 2 .empty first ++
      (statements.drop count).map Tagged.plain) = ids := by
    apply Tagged.tops_congr
    rw [split, List.map_append, List.map_append, StatementTree.map_statement_typedAll_eq_plain]
  rw [Program.assemble, tops, Tagged.layouts_append, StatementTree.extent_typedAll, ← nodesAre,
    ← symbolsAre]
  rfl

/-- The analysis gets through the first statements exactly if their check does, and leaves them
with their types. -/
theorem exists_of_analyzeAll_take_eq_ok
    {position : Position} {statements : List StatementTree} {count : Nat} {log : Log}
    {state : State}
    (done : analyzeAll ((untaggedProgram position statements).statements.take count)
      ⟨untaggedProgram position statements, log⟩ = .ok () state) :
    ∃ last, StatementTree.checkAll 2 .empty (statements.take count) = .ok last ∧
      state.program = Program.assemble position last
        (StatementTree.typedAll 2 .empty (statements.take count) ++
          (statements.drop count).map Tagged.plain) := by
  obtain ⟨after, run, leaves⟩ := analyzeAll_take position statements count log
  rw [done] at run
  cases checked : StatementTree.checkAll 2 .empty (statements.take count) with
  | error fault =>
      rw [checked] at run
      cases run
  | ok last =>
      rw [checked] at run
      cases run
      exact ⟨last, rfl, leaves last checked⟩

/-- An analysis with a fault fails at one of the statements. -/
theorem exists_failsAt
    {program : Program} {fault : Fault}
    (failed : (analyze program).result = .error fault) :
    ∃ index, program.FailsAt fault index := by
  rw [analyze, analyzeProgram, Running.bind_of_ok (Running.get_apply _), report,
    Running.bind_of_ok (Running.modify_apply _ _), Running.bind_apply] at failed
  cases run : analyzeAll program.statements
      ⟨program, [.analyzing program.statements.length]⟩ with
  | ok _ after =>
      simp only [List.nil_append, run] at failed
      cases failed
  | error _ after =>
      simp only [List.nil_append, run] at failed
      cases failed
      obtain ⟨index, id, before, found, done, fails⟩ := exists_failing run
      exact ⟨index, id, before, after, found, done, fails⟩

/-- The statement at which the analysis of a program fails is refused by its check. -/
theorem exists_check_of_failsAt
    {position : Position} {statements : List StatementTree} {fault : Fault} {index : Nat}
    (fails : (untaggedProgram position statements).FailsAt fault index) :
    ∃ (symbols : SymbolTable) (statement : StatementTree) (place : Nat),
      StatementTree.checkAll 2 .empty (statements.take index) = .ok symbols ∧
        statement.check place symbols = .error fault := by
  obtain ⟨id, before, after, found, done, failed⟩ := fails
  obtain ⟨symbols, checked, _⟩ := exists_of_analyzeAll_take_eq_ok done
  obtain ⟨last, run, _⟩ := analyzeAll_take position statements (index + 1)
    [.analyzing (untaggedProgram position statements).statements.length]
  rw [analyzeAll_take_succ found done, failed] at run
  have inRange : index < statements.length := by
    have isId := (List.getElem?_eq_some_iff.mp found).1
    rwa [untaggedProgram, Program.statements_assemble, Tagged.length_tops, List.length_map]
      at isId
  have isStatement := List.getElem?_eq_getElem inRange
  obtain ⟨place, oneMore⟩ := StatementTree.exists_checkAll_take_succ isStatement checked
  refine ⟨symbols, statements[index], place, checked, ?_⟩
  rw [← oneMore]
  cases result : StatementTree.checkAll 2 .empty (statements.take (index + 1)) with
  | ok _ =>
      rw [result] at run
      cases run
  | error _ =>
      rw [result] at run
      cases run
      rfl

end Typing

/-- Definite assignment.  After the analysis of the first statements of a parsed program its
symbols are what these statements record.  In an accepted program every name is declared once
and before it is used, and has a value where it is read.  An analysis that fails does so at some
statement: a name that is undeclared there is declared by no earlier statement, and one that is
uninitialized there is declared without a value, and no statement in between gives it one. -/
theorem definiteAssignment_of_parse
    {tokens : List Token} {file : String} {program : Program}
    (parsed : Grammar.parse tokens file = .ok program) :
    (∀ count log state,
      Typing.analyzeAll (program.statements.take count) ⟨program, log⟩ = .ok () state ->
        program.Records state.program count) ∧
    ((Typing.analyze program).result = .ok () -> program.Definite) ∧
    (∀ fault, (Typing.analyze program).result = .error fault ->
      ∃ index, program.FailsAt fault index) ∧
    ∀ fault index, program.FailsAt fault index ->
      (∀ name position, fault = .report ⟨.undeclared name, position⟩ ->
        ∀ first, first < index -> ¬ program.Declares first name) ∧
      ∀ name position, fault = .report ⟨.uninitialized name, position⟩ ->
        ∃ first, first < index ∧ program.Declares first name ∧
          ¬ program.Initializes first name ∧
          ∀ later, first < later -> later < index -> ¬ program.Targets later name := by
  obtain ⟨statements, _, rfl⟩ := Grammar.exists_statements_of_parse parsed
  refine ⟨?_, ?_, fun _ => Typing.exists_failsAt, ?_⟩
  · intro count log state done
    obtain ⟨last, checked, leaves⟩ := Typing.exists_of_analyzeAll_take_eq_ok done
    rw [leaves]
    exact Program.records_of_checkAll _ checked
  · intro accepted
    rw [untaggedProgram, Typing.analyze_assemble] at accepted
    cases checked : StatementTree.checkAll 2 .empty statements with
    | error fault =>
        rw [checked] at accepted
        cases accepted
    | ok last => exact Program.definite_of_checkAll _ checked
  · intro fault index fails
    obtain ⟨symbols, statement, place, checked, refused⟩ := Typing.exists_check_of_failsAt fails
    obtain ⟨undeclared, uninitialized⟩ :=
      (statement.check_blames place symbols).fault refused
    have records := Program.records_of_checkAll (Grammar.Sentence.startOf tokens file) checked
    constructor
    · intro name position isFault
      refine records.not_declares ?_
      rw [Program.symbols_assemble]
      exact undeclared name position isFault
    · intro name position isFault
      obtain ⟨symbol, found, noValue⟩ := uninitialized name position isFault
      rw [← Program.symbols_assemble (Grammar.Sentence.startOf tokens file) symbols] at found
      obtain ⟨first, earlier, declares, givesValue⟩ := records.exists_declares found
      have never := fun gives => Bool.false_ne_true (noValue.symm.trans (givesValue.mpr gives))
      refine ⟨first, earlier, declares, fun initializes => never (.inl initializes), ?_⟩
      intro later behind inRange targets
      exact never (.inr ⟨later, behind, inRange, targets⟩)

/-- A program that reads a variable into which it has read before. -/
theorem definiteAssignment_of_input :
    ∃ tokens program,
      Token.tokenize "declare a : int; stdin a; a := a + 1; stdout a;" "" = .ok tokens ∧
      Grammar.parse tokens "" = .ok program ∧
      (∀ count log state,
        Typing.analyzeAll (program.statements.take count) ⟨program, log⟩ = .ok () state ->
          program.Records state.program count) ∧
      ((Typing.analyze program).result = .ok () -> program.Definite) := by
  obtain ⟨tokens, program, tokenized, parsed⟩ := Grammar.exists_of_parses
    (by decide +kernel : Grammar.parses
      "declare a : int; stdin a; a := a + 1; stdout a;" "" = true)
  obtain ⟨records, definite, _⟩ := definiteAssignment_of_parse parsed
  exact ⟨tokens, program, tokenized, parsed, records, definite⟩

end ScriptLang
