import ScriptLang.Proofs.Typing.Preparation

/-!
# Interrupted statements

Which types an analysis leaves in the nodes of a statement.  A statement that is
accepted has the types that the rules give, and one that the analysis has not come to
has none.  One that fails has none if it was stopped in front of its expression and all
if it was stopped behind it, and otherwise those of the nodes that come in post-order
before the one whose rule fails.
-/

namespace ScriptLang

namespace Program

/-- How a statement of a program fails, and which nodes below it have types then in the program
that is left. -/
inductive StopsAt (program final : Program) (id : NodeId) (fault : Fault) :
    (NodeId -> Prop) -> Prop
  /-- The statement fails in front of its expression, of which no node has a type. -/
  | unready
      (isUnready : program.Unready final.symbols id fault) :
      StopsAt program final id fault fun _ => False
  /-- The expression fails at the first node in post-order whose rule fails, and the nodes in front
  of that node have types. -/
  | inside
      (top failing : NodeId) (earlier later : List NodeId)
      (ready : ∀ other, ¬ program.Unready final.symbols id other)
      (isExpression : program.expressionOf? id = some top)
      (order : program.postorder top = earlier ++ failing :: later)
      (typed : ∀ node ∈ earlier, final.TypedAt node)
      (refused : final.verdict? failing = some (.error fault)) :
      StopsAt program final id fault fun node => node ∈ earlier
  /-- The statement fails behind its expression, of which all nodes have types. -/
  | behind
      (ready : ∀ other, ¬ program.Unready final.symbols id other)
      (late : fault.IsLate)
      (typed : ∀ top, program.expressionOf? id = some top ->
        ∀ node ∈ program.postorder top, final.TypedAt node) :
      StopsAt program final id fault fun _ => True

/-- A node stands for the type that its rule gives if a condition holds, and otherwise no type is
recorded there. -/
def TypedIff (program : Program) (id : NodeId) (condition : Prop) : Prop :=
  condition ∧ program.TypedAt id ∨ ¬ condition ∧ program.recordedTy? id = none

/-- The statement with the given nodes fails, and the types that this tells of are left there. -/
def StopsWithin (program final : Program) (start top : Nat) (fault : Fault) : Prop :=
  ∃ within, program.StopsAt final top fault within ∧
    ∀ id : Nat, start ≤ id -> id ≤ top -> program.IsExpression id ->
      final.TypedIff id (within id)

section

variable {program final : Program} {symbols : SymbolTable} {tag : Tree.Tagging} {start : Nat}
  {parent? : Option NodeId} {statement : StatementTree} {fault : Fault}

/-- The type that is recorded at an expression is the one that it stands for as an operand. -/
theorem recordedTy?_eq_operandTy?
    {id : NodeId}
    (isExpression : program.IsExpression id) :
    program.recordedTy? id = program.operandTy? id := by
  obtain ⟨expression, isKind⟩ := isExpression
  rw [recordedTy?, operandTy?, isKind]
  rfl

theorem isExpression_of_recordedTy?
    {id : NodeId} {ty : Ty}
    (recorded : program.recordedTy? id = some ty) :
    program.IsExpression id := by
  obtain ⟨kind, isKind, isTy⟩ := Option.bind_eq_some_iff.mp recorded
  cases kind with
  | expression expression => exact ⟨expression, isKind⟩
  | _ => cases isTy

namespace TypedIff

variable {id : NodeId} {condition : Prop} (typedIff : program.TypedIff id condition)

include typedIff

/-- The condition tells whether a type is recorded at an expression. -/
theorem isSome_iff (isExpression : program.IsExpression id) :
    (program.recordedTy? id).isSome ↔ condition := by
  rcases typedIff with ⟨holds, ty, _, standsFor⟩ | ⟨fails, untyped⟩
  · rw [recordedTy?_eq_operandTy? isExpression, standsFor]
    exact iff_of_true rfl holds
  · rw [untyped]
    exact iff_of_false Bool.false_ne_true fails

/-- The type that is recorded is the one that the rule gives. -/
theorem verdict?_eq
    {ty : Ty}
    (recorded : program.recordedTy? id = some ty) :
    program.verdict? id = some (.ok ty) := by
  have isExpression := isExpression_of_recordedTy? recorded
  rcases typedIff with ⟨_, other, verdict, standsFor⟩ | ⟨_, untyped⟩
  · rw [recordedTy?_eq_operandTy? isExpression, standsFor] at recorded
    rw [verdict, Option.some.inj recorded]
  · rw [untyped] at recorded
    cases recorded

end TypedIff

/-- The expressions of a statement are nodes of its expression. -/
theorem exists_tree_of_isExpression
    {id : Nat}
    (holds : program.Holds start (statement.layout tag start parent?))
    (least : start ≤ id)
    (greatest : id ≤ start + statement.descendants)
    (isExpression : program.IsExpression id) :
    ∃ tree, statement.expression? = some tree ∧ start + statement.leaves.length ≤ id ∧
      id ≤ statement.expressionTop start tree := by
  obtain ⟨expression, isKind⟩ := isExpression
  rcases node_of_statement holds least greatest with
    rfl | ⟨leaf, _, found⟩ | ⟨tree, isTree, _, inRange⟩
  · rw [kind?_of_statement holds] at isKind
    cases isKind
  · rw [kind?_of_node? found] at isKind
    cases isKind
  · exact ⟨tree, isTree, inRange⟩

section

variable {tree : Tree} (isTree : statement.expression? = some tree)

include isTree

/-- The nodes of the expression of a statement. -/
theorem holds_expressionLayout
    (holds : program.Holds start (statement.layout tag start parent?)) :
    program.Holds (start + statement.leaves.length)
      (tree.expressionLayout tag (start + statement.leaves.length)
        (some (start + statement.descendants))) := by
  have nodes := (holds_statement holds).2.1
  rw [isTree] at nodes
  exact nodes

/-- The nodes of the expression of a statement in which the analysis has come to it. -/
theorem holds_expressionReached
    (holds : program.Holds start (statement.reached symbols start parent?))
    (reaches : statement.reachesExpression start symbols = true) :
    program.Holds (start + statement.leaves.length)
      (tree.expressionReached symbols (start + statement.leaves.length)
        (some (start + statement.descendants))) := by
  simp only [StatementTree.reached, isTree, reaches, if_true] at holds
  rw [holds_append, holds_append, List.length_map] at holds
  exact holds.1.2

/-- The post-order of the expression of a statement. -/
theorem postorder_of_statement
    (holds : program.Holds start (statement.layout tag start parent?)) :
    program.expressionOf? (start + statement.descendants) =
        some (statement.expressionTop start tree) ∧
      program.postorder (statement.expressionTop start tree) =
        List.range' (start + statement.leaves.length) (tree.expressionDescendants + 1) := by
  constructor
  · rw [expressionOf?_of_holds holds, isTree, Option.map_some]
  · exact postorder_of_expressionLayout (holds_expressionLayout isTree holds)

end

/-! ## Failing statements -/

/-- What a statement leaves that fails in front of its expression. -/
theorem stopsAt_of_unready
    (holds : program.Holds start (statement.layout Tree.untagged start parent?))
    (reached : final.Holds start (statement.reached final.symbols start parent?))
    (unprepared : statement.prepare start final.symbols = .error fault) :
    program.StopsWithin final start (start + statement.descendants) fault := by
  refine ⟨_, .unready (unready_of_prepare holds unprepared), ?_⟩
  intro id least greatest isExpression
  obtain ⟨tree, isTree, behindLeaves, inExpression⟩ :=
    exists_tree_of_isExpression holds least greatest isExpression
  have untouched : statement.reachesExpression start final.symbols = false := by
    rw [StatementTree.reachesExpression_eq_isOk isTree, unprepared]
    rfl
  rw [StatementTree.reached_eq_layout _ (.inr untouched)] at reached
  exact .inr ⟨not_false, recordedTy?_of_untagged_expressionLayout
    (holds_expressionLayout isTree reached) behindLeaves inExpression⟩

/-- What a statement leaves that fails in its expression. -/
theorem stopsAt_of_untyped
    {tree : Tree}
    (holds : program.Holds start (statement.layout Tree.untagged start parent?))
    (reached : final.Holds start (statement.reached final.symbols start parent?))
    (prepared : statement.prepare start final.symbols = .ok ())
    (isTree : statement.expression? = some tree)
    (untyped : tree.typeIn final.symbols = .error fault) :
    program.StopsWithin final start (start + statement.descendants) fault := by
  have reaches : statement.reachesExpression start final.symbols = true := by
    rw [StatementTree.reachesExpression_eq_isOk isTree, prepared]
    rfl
  obtain ⟨failing, stops⟩ := exists_stopsAmong_of_expressionReached
    (holds_expressionReached isTree reached reaches) untyped
  obtain ⟨isTop, order⟩ := postorder_of_statement isTree holds
  let first := start + statement.leaves.length
  -- The numbers are in post-order, so the nodes in front of the failing one begin the order.
  obtain ⟨count, rfl⟩ := Nat.exists_eq_add_of_le stops.least
  have inRange : count ≤ tree.expressionDescendants :=
    Nat.le_of_add_le_add_left stops.greatest
  have split : List.range' first (tree.expressionDescendants + 1) =
      List.range' first count ++ (first + count) ::
        List.range' (first + count + 1) (tree.expressionDescendants - count) := by
    rw [← List.range'_succ, List.range'_append_1]
    congr 1
    omega
  have earlierTyped : ∀ node ∈ List.range' first count, final.TypedAt node := by
    intro node member
    obtain ⟨least, inFront⟩ := List.mem_range'_1.mp member
    exact stops.typed node least inFront
  refine ⟨_, .inside _ (first + count) (List.range' first count) _ (ready_of_prepare holds prepared)
    isTop (order.trans split) earlierTyped stops.refused, ?_⟩
  intro id least greatest isExpression
  obtain ⟨other, isOther, behindLeaves, inExpression⟩ :=
    exists_tree_of_isExpression holds least greatest isExpression
  obtain rfl := Option.some.inj (isTree.symm.trans isOther)
  rcases Nat.lt_or_ge id (first + count) with inFront | behind
  · exact .inl ⟨List.mem_range'_1.mpr ⟨behindLeaves, inFront⟩,
      stops.typed id behindLeaves inFront⟩
  · refine .inr ⟨fun member => ?_, stops.untagged id behind inExpression⟩
    exact Nat.not_lt_of_le behind (List.mem_range'_1.mp member).2

/-- What a statement leaves that fails behind its expression. -/
theorem stopsAt_of_late
    (holds : program.Holds start (statement.layout Tree.untagged start parent?))
    (reached : final.Holds start (statement.reached final.symbols start parent?))
    (prepared : statement.prepare start final.symbols = .ok ())
    (late : fault.IsLate)
    (typed : ∀ tree ∈ statement.expression?, ∃ ty, tree.typeIn final.symbols = .ok ty) :
    program.StopsWithin final start (start + statement.descendants) fault := by
  have allTyped : ∀ tree, statement.expression? = some tree ->
      ∀ id : Nat, start + statement.leaves.length ≤ id ->
        id ≤ statement.expressionTop start tree -> final.TypedAt id := by
    intro tree isTree id behindLeaves inExpression
    obtain ⟨ty, treeTyped⟩ := typed tree isTree
    have reaches : statement.reachesExpression start final.symbols = true := by
      rw [StatementTree.reachesExpression_eq_isOk isTree, prepared]
      rfl
    rw [StatementTree.reached_of_typeIn_eq_ok _ isTree reaches treeTyped] at reached
    exact typedAt_of_expressionLayout (.refl _) (holds_expressionLayout isTree reached) treeTyped
      behindLeaves inExpression
  refine ⟨_, .behind (ready_of_prepare holds prepared) late ?_, ?_⟩
  · intro top isTop node member
    cases isTree : statement.expression? with
    | none =>
        rw [expressionOf?_of_holds holds, isTree] at isTop
        cases isTop
    | some tree =>
        obtain ⟨isTreeTop, order⟩ := postorder_of_statement isTree holds
        obtain rfl := Option.some.inj (isTreeTop.symm.trans isTop)
        rw [order] at member
        obtain ⟨behindLeaves, inFront⟩ := List.mem_range'_1.mp member
        exact allTyped tree isTree node behindLeaves (Nat.le_of_lt_succ inFront)
  · intro id least greatest isExpression
    obtain ⟨tree, isTree, behindLeaves, inExpression⟩ :=
      exists_tree_of_isExpression holds least greatest isExpression
    exact .inl ⟨trivial, allTyped tree isTree id behindLeaves inExpression⟩

/-- What a statement leaves that fails. -/
theorem exists_stopsAt
    (holds : program.Holds start (statement.layout Tree.untagged start parent?))
    (reached : final.Holds start (statement.reached final.symbols start parent?))
    (failed : statement.check start final.symbols = .error fault) :
    program.StopsWithin final start (start + statement.descendants) fault := by
  rcases StatementTree.cases_of_check failed with
    unprepared | ⟨prepared, ⟨tree, isTree, untyped⟩ | ⟨late, typed⟩⟩
  · exact stopsAt_of_unready holds reached unprepared
  · exact stopsAt_of_untyped holds reached prepared isTree untyped
  · exact stopsAt_of_late holds reached prepared late typed

/-! ## Statements that are accepted or not come to -/

/-- The expressions of statements that are checked without a fault stand for the types that
their rules give. -/
theorem typedAt_of_typedAll
    {statements : List StatementTree} {last : SymbolTable} {id : Nat}
    (checked : StatementTree.checkAll start symbols statements = .ok last)
    (sameSymbols : program.symbols = last)
    (holds : program.Holds start
      (Tagged.layouts start (StatementTree.typedAll start symbols statements)))
    (least : start ≤ id)
    (less : id < start + Tagged.extent (statements.map Tagged.plain))
    (isExpression : program.IsExpression id) :
    ∃ (index : Nat) (top : NodeId), index < statements.length ∧
      (Tagged.tops start (statements.map Tagged.plain))[index]? = some top ∧
      program.Under top id ∧ program.TypedAt id := by
  rw [← StatementTree.extent_typedAll start symbols] at less
  obtain ⟨index, tagged, first, isTagged, isTop, here, leastHere, greatest⟩ :=
    exists_statement_of_lt holds least less
  obtain ⟨place, before, next, takenChecked, hereChecked, isStatement, isTag⟩ :=
    StatementTree.exists_of_getElem?_typedAll checked isTagged
  rw [isTag] at here
  refine ⟨index, _, (List.getElem?_eq_some_iff.mp isStatement).1, ?_,
    (subtree_of_statement here).under leastHere greatest, ?_⟩
  · rw [← StatementTree.tops_typedAll start symbols]
    exact isTop
  · obtain ⟨tree, isTree, behindLeaves, inExpression⟩ :=
      exists_tree_of_isExpression here leastHere greatest isExpression
    obtain ⟨_, ty, typed⟩ := StatementTree.exists_typeIn_of_check hereChecked isTree
    have grows : before.Grows program.symbols := by
      rw [sameSymbols]
      exact StatementTree.grows_of_checkAll_take checked takenChecked
    exact typedAt_of_expressionLayout grows (holds_expressionLayout isTree here) typed
      behindLeaves inExpression

/-- No type is recorded in statements that the check has not come to. -/
theorem recordedTy?_of_plain
    {statements : List StatementTree} {id : Nat}
    (holds : program.Holds start (Tagged.layouts start (statements.map Tagged.plain)))
    (least : start ≤ id)
    (less : id < start + Tagged.extent (statements.map Tagged.plain))
    (isExpression : program.IsExpression id) :
    ∃ (index : Nat) (top : NodeId),
      (Tagged.tops start (statements.map Tagged.plain))[index]? = some top ∧
      program.Under top id ∧ program.recordedTy? id = none := by
  obtain ⟨index, tagged, first, isTagged, isTop, here, leastHere, greatest⟩ :=
    exists_statement_of_lt holds least less
  rw [List.getElem?_map] at isTagged
  obtain ⟨statement, _, rfl⟩ := Option.map_eq_some_iff.mp isTagged
  refine ⟨index, _, isTop, (subtree_of_statement here).under leastHere greatest, ?_⟩
  obtain ⟨tree, isTree, behindLeaves, inExpression⟩ :=
    exists_tree_of_isExpression here leastHere greatest isExpression
  exact recordedTy?_of_untagged_expressionLayout (holds_expressionLayout isTree here)
    behindLeaves inExpression

end

end Program
end ScriptLang
