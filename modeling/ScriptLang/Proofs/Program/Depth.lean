import ScriptLang.Program.Printer
import ScriptLang.Proofs.Program.Frontier
import ScriptLang.Proofs.Program.Links

/-!
# The depth of expressions

How many operators are nested at a node of a program, and how many nodes there are
on the ways down from it.  What goes down from a node to its children, as printing
does, needs no greater depth than that, and below the statements of a program both
numbers are bounded when the trees of the expressions are.
-/

namespace ScriptLang

namespace Program

/-- The nesting of the operators at a node: a leaf has none, and an operator has one more than
its deepest operand. -/
def nesting? (program : Program) (id : NodeId) : Option Nat :=
  (program.tree? id).map Tree.nesting

/-- On no way down from a node there are more nodes than the given number, the node itself
counted. -/
def Within (program : Program) (height : Nat) (id : NodeId) : Prop :=
  ∀ path, List.IsChain program.Child (id :: path) -> (id :: path).length ≤ height

variable {program other : Program} {height : Nat} {id : NodeId}

theorem not_within_zero : ¬ program.Within 0 id := by
  intro within
  exact Nat.not_succ_le_zero _ (within [] (.singleton id))

/-- A node has one more node on its longest way down than its children have. -/
theorem within_succ_iff :
    program.Within (height + 1) id ↔
      ∀ child, program.Child id child -> program.Within height child := by
  constructor
  · intro within child isChild path isWay
    exact Nat.le_of_succ_le_succ (within (child :: path) (.cons_cons isChild isWay))
  · intro children path isWay
    cases path with
    | nil => exact Nat.succ_le_succ (Nat.zero_le _)
    | cons child rest =>
        obtain ⟨isChild, restIsWay⟩ := List.isChain_cons_cons.mp isWay
        exact Nat.succ_le_succ (children child isChild rest restIsWay)

theorem Within.mono
    {higher : Nat}
    (within : program.Within height id)
    (le : height ≤ higher) :
    program.Within higher id :=
  fun path isWay => Nat.le_trans (within path isWay) le

/-- The ways down are those of any program that differs in types and symbols only. -/
theorem within_iff_of_bare_eq (same : other.bare = program.bare) :
    other.Within height id ↔ program.Within height id := by
  unfold Within
  rw [child_eq_of_bare_eq same]

/-! ## Printing -/

/-- The text of a node only depends on the texts of its children. -/
theorem kindText_congr
    {textOf otherText : NodeId -> String} {kind : NodeKind}
    (same : ∀ child ∈ kind.children, textOf child = otherText child) :
    kindText textOf kind = kindText otherText kind := by
  cases kind with
  | program code => exact same code List.mem_cons_self
  | codeBlock statements symbols =>
      apply List.foldl_ext
      intro text statement member
      rw [same statement member]
  | statement statement =>
      cases statement with
      | declaration identifier typeKeyword expression =>
          have identifierText := same identifier List.mem_cons_self
          have parts : ∀ part ∈ typeKeyword.toList ++ expression.toList,
              textOf part = otherText part :=
            fun part member => same part (List.mem_cons_of_mem _ member)
          cases typeKeyword <;> cases expression <;>
            simp_all [kindText, statementText]
      | assignment identifier expression =>
          simp only [kindText, statementText, same identifier List.mem_cons_self,
            same expression (List.mem_cons_of_mem _ List.mem_cons_self)]
      | input identifier =>
          simp only [kindText, statementText, same identifier List.mem_cons_self]
      | output expression =>
          simp only [kindText, statementText, same expression List.mem_cons_self]
  | expression expression =>
      obtain ⟨form, ty?⟩ := expression
      cases form with
      | binary operator left right =>
          simp only [kindText, expressionText, same left List.mem_cons_self,
            same right (List.mem_cons_of_mem _ List.mem_cons_self)]
      | unary operator operand =>
          simp only [kindText, expressionText, same operand List.mem_cons_self]
      | single leaf => exact same leaf List.mem_cons_self
  | leaf content => rfl

/-- Printing a node goes no deeper than the ways down from it. -/
theorem nodeText_of_within
    {depth : Nat}
    (within : program.Within height id)
    (deep : height ≤ depth) :
    program.nodeText depth id = program.nodeText height id := by
  induction height generalizing depth id with
  | zero => exact absurd within not_within_zero
  | succ height inductionHypothesis =>
      obtain ⟨less, rfl⟩ : ∃ less, depth = less + 1 := ⟨depth - 1, by omega⟩
      rw [nodeText, nodeText]
      cases found : program.node? id with
      | none => rfl
      | some node =>
          apply kindText_congr
          intro child isNamed
          apply inductionHypothesis (within_succ_iff.mp within child ⟨node, found, isNamed⟩)
          exact Nat.le_of_succ_le_succ deep

/-! ## Trees that stand in a program -/

section

variable {tag : Tree.Tagging} {start : Nat} {parent? : Option NodeId} {tree : Tree}

theorem nesting?_of_layout (holds : program.Holds start (tree.layout tag start parent?)) :
    program.nesting? (start + tree.descendants) = some tree.nesting := by
  rw [nesting?, tree?_of_layout holds, Option.map_some]

/-- The ways down from a node are those down from its children. -/
theorem within_succ_of_node?
    {node : Node}
    (found : program.node? id = some node)
    (children : ∀ child ∈ node.kind.children, program.Within height child) :
    program.Within (height + 1) id := by
  apply within_succ_iff.mpr
  rintro child ⟨_, alsoFound, isNamed⟩
  rw [found] at alsoFound
  cases alsoFound
  exact children child isNamed

/-- On the longest way down from the top of a tree there are its nested operators and a leaf. -/
theorem within_of_layout (holds : program.Holds start (tree.layout tag start parent?)) :
    program.Within (tree.nesting + 1) (start + tree.descendants) := by
  have top := node?_of_layout holds
  induction tree generalizing start parent? with
  | leaf content position => exact within_succ_of_node? top nofun
  | unary operator position operand inductionHypothesis =>
      rw [Tree.layout_unary, holds_append] at holds
      have operandWithin := inductionHypothesis holds.1 (node?_of_layout holds.1)
      exact within_succ_of_node? top (List.forall_mem_singleton.mpr operandWithin)
  | binary operator position left right leftHypothesis rightHypothesis =>
      rw [Tree.layout_binary, holds_append, holds_append, Tree.length_layout] at holds
      obtain ⟨⟨leftHolds, rightHolds⟩, _⟩ := holds
      have leftWithin := leftHypothesis leftHolds (node?_of_layout leftHolds)
      have rightWithin := rightHypothesis rightHolds (node?_of_layout rightHolds)
      exact within_succ_of_node? top <| List.forall_mem_cons.mpr
        ⟨leftWithin.mono (Nat.succ_le_succ (Nat.le_max_left ..)),
          List.forall_mem_singleton.mpr
            (rightWithin.mono (Nat.succ_le_succ (Nat.le_max_right ..)))⟩

/-- At no node of a whole expression more operators are nested than in its tree. -/
theorem exists_nesting?_of_expressionLayout
    (holds : program.Holds start (tree.expressionLayout tag start parent?))
    (least : start ≤ id)
    (greatest : id ≤ start + tree.expressionDescendants) :
    ∃ depth ≤ tree.nesting, program.nesting? id = some depth := by
  rcases exists_part_of_expressionLayout holds least greatest with
    ⟨part, first, above?, isPart, partHolds, rfl⟩ | ⟨content, place, rfl, rfl⟩
  · exact ⟨part.nesting, isPart.nesting_le, nesting?_of_layout partHolds⟩
  · exact ⟨0, Nat.le_refl 0, congrArg (Option.map Tree.nesting) (tree?_of_expressionLayout holds)⟩

/-- The ways down in a whole expression are as long as in its tree, or two nodes long in a bare
leaf that is wrapped. -/
theorem exists_within_of_expressionLayout
    (holds : program.Holds start (tree.expressionLayout tag start parent?))
    (least : start ≤ id)
    (greatest : id ≤ start + tree.expressionDescendants) :
    ∃ height, program.Within height id ∧ height ≤ max tree.nesting 1 + 1 ∧ height ≤ id + 1 := by
  rcases exists_part_of_expressionLayout holds least greatest with
    ⟨part, first, above?, isPart, partHolds, rfl⟩ | ⟨content, place, rfl, rfl⟩
  · have notDeeper := isPart.nesting_le
    have fewer := part.nesting_le_descendants
    exact ⟨part.nesting + 1, within_of_layout partHolds, by omega, by omega⟩
  · have top := node?_of_expressionLayout holds
    change program.Holds start ([_] ++ [_]) at holds
    rw [holds_append, holds_singleton] at holds
    have leafWithin : program.Within 1 start := within_succ_of_node? holds.1 nofun
    exact ⟨2, within_succ_of_node? top (List.forall_mem_singleton.mpr leafWithin),
      Nat.succ_le_succ (Nat.le_max_right ..), Nat.succ_le_succ (Nat.le_add_left ..)⟩

end

/-! ## Whole programs -/

section

variable {position : Source.Position} {symbols : SymbolTable} {statements : List Tagged}
  {limit : Nat}
  (inLimit : ∀ tagged ∈ statements, ∀ tree ∈ tagged.statement.expression?, tree.nesting ≤ limit)

include inLimit

/-- At every expression of a program the operators are nested within the limit of its trees. -/
theorem exists_nesting?_assemble
    (isExpression : (assemble position symbols statements).IsExpression id) :
    ∃ depth ≤ limit, (assemble position symbols statements).nesting? id = some depth := by
  obtain ⟨least, less⟩ := range_of_isExpression isExpression
  obtain ⟨expression, isKind⟩ := isExpression
  obtain ⟨_, tagged, first, isStatement, _, holds, leastHere, greatest⟩ :=
    exists_statement_of_lt (holds_assemble position symbols statements) least less
  rcases node_of_statement holds leastHere greatest with
    rfl | ⟨leaf, _, found⟩ | ⟨tree, hasTree, treeHolds, behindLeaves, inTree⟩
  · rw [kind?_of_node? (holds_statement holds).2.2] at isKind
    cases isKind
  · rw [kind?_of_node? found] at isKind
    cases isKind
  · obtain ⟨depth, notDeeper, isNesting⟩ :=
      exists_nesting?_of_expressionLayout treeHolds behindLeaves inTree
    have within := inLimit tagged (List.mem_of_getElem? isStatement) tree hasTree
    exact ⟨depth, Nat.le_trans notDeeper within, isNesting⟩

/-- The ways down from the parts of a statement are one node longer than the limit. -/
theorem exists_within_assemble
    {statement part : NodeId}
    (isStatement : statement ∈ (assemble position symbols statements).statements)
    (isPart : (assemble position symbols statements).Child statement part) :
    ∃ height, (assemble position symbols statements).Within height part ∧
      height ≤ max limit 1 + 1 ∧ height ≤ (assemble position symbols statements).size := by
  rw [statements_assemble] at isStatement
  obtain ⟨index, found⟩ := List.mem_iff_getElem?.mp isStatement
  obtain ⟨tagged, first, isTagged, rfl, holds⟩ :=
    exists_of_getElem?_tops (holds_assemble position symbols statements) found
  have ordered := (subtree_of_statement holds).ordered
  obtain ⟨node, top, _, children⟩ :=
    (subtree_of_statement holds).children _ ordered (Nat.le_refl _)
  obtain ⟨_, alsoTop, isNamed⟩ := isPart
  rw [top] at alsoTop
  cases alsoTop
  obtain ⟨least, below, _⟩ := children part isNamed
  have inRange := lt_of_node? top
  rcases node_of_statement holds least (Nat.le_of_lt below) with
    rfl | ⟨leaf, _, leafFound⟩ | ⟨tree, hasTree, treeHolds, behindLeaves, inTree⟩
  · exact absurd below (Nat.lt_irrefl _)
  · exact ⟨1, within_succ_of_node? leafFound nofun, Nat.succ_le_succ (Nat.zero_le _), by omega⟩
  · obtain ⟨height, isWithin, notHigher, inProgram⟩ :=
      exists_within_of_expressionLayout treeHolds behindLeaves inTree
    have within := inLimit tagged (List.mem_of_getElem? isTagged) tree hasTree
    exact ⟨height, isWithin, by omega, by omega⟩

end

end Program
end ScriptLang
