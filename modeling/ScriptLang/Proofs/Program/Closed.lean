import ScriptLang.Proofs.Program.Assembly

/-!
# Closed programs

A program is closed when every number that it mentions is the number of one of its
nodes: the root, the outermost code block, all children and all parents.  The
program of a list of statements is closed.
-/

namespace ScriptLang

open Source (Position)

/-- All numbers that a node mentions are below a bound. -/
structure Node.Within (bound : Nat) (node : Node) : Prop where
  children : ∀ child : Nat, child ∈ node.kind.children -> child < bound
  parent : ∀ parent : Nat, parent ∈ node.parent? -> parent < bound

namespace Tree

variable (tag : Tagging) {bound : Nat}

/-- The top of a tree mentions the tops of its operands. -/
theorem within_node
    {start : Nat} {parent? : Option NodeId}
    (tree : Tree)
    (parent : ∀ parent : Nat, parent ∈ parent? -> parent < bound)
    (fits : start + tree.descendants < bound) :
    (tree.node tag start parent?).Within bound := by
  refine ⟨?_, parent⟩
  cases tree with
  | leaf content position => simp [node, kind, NodeKind.children]
  | unary operator position operand =>
      rw [descendants_unary] at fits
      simp only [node, kind, form, NodeKind.children, ExpressionForm.children,
        List.forall_mem_singleton]
      omega
  | binary operator position left right =>
      rw [descendants_binary] at fits
      simp only [node, kind, form, NodeKind.children, ExpressionForm.children,
        List.forall_mem_cons, List.not_mem_nil, false_imp_iff, implies_true, and_true]
      omega

theorem within_layout
    {start : Nat} {parent? : Option NodeId}
    (tree : Tree)
    (parent : ∀ parent : Nat, parent ∈ parent? -> parent < bound)
    (fits : start + tree.descendants < bound) :
    ∀ node ∈ tree.layout tag start parent?, node.Within bound := by
  induction tree generalizing start parent? with
  | leaf content position =>
      exact List.forall_mem_singleton.mpr (within_node tag _ parent fits)
  | unary operator position operand inductionHypothesis =>
      have top := within_node tag (.unary operator position operand) parent fits
      rw [descendants_unary] at fits
      rw [layout_unary, List.forall_mem_append, List.forall_mem_singleton]
      exact ⟨inductionHypothesis (by simp; omega) (by omega), top⟩
  | binary operator position left right leftHypothesis rightHypothesis =>
      have top := within_node tag (.binary operator position left right) parent fits
      rw [descendants_binary] at fits
      rw [layout_binary, List.forall_mem_append, List.forall_mem_append,
        List.forall_mem_singleton]
      exact ⟨⟨leftHypothesis (by simp; omega) (by omega),
        rightHypothesis (by simp; omega) (by omega)⟩, top⟩

theorem within_expressionLayout
    {start : Nat} {parent? : Option NodeId}
    (tree : Tree)
    (parent : ∀ parent : Nat, parent ∈ parent? -> parent < bound)
    (fits : start + tree.expressionDescendants < bound) :
    ∀ node ∈ tree.expressionLayout tag start parent?, node.Within bound := by
  cases tree with
  | leaf content position =>
      have beforeTop : start + 1 < bound := fits
      have leafNode : (Node.mk (.leaf content) position (some (start + 1))).Within bound :=
        ⟨by simp [NodeKind.children], by simpa using beforeTop⟩
      have top : ((leaf content position).expressionNode tag start parent?).Within bound :=
        ⟨by simp [expressionNode, form, NodeKind.children, ExpressionForm.children]; omega, parent⟩
      exact List.forall_mem_cons.mpr ⟨leafNode, List.forall_mem_singleton.mpr top⟩
  | unary operator position operand =>
      exact within_layout tag (.unary operator position operand) parent fits
  | binary operator position left right =>
      exact within_layout tag (.binary operator position left right) parent fits

end Tree

namespace StatementTree

variable {bound : Nat}

theorem within_layout
    {start : Nat} {parent? : Option NodeId}
    (tag : Tree.Tagging) (statement : StatementTree)
    (parent : ∀ parent : Nat, parent ∈ parent? -> parent < bound)
    (fits : start + statement.descendants < bound) :
    ∀ node ∈ statement.layout tag start parent?, node.Within bound := by
  have size : statement.descendants =
      statement.leaves.length + expressionSize statement.expression? := rfl
  have leaves : ∀ node ∈ statement.leaves.map
      (LeafAt.node (some (start + statement.descendants))), node.Within bound := by
    intro node member
    obtain ⟨leaf, _, rfl⟩ := List.mem_map.mp member
    exact ⟨by simp [LeafAt.node, NodeKind.children], by simpa [LeafAt.node] using fits⟩
  have expression : ∀ node ∈ expressionNodes tag (start + statement.leaves.length)
      (some (start + statement.descendants)) statement.expression?, node.Within bound := by
    cases isExpression : statement.expression? with
    | none => simp [expressionNodes]
    | some tree =>
        rw [isExpression, expressionSize] at size
        exact tree.within_expressionLayout tag (by simpa using fits) (by omega)
  have top : (statement.node start parent?).Within bound := by
    refine ⟨?_, parent⟩
    change ∀ child : Nat, child ∈ (statement.form start).children -> child < bound
    rw [children_form, List.forall_mem_append]
    constructor
    · intro child member
      have inRange := List.mem_range'_1.mp member
      have small : child < start + statement.leaves.length := inRange.2
      exact Nat.lt_trans small (by omega)
    · intro child member
      obtain ⟨tree, isExpression, rfl⟩ :=
        Option.map_eq_some_iff.mp (Option.mem_toList.mp member)
      rw [isExpression, expressionSize] at size
      rw [expressionTop]
      omega
  unfold layout lower parts
  rw [List.forall_mem_append, List.forall_mem_append, List.forall_mem_singleton]
  exact ⟨⟨leaves, expression⟩, top⟩

end StatementTree

namespace Tagged

theorem within_layouts
    {bound start : Nat}
    (statements : List Tagged)
    (fits : start + extent statements ≤ bound)
    (positive : 0 < bound) :
    ∀ node ∈ layouts start statements, node.Within bound := by
  induction statements generalizing start with
  | nil => simp [layouts]
  | cons first rest inductionHypothesis =>
      rw [extent] at fits
      rw [layouts, List.forall_mem_append]
      refine ⟨first.statement.within_layout first.tag (by simpa using positive) (by omega), ?_⟩
      exact inductionHypothesis (by omega)

theorem lt_of_mem_tops
    {start id : Nat} {statements : List Tagged}
    (member : id ∈ tops start statements) :
    id < start + extent statements := by
  induction statements generalizing start with
  | nil => cases member
  | cons first rest inductionHypothesis =>
      rw [extent]
      rcases List.mem_cons.mp member with rfl | inRest
      · omega
      · exact Nat.lt_of_lt_of_le (inductionHypothesis inRest) (by omega)

end Tagged

namespace Program

/-- Every number that a program mentions is the number of one of its nodes. -/
structure Closed (program : Program) : Prop where
  root : program.root < program.size
  code : program.code < program.size
  nodes : ∀ node ∈ program.nodes.toList, node.Within program.size

section

variable {program : Program}

/-- A program is closed if its nodes, found by their numbers, mention nodes of it. -/
theorem closed_of_node?
    (root : program.root < program.size)
    (code : program.code < program.size)
    (within : ∀ (id : NodeId) (node : Node), program.node? id = some node ->
      node.Within program.size) :
    program.Closed := by
  refine ⟨root, code, fun node member => ?_⟩
  obtain ⟨id, found⟩ := Array.mem_iff_getElem?.mp (Array.mem_toList_iff.mp member)
  exact within id node found

/-- A node that is found in a closed program mentions nodes of it. -/
theorem Closed.within
    (closed : program.Closed)
    {id : NodeId} {node : Node}
    (found : program.node? id = some node) :
    node.Within program.size :=
  closed.nodes node (Array.mem_toList_iff.mpr (Array.mem_of_getElem? found))

end

/-- The program of a list of statements is closed. -/
theorem closed_assemble
    (position : Position) (symbols : SymbolTable) (statements : List Tagged) :
    (assemble position symbols statements).Closed := by
  have size := size_assemble position symbols statements
  have nodes : (assemble position symbols statements).nodes.toList =
      ⟨.codeBlock (Tagged.tops 2 statements) symbols, position, some 1⟩ ::
        ⟨.program 0, position, none⟩ :: Tagged.layouts 2 statements := by
    simp [assemble, frame, extend]
  constructor
  · rw [size]
    exact Nat.lt_add_right _ (Nat.lt_succ_self 1)
  · rw [size]
    exact Nat.lt_add_right _ (Nat.zero_lt_succ 1)
  · rw [nodes, size, List.forall_mem_cons, List.forall_mem_cons]
    refine ⟨⟨fun child member => Tagged.lt_of_mem_tops member, ?_⟩, ⟨?_, ?_⟩, ?_⟩
    · simp; omega
    · exact List.forall_mem_singleton.mpr (Nat.lt_add_right _ (Nat.zero_lt_succ 1))
    · simp
    · exact Tagged.within_layouts statements (Nat.le_refl _) (by omega)

/-- The program without statements is closed. -/
theorem closed_empty (position : Position) : (empty position).Closed :=
  closed_assemble position .empty []

end Program
end ScriptLang
