import ScriptLang.Proofs.Program.Descent

/-!
# Post-order

The nodes below a node in the order in which a traversal leaves them: the children
from left to right, each with what lies below it, and the node behind them.  The
nodes of an expression have been numbered in this order.
-/

namespace ScriptLang
namespace Program

/-- The nodes below a node in post-order, down to a given depth. -/
def postorderTo (program : Program) : Nat -> NodeId -> List NodeId
  | 0, _ => []
  | depth + 1, id =>
      match program.node? id with
      | some node => node.kind.children.flatMap (program.postorderTo depth) ++ [id]
      | none => []

/-- The nodes below a node in post-order.  In a tree no node lies deeper than there are nodes. -/
def postorder (program : Program) (id : NodeId) : List NodeId :=
  program.postorderTo program.size id

variable {program : Program} {tag : Tree.Tagging} {start : Nat} {parent? : Option NodeId}

theorem postorderTo_of_node?
    {id : NodeId} {node : Node}
    (depth : Nat)
    (found : program.node? id = some node) :
    program.postorderTo (depth + 1) id =
      node.kind.children.flatMap (program.postorderTo depth) ++ [id] := by
  rw [postorderTo, found]

/-- The nodes of a tree are numbered in post-order. -/
theorem postorderTo_of_layout
    {tree : Tree} {depth : Nat}
    (holds : program.Holds start (tree.layout tag start parent?))
    (enough : tree.nesting < depth) :
    program.postorderTo depth (start + tree.descendants) =
      List.range' start (tree.descendants + 1) := by
  have top := node?_of_layout holds
  induction tree generalizing start parent? depth with
  | leaf content position =>
      obtain ⟨fewer, rfl⟩ := Nat.exists_eq_succ_of_ne_zero (Nat.ne_zero_of_lt enough)
      rw [postorderTo_of_node? fewer top]
      rfl
  | unary operator position operand inductionHypothesis =>
      obtain ⟨fewer, rfl⟩ := Nat.exists_eq_succ_of_ne_zero (Nat.ne_zero_of_lt enough)
      rw [Tree.layout_unary, holds_append] at holds
      have operandOrder := inductionHypothesis holds.1 (Nat.lt_of_succ_lt_succ enough)
        (node?_of_layout holds.1)
      rw [postorderTo_of_node? fewer top]
      calc
        [start + operand.descendants].flatMap (program.postorderTo fewer) ++
            [start + (operand.descendants + 1)] =
          List.range' start (operand.descendants + 1) ++
            [start + (operand.descendants + 1)] := by
          rw [List.flatMap_singleton, operandOrder]
        _ = List.range' start (operand.descendants + 1 + 1) := List.range'_1_concat.symm
  | binary operator position left right leftHypothesis rightHypothesis =>
      obtain ⟨fewer, rfl⟩ := Nat.exists_eq_succ_of_ne_zero (Nat.ne_zero_of_lt enough)
      rw [Tree.nesting_binary] at enough
      rw [Tree.layout_binary, holds_append, holds_append, Tree.length_layout] at holds
      obtain ⟨⟨leftHolds, rightHolds⟩, _⟩ := holds
      have leftEnough : left.nesting < fewer := by omega
      have rightEnough : right.nesting < fewer := by omega
      have leftOrder := leftHypothesis leftHolds leftEnough (node?_of_layout leftHolds)
      have rightOrder := rightHypothesis rightHolds rightEnough (node?_of_layout rightHolds)
      rw [← Nat.add_assoc start left.descendants 1] at rightOrder
      rw [postorderTo_of_node? fewer top]
      calc
        [start + left.descendants, start + left.descendants + 1 + right.descendants].flatMap
              (program.postorderTo fewer) ++
            [start + (left.descendants + right.descendants + 2)] =
          List.range' start (left.descendants + 1) ++
              List.range' (start + left.descendants + 1) (right.descendants + 1) ++
            [start + (left.descendants + right.descendants + 2)] := by
          rw [List.flatMap_cons, List.flatMap_singleton, leftOrder, rightOrder]
        _ = List.range' start (left.descendants + right.descendants + 2) ++
            [start + (left.descendants + right.descendants + 2)] := by
          rw [Nat.add_assoc start, List.range'_append_1]
          congr 2
          omega
        _ = List.range' start (left.descendants + right.descendants + 2 + 1) :=
          List.range'_1_concat.symm

/-- The nodes of a whole expression are numbered in post-order. -/
theorem postorder_of_expressionLayout
    {tree : Tree}
    (holds : program.Holds start (tree.expressionLayout tag start parent?)) :
    program.postorder (start + tree.expressionDescendants) =
      List.range' start (tree.expressionDescendants + 1) := by
  have top := node?_of_expressionLayout holds
  have inRange := lt_of_node? top
  -- The depth that is allowed is the number of all nodes, and no level is without one.
  unfold postorder
  cases tree with
  | unary operator position operand =>
      apply postorderTo_of_layout holds
      have levels := (Tree.unary operator position operand).nesting_le_descendants
      simp only [Tree.descendants_unary, Tree.expressionDescendants] at levels inRange
      omega
  | binary operator position left right =>
      apply postorderTo_of_layout holds
      have levels := (Tree.binary operator position left right).nesting_le_descendants
      simp only [Tree.descendants_binary, Tree.expressionDescendants] at levels inRange
      omega
  | leaf content position =>
      obtain ⟨fewer, isSize⟩ : ∃ fewer, program.size = fewer + 2 := by
        simp only [Tree.expressionDescendants] at inRange
        exact ⟨program.size - 2, by omega⟩
      change program.Holds start ([_] ++ [_]) at holds
      rw [holds_append, holds_singleton] at holds
      rw [isSize, postorderTo_of_node? _ top]
      change [start].flatMap (program.postorderTo (fewer + 1)) ++ [start + 1] = [start, start + 1]
      rw [List.flatMap_singleton, postorderTo_of_node? fewer holds.1]
      rfl

end Program
end ScriptLang
