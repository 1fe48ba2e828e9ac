import ScriptLang.Proofs.Program.Descent
import ScriptLang.Proofs.Program.StatementTree

/-!
# Leaves and operators of a tree

What a tree is made of: its leaves from left to right, and its operators, each one
behind its operands.  A program in whose nodes a whole expression is laid out has
exactly these leaves and operators among them, in this order, and one node more if
the expression is a bare leaf.  The tree itself can be read back from its top.
-/

namespace ScriptLang

open Source (Position)

/-- An operator of either kind. -/
inductive AnyOperator
  | unary (operator : UnaryOperator)
  | binary (operator : BinaryOperator)
  deriving DecidableEq, Repr

/-- An operator at its place. -/
structure OperatorAt where
  operator : AnyOperator
  position : Position
  deriving DecidableEq, Repr

namespace Tree

/-- The leaves from left to right. -/
def leaves : Tree -> List LeafAt
  | .leaf content position => [⟨content, position⟩]
  | .unary _ _ operand => operand.leaves
  | .binary _ _ left right => left.leaves ++ right.leaves

/-- The operators, each one behind the operators of its operands. -/
def operators : Tree -> List OperatorAt
  | .leaf _ _ => []
  | .unary operator position operand => operand.operators ++ [⟨.unary operator, position⟩]
  | .binary operator position left right =>
      left.operators ++ right.operators ++ [⟨.binary operator, position⟩]

/-- Whether a tree is a bare leaf. -/
def isLeaf : Tree -> Bool
  | .leaf _ _ => true
  | _ => false

/-- A tree without operators is a bare leaf. -/
theorem isLeaf_iff_operators_eq_nil (tree : Tree) : tree.isLeaf = true ↔ tree.operators = [] := by
  cases tree <;> simp [isLeaf, operators]

end Tree

namespace Node

/-- The leaf that a node is. -/
def leafAt? (node : Node) : Option LeafAt :=
  node.kind.leaf?.map fun content => ⟨content, node.position⟩

/-- The operator that a node applies. -/
def operatorAt? (node : Node) : Option OperatorAt :=
  match node.kind with
  | .expression ⟨.unary operator _, _⟩ => some ⟨.unary operator, node.position⟩
  | .expression ⟨.binary operator _ _, _⟩ => some ⟨.binary operator, node.position⟩
  | _ => none

/-- Whether a node is an expression that stands for a bare leaf. -/
def isSingle (node : Node) : Bool :=
  match node.kind with
  | .expression ⟨.single _, _⟩ => true
  | _ => false

end Node

/-! ## The nodes of a tree -/

/-- Nodes are the given leaves and operators, in these orders, and a number of expressions that
stand for bare leaves. -/
structure Comprises
    (nodes : List Node)
    (leaves : List LeafAt)
    (operators : List OperatorAt)
    (singles : Nat) : Prop where
  leaves_eq : nodes.filterMap Node.leafAt? = leaves
  operators_eq : nodes.filterMap Node.operatorAt? = operators
  singles_eq : nodes.countP Node.isSingle = singles
  length_eq : nodes.length = leaves.length + operators.length + singles

namespace Comprises

variable {nodes others : List Node} {leaves moreLeaves : List LeafAt}
  {operators moreOperators : List OperatorAt} {singles moreSingles : Nat}

theorem append
    (comprises : Comprises nodes leaves operators singles)
    (more : Comprises others moreLeaves moreOperators moreSingles) :
    Comprises (nodes ++ others) (leaves ++ moreLeaves) (operators ++ moreOperators)
      (singles + moreSingles) where
  leaves_eq := by rw [List.filterMap_append, comprises.leaves_eq, more.leaves_eq]
  operators_eq := by rw [List.filterMap_append, comprises.operators_eq, more.operators_eq]
  singles_eq := by rw [List.countP_append, comprises.singles_eq, more.singles_eq]
  length_eq := by
    simp only [List.length_append, comprises.length_eq, more.length_eq]
    omega

theorem leaf (content : Leaf) (position : Position) (parent? : Option NodeId) :
    Comprises [⟨.leaf content, position, parent?⟩] [⟨content, position⟩] [] 0 :=
  ⟨rfl, rfl, rfl, rfl⟩

theorem unary
    (operator : UnaryOperator) (operand : NodeId) (ty? : Option Ty)
    (position : Position) (parent? : Option NodeId) :
    Comprises [⟨.expression ⟨.unary operator operand, ty?⟩, position, parent?⟩]
      [] [⟨.unary operator, position⟩] 0 :=
  ⟨rfl, rfl, rfl, rfl⟩

theorem binary
    (operator : BinaryOperator) (left right : NodeId) (ty? : Option Ty)
    (position : Position) (parent? : Option NodeId) :
    Comprises [⟨.expression ⟨.binary operator left right, ty?⟩, position, parent?⟩]
      [] [⟨.binary operator, position⟩] 0 :=
  ⟨rfl, rfl, rfl, rfl⟩

theorem single
    (leaf : NodeId) (ty? : Option Ty) (position : Position) (parent? : Option NodeId) :
    Comprises [⟨.expression ⟨.single leaf, ty?⟩, position, parent?⟩] [] [] 1 :=
  ⟨rfl, rfl, rfl, rfl⟩

end Comprises

namespace Tree

/-- A tree is laid out in its leaves and operators. -/
theorem comprises_layout
    (tag : Tagging) (start : Nat) (parent? : Option NodeId) (tree : Tree) :
    Comprises (tree.layout tag start parent?) tree.leaves tree.operators 0 := by
  induction tree generalizing start parent? with
  | leaf content position => exact .leaf content position parent?
  | unary operator position operand inductionHypothesis =>
      rw [layout_unary, leaves, operators, ← List.append_nil operand.leaves]
      exact (inductionHypothesis ..).append (.unary ..)
  | binary operator position left right leftHypothesis rightHypothesis =>
      rw [layout_binary, leaves, operators, ← List.append_nil (left.leaves ++ right.leaves)]
      exact ((leftHypothesis ..).append (rightHypothesis ..)).append (.binary ..)

/-- A whole expression is laid out in its leaves and operators, and has one node more if it is a
bare leaf. -/
theorem comprises_expressionLayout
    (tag : Tagging) (start : Nat) (parent? : Option NodeId) (tree : Tree) :
    Comprises (tree.expressionLayout tag start parent?) tree.leaves tree.operators
      (if tree.isLeaf then 1 else 0) := by
  cases tree with
  | leaf content position => exact (Comprises.leaf ..).append (.single ..)
  | unary operator position operand => exact comprises_layout tag start parent? _
  | binary operator position left right => exact comprises_layout tag start parent? _

end Tree

/-! ## Reading a tree back -/

namespace Program

/-- The tree of the expression at a node, read down to a given depth. -/
def treeTo? (program : Program) : Nat -> NodeId -> Option Tree
  | 0, _ => none
  | depth + 1, id => do
      let node ← program.node? id
      match node.kind with
      | .leaf content => return .leaf content node.position
      | .expression ⟨.single leaf, _⟩ => program.treeTo? depth leaf
      | .expression ⟨.unary operator operand, _⟩ =>
          return .unary operator node.position (← program.treeTo? depth operand)
      | .expression ⟨.binary operator left right, _⟩ =>
          return .binary operator node.position (← program.treeTo? depth left)
            (← program.treeTo? depth right)
      | _ => none

/-- The tree of the expression at a node.  In a tree no part lies deeper than there are nodes. -/
def tree? (program : Program) (id : NodeId) : Option Tree :=
  program.treeTo? (program.size + 1) id

variable {program : Program} {tag : Tree.Tagging} {start : Nat} {parent? : Option NodeId}

theorem treeTo?_of_layout
    {tree : Tree} {depth : Nat}
    (holds : program.Holds start (tree.layout tag start parent?))
    (deep : tree.nesting < depth) :
    program.treeTo? depth (start + tree.descendants) = some tree := by
  have top := node?_of_layout holds
  induction tree generalizing start parent? depth with
  | leaf content position =>
      obtain ⟨less, rfl⟩ : ∃ less, depth = less + 1 := ⟨depth - 1, by omega⟩
      rw [treeTo?, top]
      rfl
  | unary operator position operand inductionHypothesis =>
      rw [Tree.nesting_unary] at deep
      obtain ⟨less, rfl⟩ : ∃ less, depth = less + 1 := ⟨depth - 1, by omega⟩
      rw [Tree.layout_unary, holds_append] at holds
      have operandTree := inductionHypothesis holds.1 (Nat.lt_of_succ_lt_succ deep)
        (node?_of_layout holds.1)
      rw [treeTo?, top]
      change (program.treeTo? less (start + operand.descendants) >>= _) = _
      rw [operandTree]
      rfl
  | binary operator position left right leftHypothesis rightHypothesis =>
      rw [Tree.nesting_binary] at deep
      obtain ⟨less, rfl⟩ : ∃ less, depth = less + 1 := ⟨depth - 1, by omega⟩
      rw [Tree.layout_binary, holds_append, holds_append, Tree.length_layout] at holds
      obtain ⟨⟨leftHolds, rightHolds⟩, _⟩ := holds
      have leftDeep : left.nesting < less := by omega
      have rightDeep : right.nesting < less := by omega
      have leftTree := leftHypothesis leftHolds leftDeep (node?_of_layout leftHolds)
      have rightTree :
          program.treeTo? less (start + left.descendants + 1 + right.descendants) = some right :=
        rightHypothesis rightHolds rightDeep (node?_of_layout rightHolds)
      rw [treeTo?, top]
      change (program.treeTo? less (start + left.descendants) >>= fun _ =>
        program.treeTo? less (start + left.descendants + 1 + right.descendants) >>= _) = _
      rw [leftTree, rightTree]
      rfl

/-- The tree at its top is the tree itself. -/
theorem tree?_of_layout
    {tree : Tree}
    (holds : program.Holds start (tree.layout tag start parent?)) :
    program.tree? (start + tree.descendants) = some tree := by
  have inRange := lt_of_node? (node?_of_layout holds)
  have deep := tree.nesting_le_descendants
  exact treeTo?_of_layout holds (by omega)

/-- The tree at the top of a whole expression is its tree. -/
theorem tree?_of_expressionLayout
    {tree : Tree}
    (holds : program.Holds start (tree.expressionLayout tag start parent?)) :
    program.tree? (start + tree.expressionDescendants) = some tree := by
  cases tree with
  | unary operator position operand => exact tree?_of_layout holds
  | binary operator position left right => exact tree?_of_layout holds
  | leaf content position =>
      have top := node?_of_expressionLayout holds
      have inRange := lt_of_node? top
      change program.Holds start ([_] ++ [_]) at holds
      rw [holds_append, holds_singleton] at holds
      obtain ⟨less, enough⟩ : ∃ less, program.size = less + 1 := ⟨program.size - 1, by omega⟩
      rw [tree?, enough, treeTo?, top]
      change program.treeTo? (less + 1) start = _
      rw [treeTo?, holds.1]
      rfl

end Program
end ScriptLang
