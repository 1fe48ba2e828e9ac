import ScriptLang.Proofs.Program.Extension

/-!
# Trees of expressions

An expression as a tree, apart from the nodes of a program, and the nodes that it
takes up in a program.  The nodes of a tree follow each other without a gap, the
operands of an operator from left to right and the operator behind them, so the
numbers of all nodes are determined by the number of the first one.
-/

namespace ScriptLang

open Source (Position)

/-- An expression as a tree; its leaves and operators know where they stand. -/
inductive Tree
  | leaf (content : Leaf) (position : Position)
  | unary (operator : UnaryOperator) (position : Position) (operand : Tree)
  | binary (operator : BinaryOperator) (position : Position) (left right : Tree)
  deriving DecidableEq, Repr

namespace Tree

/-- The number of operators on the longest path from the top to a leaf. -/
def nesting : Tree -> Nat
  | .leaf _ _ => 0
  | .unary _ _ operand => operand.nesting + 1
  | .binary _ _ left right => max left.nesting right.nesting + 1

@[simp] theorem nesting_leaf (content : Leaf) (position : Position) :
    (leaf content position).nesting = 0 := rfl

@[simp] theorem nesting_unary
    (operator : UnaryOperator) (position : Position) (operand : Tree) :
    (unary operator position operand).nesting = operand.nesting + 1 := rfl

@[simp] theorem nesting_binary
    (operator : BinaryOperator) (position : Position) (left right : Tree) :
    (binary operator position left right).nesting =
      max left.nesting right.nesting + 1 := rfl

/-- The place of the top of a tree. -/
def position : Tree -> Position
  | .leaf _ position => position
  | .unary _ position _ => position
  | .binary _ position _ _ => position

/-- The number of nodes below the top. -/
def descendants : Tree -> Nat
  | .leaf _ _ => 0
  | .unary _ _ operand => operand.descendants + 1
  | .binary _ _ left right => left.descendants + right.descendants + 2

@[simp] theorem descendants_leaf (content : Leaf) (position : Position) :
    (leaf content position).descendants = 0 := rfl

@[simp] theorem descendants_unary
    (operator : UnaryOperator) (position : Position) (operand : Tree) :
    (unary operator position operand).descendants = operand.descendants + 1 := rfl

@[simp] theorem descendants_binary
    (operator : BinaryOperator) (position : Position) (left right : Tree) :
    (binary operator position left right).descendants =
      left.descendants + right.descendants + 2 := rfl

/-- Every level of a tree has a node. -/
theorem nesting_le_descendants (tree : Tree) : tree.nesting ≤ tree.descendants := by
  induction tree with
  | leaf content position => exact Nat.le_refl _
  | unary operator position operand inductionHypothesis =>
      rw [nesting_unary, descendants_unary]
      omega
  | binary operator position left right leftHypothesis rightHypothesis =>
      rw [nesting_binary, descendants_binary]
      omega

/-- What gives every tree the type that is recorded at its top. -/
abbrev Tagging := Tree -> Option Ty

/-- The tagging before any type has been inferred. -/
def untagged : Tagging := fun _ => none

/-- The form of a tree as an expression, where `start` is the number of its first node. -/
def form (start : Nat) : Tree -> ExpressionForm
  | .leaf _ _ => .single start
  | .unary operator _ operand => .unary operator (start + operand.descendants)
  | .binary operator _ left right =>
      .binary operator (start + left.descendants)
        (start + left.descendants + 1 + right.descendants)

/-- What the top of a tree is in a program. -/
def kind (tag : Tagging) (start : Nat) (tree : Tree) : NodeKind :=
  match tree with
  | .leaf content _ => .leaf content
  | .unary .. => .expression ⟨tree.form start, tag tree⟩
  | .binary .. => .expression ⟨tree.form start, tag tree⟩

/-- The top of a tree as a node. -/
def node (tag : Tagging) (start : Nat) (parent? : Option NodeId) (tree : Tree) : Node :=
  ⟨tree.kind tag start, tree.position, parent?⟩

/-- The nodes below the top. -/
def lower (tag : Tagging) (start : Nat) : Tree -> List Node
  | .leaf _ _ => []
  | .unary _ _ operand =>
      operand.lower tag start ++
        [operand.node tag start (some (start + operand.descendants + 1))]
  | .binary _ _ left right =>
      let middle := start + left.descendants + 1
      let top := middle + right.descendants + 1
      left.lower tag start ++ [left.node tag start (some top)] ++
        (right.lower tag middle ++ [right.node tag middle (some top)])

/-- The nodes of a tree whose first node has number `start`. -/
def layout (tag : Tagging) (start : Nat) (parent? : Option NodeId) (tree : Tree) :
    List Node :=
  tree.lower tag start ++ [tree.node tag start parent?]

@[simp] theorem length_lower (tag : Tagging) (start : Nat) (tree : Tree) :
    (tree.lower tag start).length = tree.descendants := by
  induction tree generalizing start with
  | leaf content position => rfl
  | unary operator position operand inductionHypothesis =>
      simp [lower, inductionHypothesis]
  | binary operator position left right leftHypothesis rightHypothesis =>
      simp only [lower, List.length_append, List.length_singleton, leftHypothesis,
        rightHypothesis, descendants_binary]
      omega

@[simp] theorem length_layout
    (tag : Tagging) (start : Nat) (parent? : Option NodeId) (tree : Tree) :
    (tree.layout tag start parent?).length = tree.descendants + 1 := by
  simp [layout]

theorem layout_unary
    (tag : Tagging) (start : Nat) (parent? : Option NodeId)
    (operator : UnaryOperator) (position : Position) (operand : Tree) :
    (unary operator position operand).layout tag start parent? =
      operand.layout tag start (some (start + operand.descendants + 1)) ++
        [(unary operator position operand).node tag start parent?] := rfl

theorem layout_binary
    (tag : Tagging) (start : Nat) (parent? : Option NodeId)
    (operator : BinaryOperator) (position : Position) (left right : Tree) :
    (binary operator position left right).layout tag start parent? =
      left.layout tag start (some (start + left.descendants + 1 + right.descendants + 1)) ++
        right.layout tag (start + left.descendants + 1)
          (some (start + left.descendants + 1 + right.descendants + 1)) ++
        [(binary operator position left right).node tag start parent?] := rfl

/-- The number of nodes below the top of a whole expression, where a bare leaf stands below an
expression of its own. -/
def expressionDescendants : Tree -> Nat
  | .leaf _ _ => 1
  | .unary _ _ operand => operand.descendants + 1
  | .binary _ _ left right => left.descendants + right.descendants + 2

/-- The nodes of a whole expression below its top. -/
def expressionLower (tag : Tagging) (start : Nat) (tree : Tree) : List Node :=
  match tree with
  | .leaf content position => [⟨.leaf content, position, some (start + 1)⟩]
  | .unary .. => tree.lower tag start
  | .binary .. => tree.lower tag start

/-- The top of a whole expression as a node. -/
def expressionNode (tag : Tagging) (start : Nat) (parent? : Option NodeId) (tree : Tree) : Node :=
  ⟨.expression ⟨tree.form start, tag tree⟩, tree.position, parent?⟩

/-- The nodes of a whole expression whose first node has number `start`. -/
def expressionLayout (tag : Tagging) (start : Nat) (parent? : Option NodeId) (tree : Tree) :
    List Node :=
  tree.expressionLower tag start ++ [tree.expressionNode tag start parent?]

@[simp] theorem length_expressionLower (tag : Tagging) (start : Nat) (tree : Tree) :
    (tree.expressionLower tag start).length = tree.expressionDescendants := by
  cases tree with
  | leaf content position => rfl
  | unary operator position operand => exact length_lower ..
  | binary operator position left right => exact length_lower ..

@[simp] theorem length_expressionLayout
    (tag : Tagging) (start : Nat) (parent? : Option NodeId) (tree : Tree) :
    (tree.expressionLayout tag start parent?).length = tree.expressionDescendants + 1 := by
  simp [expressionLayout]

/-- Whether a tree may stand as an expression: a bare type keyword may not. -/
def isExpression : Tree -> Bool
  | .leaf (.typeKeyword _) _ => false
  | _ => true

/-- Whether all leaves of a tree satisfy a condition. -/
def Every (good : Leaf -> Prop) : Tree -> Prop
  | .leaf content _ => good content
  | .unary _ _ operand => operand.Every good
  | .binary _ _ left right => left.Every good ∧ right.Every good

@[simp] theorem every_leaf (good : Leaf -> Prop) (content : Leaf) (position : Position) :
    (leaf content position).Every good ↔ good content := Iff.rfl

@[simp] theorem every_unary
    (good : Leaf -> Prop)
    (operator : UnaryOperator) (position : Position) (operand : Tree) :
    (unary operator position operand).Every good ↔ operand.Every good := Iff.rfl

@[simp] theorem every_binary
    (good : Leaf -> Prop)
    (operator : BinaryOperator) (position : Position) (left right : Tree) :
    (binary operator position left right).Every good ↔
      left.Every good ∧ right.Every good := Iff.rfl

theorem Every.imp
    {good better : Leaf -> Prop} {tree : Tree}
    (implies : ∀ content, good content -> better content)
    (every : tree.Every good) :
    tree.Every better := by
  induction tree with
  | leaf content position => exact implies content every
  | unary operator position operand inductionHypothesis => exact inductionHypothesis every
  | binary operator position left right leftHypothesis rightHypothesis =>
      exact ⟨leftHypothesis every.1, rightHypothesis every.2⟩

/-- A tree is another one or stands in it. -/
inductive Part (part : Tree) : Tree -> Prop
  | whole : Part part part
  | operand {operand : Tree} (operator : UnaryOperator) (position : Position) :
      Part part operand -> Part part (.unary operator position operand)
  | left {left : Tree} (operator : BinaryOperator) (position : Position) (right : Tree) :
      Part part left -> Part part (.binary operator position left right)
  | right {right : Tree} (operator : BinaryOperator) (position : Position) (left : Tree) :
      Part part right -> Part part (.binary operator position left right)

/-- The parts of a tree are not deeper than the tree. -/
theorem Part.nesting_le
    {part tree : Tree}
    (isPart : part.Part tree) :
    part.nesting ≤ tree.nesting := by
  induction isPart with
  | whole => exact Nat.le_refl _
  | operand operator position _ inductionHypothesis =>
      rw [nesting_unary]
      omega
  | left operator position right _ inductionHypothesis =>
      rw [nesting_binary]
      omega
  | right operator position left _ inductionHypothesis =>
      rw [nesting_binary]
      omega

theorem Every.of_part
    {holds : Leaf -> Prop} {part tree : Tree}
    (every : tree.Every fun content => holds content)
    (isPart : part.Part tree) :
    part.Every fun content => holds content := by
  induction isPart with
  | whole => exact every
  | operand operator position _ inductionHypothesis => exact inductionHypothesis every
  | left operator position right _ inductionHypothesis => exact inductionHypothesis every.1
  | right operator position left _ inductionHypothesis => exact inductionHypothesis every.2

/-- The nodes of a tree before it is attached differ from those afterwards at its top only. -/
theorem attach_layout
    (program : Program) (tag : Tagging) (tree : Tree) (parent : Nat)
    (before after : List Node) (start : Nat)
    (starts : start = program.size + before.length) :
    (program.extend (before ++ tree.layout tag start none ++ after)).attach
        (start + tree.descendants) parent =
      .ok (program.extend (before ++ tree.layout tag start (some parent) ++ after)) := by
  have attached := Program.attach_extend program (before ++ tree.lower tag start) after
    (tree.node tag start none) parent
  have top : start + tree.descendants =
      program.size + (before ++ tree.lower tag start).length := by
    rw [List.length_append, length_lower]
    omega
  rw [top]
  simpa [layout, node] using attached

/-- The nodes of a whole expression before it is attached differ from those afterwards at its
top only. -/
theorem attach_expressionLayout
    (program : Program) (tag : Tagging) (tree : Tree) (parent : Nat)
    (before after : List Node) (start : Nat)
    (starts : start = program.size + before.length) :
    (program.extend (before ++ tree.expressionLayout tag start none ++ after)).attach
        (start + tree.expressionDescendants) parent =
      .ok (program.extend (before ++ tree.expressionLayout tag start (some parent) ++ after)) := by
  have attached := Program.attach_extend program (before ++ tree.expressionLower tag start) after
    (tree.expressionNode tag start none) parent
  have top : start + tree.expressionDescendants =
      program.size + (before ++ tree.expressionLower tag start).length := by
    rw [List.length_append, length_expressionLower]
    omega
  rw [top]
  simpa [expressionLayout, expressionNode] using attached

/-- A leaf is added as one node. -/
theorem add_leaf (program : Program) (tag : Tagging) (content : Leaf) (position : Position) :
    program.add (.leaf content) position =
      .ok (program.extend ((leaf content position).layout tag program.size none)) := by
  rw [Program.add_of_children_eq_nil program _ position rfl]
  rfl

/-- The application of a unary operator is added behind its operand. -/
theorem add_unary
    (program : Program) (tag : Tagging)
    (operator : UnaryOperator) (position : Position) (operand : Tree) :
    (program.extend (operand.layout tag program.size none)).add
        ((unary operator position operand).kind tag program.size) position =
      .ok (program.extend ((unary operator position operand).layout tag program.size none)) := by
  let top := program.size + operand.descendants + 1
  let last := (unary operator position operand).node tag program.size none
  have attached : (program.extend (operand.layout tag program.size none ++ [last])).attach
      (program.size + operand.descendants) top =
        .ok (program.extend (operand.layout tag program.size (some top) ++ [last])) :=
    attach_layout program tag operand top [] [last] program.size rfl
  rw [Program.add_eq_attachAll, Program.extend_extend, Program.size_extend, length_layout]
  change (program.extend (operand.layout tag program.size none ++ [last])).attachAll
    [program.size + operand.descendants] top = _
  rw [Program.attachAll_cons, attached]
  rfl

/-- The application of a binary operator is added behind its operands. -/
theorem add_binary
    (program : Program) (tag : Tagging)
    (operator : BinaryOperator) (position : Position) (left right : Tree) :
    (program.extend (left.layout tag program.size none ++
        right.layout tag (program.size + left.descendants + 1) none)).add
        ((binary operator position left right).kind tag program.size) position =
      .ok (program.extend
        ((binary operator position left right).layout tag program.size none)) := by
  let middle := program.size + left.descendants + 1
  let top := middle + right.descendants + 1
  let last := (binary operator position left right).node tag program.size none
  have leftAttached :
      (program.extend (left.layout tag program.size none ++
          (right.layout tag middle none ++ [last]))).attach
        (program.size + left.descendants) top =
      .ok (program.extend (left.layout tag program.size (some top) ++
          (right.layout tag middle none ++ [last]))) :=
    attach_layout program tag left top [] (right.layout tag middle none ++ [last])
      program.size rfl
  have rightAttached := attach_layout program tag right top
    (left.layout tag program.size (some top)) [last] middle
    (by rw [length_layout]; rfl)
  have size : program.size + (left.layout tag program.size none ++
      right.layout tag (program.size + left.descendants + 1) none).length = top := by
    rw [List.length_append, length_layout, length_layout]
    omega
  rw [Program.add_eq_attachAll, Program.extend_extend, Program.size_extend, size]
  change (program.extend (left.layout tag program.size none ++
      right.layout tag middle none ++ [last])).attachAll
    [program.size + left.descendants, middle + right.descendants] top = _
  rw [Program.attachAll_cons, List.append_assoc, leftAttached]
  change (program.extend (left.layout tag program.size (some top) ++
      (right.layout tag middle none ++ [last]))).attachAll
    [middle + right.descendants] top = _
  rw [Program.attachAll_cons, ← List.append_assoc, rightAttached]
  rfl

/-- A bare leaf becomes a whole expression by adding one node. -/
theorem add_single
    (program : Program) (tag : Tagging) (content : Leaf) (position : Position) :
    (program.extend ((leaf content position).layout tag program.size none)).add
        (.expression ⟨.single program.size, tag (leaf content position)⟩) position =
      .ok (program.extend
        ((leaf content position).expressionLayout tag program.size none)) := by
  let last : Node :=
    ⟨.expression ⟨.single program.size, tag (leaf content position)⟩, position, none⟩
  have attached := attach_layout program tag (leaf content position) (program.size + 1) []
    [last] program.size rfl
  rw [Program.add_eq_attachAll, Program.extend_extend, Program.size_extend, length_layout]
  change (program.extend ((leaf content position).layout tag program.size none ++
    [last])).attachAll [program.size] (program.size + 1) = _
  rw [Program.attachAll_cons]
  simp only [List.nil_append, descendants_leaf, Nat.add_zero] at attached
  rw [attached]
  rfl

/-- The top of a tree is found behind the nodes below it. -/
theorem node_extend_layout
    (program : Program) (tag : Tagging) (parent? : Option NodeId) (tree : Tree) :
    (program.extend (tree.layout tag program.size parent?)).node
        (program.size + tree.descendants) =
      .ok (tree.node tag program.size parent?) := by
  have found : (tree.layout tag program.size parent?)[tree.descendants]? =
      some (tree.node tag program.size parent?) := by
    simp [layout]
  rw [Program.node, Program.node?_extend_add, found]

end Tree
end ScriptLang
