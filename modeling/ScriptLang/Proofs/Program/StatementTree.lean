import ScriptLang.Proofs.Program.Tree

/-!
# Trees of statements

A statement as a tree, and the nodes that it takes up in a program: its leaves in
the order of the source, the nodes of its expression, and the statement behind
them.
-/

namespace ScriptLang

open Source (Position)

/-- A leaf at its place. -/
structure LeafAt where
  content : Leaf
  position : Position
  deriving DecidableEq, Repr

namespace LeafAt

/-- A leaf as a node. -/
def node (parent? : Option NodeId) (leaf : LeafAt) : Node :=
  ⟨.leaf leaf.content, leaf.position, parent?⟩

/-- A leaf that is a name. -/
def IsName (leaf : LeafAt) : Prop := ∃ name, leaf.content = .identifier name

/-- A leaf that is a type keyword. -/
def IsType (leaf : LeafAt) : Prop := ∃ ty, leaf.content = .typeKeyword ty

/-- The leaves of a list are attached one after the other. -/
theorem attachAll_leaves
    (program : Program) (leaves : List LeafAt) (parent : NodeId)
    (before after : List Node) (start : Nat) (others : List NodeId)
    (starts : start = program.size + before.length) :
    (program.extend (before ++ (leaves.map (node none) ++ after))).attachAll
        (List.range' start leaves.length ++ others) parent =
      (program.extend (before ++ (leaves.map (node (some parent)) ++ after))).attachAll
        others parent := by
  induction leaves generalizing before start with
  | nil => rfl
  | cons first rest inductionHypothesis =>
      have attached := Program.attach_extend program before (rest.map (node none) ++ after)
        (first.node none) parent
      rw [List.length_cons, List.range'_succ, List.cons_append, Program.attachAll_cons, starts]
      simp only [List.map_cons, List.cons_append]
      rw [attached]
      have next := inductionHypothesis (before ++ [first.node (some parent)])
        (program.size + before.length + 1) (by simp; omega)
      simp only [List.append_assoc, List.singleton_append] at next
      exact next

end LeafAt

/-- A statement as a tree, with the place where it starts. -/
inductive StatementTree
  | declaration
      (position : Position)
      (identifier : LeafAt)
      (typeKeyword : Option LeafAt)
      (expression : Option Tree)
  | assignment (position : Position) (identifier : LeafAt) (expression : Tree)
  | input (position : Position) (identifier : LeafAt)
  | output (position : Position) (expression : Tree)
  deriving DecidableEq, Repr

namespace StatementTree

/-- The place where a statement starts. -/
def position : StatementTree -> Position
  | .declaration position .. => position
  | .assignment position .. => position
  | .input position _ => position
  | .output position _ => position

/-- The leaves of a statement that belong to no expression. -/
def leaves : StatementTree -> List LeafAt
  | .declaration _ identifier typeKeyword _ => identifier :: typeKeyword.toList
  | .assignment _ identifier _ => [identifier]
  | .input _ identifier => [identifier]
  | .output _ _ => []

/-- The expression of a statement. -/
def expression? : StatementTree -> Option Tree
  | .declaration _ _ _ expression => expression
  | .assignment _ _ expression => some expression
  | .input _ _ => none
  | .output _ expression => some expression

/-- The number of nodes that an optional expression takes up. -/
def expressionSize : Option Tree -> Nat
  | none => 0
  | some tree => tree.expressionDescendants + 1

/-- The nodes of an optional expression. -/
def expressionNodes (tag : Tree.Tagging) (start : Nat) (parent? : Option NodeId) :
    Option Tree -> List Node
  | none => []
  | some tree => tree.expressionLayout tag start parent?

@[simp] theorem length_expressionNodes
    (tag : Tree.Tagging) (start : Nat) (parent? : Option NodeId) (expression : Option Tree) :
    (expressionNodes tag start parent? expression).length = expressionSize expression := by
  cases expression with
  | none => rfl
  | some tree => exact Tree.length_expressionLayout ..

/-- The number of nodes below the top. -/
def descendants (statement : StatementTree) : Nat :=
  statement.leaves.length + expressionSize statement.expression?

/-- The number of the top of the expression of a statement whose first node has number
`start`. -/
def expressionTop (start : Nat) (statement : StatementTree) (expression : Tree) : Nat :=
  start + statement.leaves.length + expression.expressionDescendants

/-- The form of a statement whose first node has number `start`. -/
def form (start : Nat) (statement : StatementTree) : Statement :=
  match statement with
  | .declaration _ _ typeKeyword expression =>
      .declaration start (typeKeyword.map fun _ => start + 1)
        (expression.map (statement.expressionTop start))
  | .assignment _ _ expression => .assignment start (statement.expressionTop start expression)
  | .input _ _ => .input start
  | .output _ expression => .output (statement.expressionTop start expression)

/-- The parts of a statement are its leaves, which have the first numbers, and its
expression. -/
theorem children_form (start : Nat) (statement : StatementTree) :
    (statement.form start).children =
      List.range' start statement.leaves.length ++
        (statement.expression?.map (statement.expressionTop start)).toList := by
  cases statement with
  | declaration position identifier typeKeyword expression =>
      cases typeKeyword <;> cases expression <;> rfl
  | assignment position identifier expression => rfl
  | input position identifier => rfl
  | output position expression => rfl

/-- The top of a statement as a node. -/
def node (start : Nat) (parent? : Option NodeId) (statement : StatementTree) : Node :=
  ⟨.statement (statement.form start), statement.position, parent?⟩

/-- The nodes of the parts of a statement, below the given parent. -/
def parts (tag : Tree.Tagging) (start : Nat) (parent? : Option NodeId)
    (statement : StatementTree) : List Node :=
  statement.leaves.map (LeafAt.node parent?) ++
    expressionNodes tag (start + statement.leaves.length) parent? statement.expression?

/-- The nodes below the top. -/
def lower (tag : Tree.Tagging) (start : Nat) (statement : StatementTree) : List Node :=
  statement.parts tag start (some (start + statement.descendants))

/-- The nodes of a statement whose first node has number `start`. -/
def layout (tag : Tree.Tagging) (start : Nat) (parent? : Option NodeId)
    (statement : StatementTree) : List Node :=
  statement.lower tag start ++ [statement.node start parent?]

@[simp] theorem length_parts
    (tag : Tree.Tagging) (start : Nat) (parent? : Option NodeId) (statement : StatementTree) :
    (statement.parts tag start parent?).length = statement.descendants := by
  simp [parts, descendants]

@[simp] theorem length_lower (tag : Tree.Tagging) (start : Nat) (statement : StatementTree) :
    (statement.lower tag start).length = statement.descendants := by
  simp [lower]

@[simp] theorem length_layout
    (tag : Tree.Tagging) (start : Nat) (parent? : Option NodeId) (statement : StatementTree) :
    (statement.layout tag start parent?).length = statement.descendants + 1 := by
  simp [layout]

/-- A statement is added behind its parts. -/
theorem add_statement (program : Program) (tag : Tree.Tagging) (statement : StatementTree) :
    (program.extend (statement.parts tag program.size none)).add
        (.statement (statement.form program.size)) statement.position =
      .ok (program.extend (statement.layout tag program.size none)) := by
  let top := program.size + statement.descendants
  let leafNodes := statement.leaves.map (LeafAt.node (some top))
  let last := statement.node program.size none
  have leavesAttached := LeafAt.attachAll_leaves program statement.leaves top []
    (expressionNodes tag (program.size + statement.leaves.length) none statement.expression? ++
      [last]) program.size
    (statement.expression?.map (statement.expressionTop program.size)).toList rfl
  rw [Program.add_eq_attachAll, Program.extend_extend, Program.size_extend, length_parts]
  change (program.extend (statement.parts tag program.size none ++ [last])).attachAll
    (statement.form program.size).children top = _
  rw [children_form]
  unfold parts
  simp only [List.nil_append, List.append_assoc] at leavesAttached ⊢
  rw [leavesAttached]
  unfold layout lower parts
  cases statement.expression? with
  | none =>
      simp only [expressionNodes, Option.map_none, Option.toList_none, Program.attachAll_nil,
        List.nil_append, List.append_nil]
      rfl
  | some expression =>
      have attached := Tree.attach_expressionLayout program tag expression top leafNodes [last]
        (program.size + statement.leaves.length) (by simp [leafNodes])
      simp only [expressionNodes, Option.map_some, Option.toList_some, Program.attachAll_cons]
      simp only [List.append_assoc] at attached ⊢
      unfold expressionTop
      rw [attached]
      rfl

/-- The nodes of a statement before it is attached differ from those afterwards at its top
only. -/
theorem attach_layout
    (program : Program) (tag : Tree.Tagging) (statement : StatementTree) (parent : NodeId)
    (before after : List Node) (start : Nat)
    (starts : start = program.size + before.length) :
    (program.extend (before ++ statement.layout tag start none ++ after)).attach
        (start + statement.descendants) parent =
      .ok (program.extend
        (before ++ statement.layout tag start (some parent) ++ after)) := by
  have attached := Program.attach_extend program (before ++ statement.lower tag start) after
    (statement.node start none) parent
  have top : start + statement.descendants =
      program.size + (before ++ statement.lower tag start).length := by
    rw [List.length_append, length_lower]
    omega
  rw [top]
  simpa [layout, node] using attached

end StatementTree

/-- A tree of operands with a nesting that is allowed. -/
def Tree.WellFormed (good : Leaf -> Prop) (tree : Tree) : Prop :=
  (tree.Every fun content => (∀ ty, content ≠ .typeKeyword ty) ∧ good content) ∧
    tree.nesting ≤ greatestDepth

/-- A statement with names, types and expressions where these belong. -/
def StatementTree.WellFormed (good : Leaf -> Prop) : StatementTree -> Prop
  | .declaration _ identifier typeKeyword expression =>
      (identifier.IsName ∧ good identifier.content) ∧
        (∀ leaf ∈ typeKeyword, leaf.IsType) ∧
        (∀ tree ∈ expression, tree.WellFormed good) ∧
        (typeKeyword.isSome ∨ expression.isSome)
  | .assignment _ identifier expression =>
      (identifier.IsName ∧ good identifier.content) ∧ expression.WellFormed good
  | .input _ identifier => identifier.IsName ∧ good identifier.content
  | .output _ expression => expression.WellFormed good

/-- The expression of a well-formed statement is well formed. -/
theorem StatementTree.WellFormed.of_expression?
    {good : Leaf -> Prop} {statement : StatementTree} {tree : Tree}
    (wellFormed : statement.WellFormed good)
    (isExpression : statement.expression? = some tree) :
    tree.WellFormed good := by
  cases statement with
  | declaration position identifier typeKeyword expression =>
      exact wellFormed.2.2.1 tree isExpression
  | assignment position identifier expression =>
      cases isExpression
      exact wellFormed.2
  | input position identifier => cases isExpression
  | output position expression =>
      cases isExpression
      exact wellFormed

end ScriptLang
