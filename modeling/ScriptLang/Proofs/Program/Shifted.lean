import ScriptLang.Proofs.Program.Assembly

/-!
# Programs one behind the other

The numbers of the nodes of statements are determined by the number of the first
one, so statements that start later have the same nodes with greater numbers.  The
outermost code block and the root of a program keep their numbers zero and one.
-/

namespace ScriptLang

open Source (Position)

/-- The number of a node that stands further behind; the outermost code block and the root stay
where they are. -/
def shiftedId (offset : Nat) (id : NodeId) : NodeId :=
  if id < 2 then id else id + offset

theorem shiftedId_of_le
    {id : Nat}
    (offset : Nat)
    (behindFrame : 2 ≤ id) :
    shiftedId offset id = id + offset :=
  if_neg (Nat.not_lt.mpr behindFrame)

namespace ExpressionForm

/-- The form of an expression whose parts stand further behind. -/
def shifted (offset : Nat) : ExpressionForm -> ExpressionForm
  | .binary operator left right =>
      .binary operator (shiftedId offset left) (shiftedId offset right)
  | .unary operator operand => .unary operator (shiftedId offset operand)
  | .single leaf => .single (shiftedId offset leaf)

end ExpressionForm

namespace Statement

/-- The form of a statement whose parts stand further behind. -/
def shifted (offset : Nat) : Statement -> Statement
  | .declaration identifier typeKeyword expression =>
      .declaration (shiftedId offset identifier) (typeKeyword.map (shiftedId offset))
        (expression.map (shiftedId offset))
  | .assignment identifier expression =>
      .assignment (shiftedId offset identifier) (shiftedId offset expression)
  | .input identifier => .input (shiftedId offset identifier)
  | .output expression => .output (shiftedId offset expression)

end Statement

namespace NodeKind

/-- What a node is whose children stand further behind. -/
def shifted (offset : Nat) : NodeKind -> NodeKind
  | .program code => .program (shiftedId offset code)
  | .codeBlock statements symbols => .codeBlock (statements.map (shiftedId offset)) symbols
  | .statement content => .statement (content.shifted offset)
  | .expression content => .expression { content with form := content.form.shifted offset }
  | .leaf content => .leaf content

/-- A code block with more statements at its end; any other node stays as it is. -/
def withStatements (more : List NodeId) : NodeKind -> NodeKind
  | .codeBlock statements symbols => .codeBlock (statements ++ more) symbols
  | kind => kind

end NodeKind

/-- A node whose children and parent stand further behind. -/
def Node.shifted (offset : Nat) (node : Node) : Node where
  kind := node.kind.shifted offset
  position := node.position
  parent? := node.parent?.map (shiftedId offset)

/-- The statements of one program behind those of another one.  The nodes of the second program
behind its frame follow the nodes of the first one, and their numbers are shifted by the number
of nodes that they pass. -/
def Program.followedBy (first second : Program) : Program :=
  let offset := first.size - 2
  let statements := second.statements.map (shiftedId offset)
  (first.modifyKind first.code (.withStatements statements)).extend
    ((second.nodes.toList.drop 2).map (Node.shifted offset))

/-- A program that consists of one program followed by another one. -/
structure Program.IsSequence (first second both : Program) : Prop where
  frame : both.code = first.code ∧ both.root = first.root
  size : both.size = first.size + (second.size - 2)
  /-- The outermost code block and the root stay where they are. -/
  block : ∃ statements symbols position,
    first.node? 0 = some ⟨.codeBlock statements symbols, position, some 1⟩ ∧
      both.node? 0 = some ⟨.codeBlock both.statements symbols, position, some 1⟩
  statements : both.statements =
    first.statements ++ second.statements.map (shiftedId (first.size - 2))
  kept : ∀ id : Nat, id ≠ 0 -> id < first.size -> both.node? id = first.node? id
  moved : ∀ id : Nat, 2 ≤ id ->
    both.node? (id + (first.size - 2)) =
      (second.node? id).map (Node.shifted (first.size - 2))

section

variable (offset : Nat) {start : Nat}

namespace Tree

variable (tag : Tagging)

theorem shifted_form (behindFrame : 2 ≤ start) (tree : Tree) :
    (tree.form start).shifted offset = tree.form (start + offset) := by
  cases tree with
  | leaf content position =>
      simp only [form, ExpressionForm.shifted, shiftedId_of_le offset behindFrame]
  | unary operator position operand =>
      have operandTop : 2 ≤ start + operand.descendants := by omega
      have sameTop : start + operand.descendants + offset =
          start + offset + operand.descendants := by omega
      simp only [form, ExpressionForm.shifted, shiftedId_of_le offset operandTop, sameTop]
  | binary operator position left right =>
      have leftTop : 2 ≤ start + left.descendants := by omega
      have rightTop : 2 ≤ start + left.descendants + 1 + right.descendants := by omega
      have sameLeftTop : start + left.descendants + offset =
          start + offset + left.descendants := by omega
      have sameRightTop : start + left.descendants + 1 + right.descendants + offset =
          start + offset + left.descendants + 1 + right.descendants := by omega
      simp only [form, ExpressionForm.shifted, shiftedId_of_le offset leftTop,
        shiftedId_of_le offset rightTop, sameLeftTop, sameRightTop]

theorem shifted_node
    (behindFrame : 2 ≤ start) (parent? : Option NodeId) (tree : Tree) :
    (tree.node tag start parent?).shifted offset =
      tree.node tag (start + offset) (parent?.map (shiftedId offset)) := by
  have sameForm := shifted_form offset behindFrame tree
  cases tree with
  | leaf content position => rfl
  | unary operator position operand =>
      simp only [node, kind, Node.shifted, NodeKind.shifted, sameForm]
  | binary operator position left right =>
      simp only [node, kind, Node.shifted, NodeKind.shifted, sameForm]

theorem shifted_layout
    (behindFrame : 2 ≤ start) (parent? : Option NodeId) (tree : Tree) :
    (tree.layout tag start parent?).map (Node.shifted offset) =
      tree.layout tag (start + offset) (parent?.map (shiftedId offset)) := by
  induction tree generalizing start parent? with
  | leaf content position => rfl
  | unary operator position operand inductionHypothesis =>
      have top : 2 ≤ start + operand.descendants + 1 := by omega
      have sameTop : start + operand.descendants + 1 + offset =
          start + offset + operand.descendants + 1 := by omega
      rw [layout_unary, layout_unary, List.map_append, List.map_singleton,
        inductionHypothesis behindFrame, shifted_node offset tag behindFrame, Option.map_some,
        shiftedId_of_le offset top, sameTop]
  | binary operator position left right leftHypothesis rightHypothesis =>
      have middle : 2 ≤ start + left.descendants + 1 := by omega
      have top : 2 ≤ start + left.descendants + 1 + right.descendants + 1 := by omega
      have sameMiddle : start + left.descendants + 1 + offset =
          start + offset + left.descendants + 1 := by omega
      have sameTop : start + left.descendants + 1 + right.descendants + 1 + offset =
          start + offset + left.descendants + 1 + right.descendants + 1 := by omega
      rw [layout_binary, layout_binary, List.map_append, List.map_append, List.map_singleton,
        leftHypothesis behindFrame, rightHypothesis middle, shifted_node offset tag behindFrame,
        Option.map_some, shiftedId_of_le offset top, sameMiddle, sameTop]

theorem shifted_expressionLayout
    (behindFrame : 2 ≤ start) (parent? : Option NodeId) (tree : Tree) :
    (tree.expressionLayout tag start parent?).map (Node.shifted offset) =
      tree.expressionLayout tag (start + offset) (parent?.map (shiftedId offset)) := by
  cases tree with
  | leaf content position =>
      have top : 2 ≤ start + 1 := by omega
      have sameTop : start + 1 + offset = start + offset + 1 := by omega
      simp only [expressionLayout, expressionLower, expressionNode, form, List.singleton_append,
        List.map_cons, List.map_nil, Node.shifted, NodeKind.shifted, ExpressionForm.shifted,
        Option.map_some, shiftedId_of_le offset behindFrame, shiftedId_of_le offset top, sameTop]
  | unary operator position operand =>
      exact shifted_layout offset tag behindFrame parent? (.unary operator position operand)
  | binary operator position left right =>
      exact shifted_layout offset tag behindFrame parent? (.binary operator position left right)

end Tree

namespace StatementTree

theorem shifted_form (behindFrame : 2 ≤ start) (statement : StatementTree) :
    (statement.form start).shifted offset = statement.form (start + offset) := by
  have expression (tree : Tree) : shiftedId offset (statement.expressionTop start tree) =
      statement.expressionTop (start + offset) tree := by
    have top : 2 ≤ statement.expressionTop start tree := by
      unfold expressionTop
      omega
    have sameTop : statement.expressionTop start tree + offset =
        statement.expressionTop (start + offset) tree := by
      unfold expressionTop
      omega
    rw [shiftedId_of_le offset top, sameTop]
  have first := shiftedId_of_le offset behindFrame
  have second : shiftedId offset (start + 1) = start + offset + 1 := by
    rw [shiftedId_of_le offset (Nat.le_succ_of_le behindFrame), Nat.add_right_comm]
  cases statement with
  | declaration position identifier typeKeyword initializer =>
      simp only [form, Statement.shifted, first, Option.map_map, Function.comp_def, second,
        expression]
  | assignment position identifier tree => simp only [form, Statement.shifted, first, expression]
  | input position identifier => simp only [form, Statement.shifted, first]
  | output position tree => simp only [form, Statement.shifted, expression]

theorem shifted_layout
    (tag : Tree.Tagging)
    (behindFrame : 2 ≤ start) (parent? : Option NodeId) (statement : StatementTree) :
    (statement.layout tag start parent?).map (Node.shifted offset) =
      statement.layout tag (start + offset) (parent?.map (shiftedId offset)) := by
  have top : 2 ≤ start + statement.descendants := by omega
  have sameTop : start + statement.descendants + offset =
      start + offset + statement.descendants := by omega
  have behindLeaves : 2 ≤ start + statement.leaves.length := by omega
  have sameBehindLeaves : start + statement.leaves.length + offset =
      start + offset + statement.leaves.length := by omega
  have leafNodes : ∀ parent?, (statement.leaves.map (LeafAt.node parent?)).map
      (Node.shifted offset) =
        statement.leaves.map (LeafAt.node (parent?.map (shiftedId offset))) := by
    intro parent?
    rw [List.map_map]
    rfl
  have topNode : (statement.node start parent?).shifted offset =
      statement.node (start + offset) (parent?.map (shiftedId offset)) := by
    unfold node
    rw [← shifted_form offset behindFrame]
    rfl
  unfold layout lower parts
  rw [List.map_append, List.map_append, List.map_singleton, topNode, leafNodes, Option.map_some,
    shiftedId_of_le offset top, sameTop]
  cases statement.expression? with
  | none => rfl
  | some tree =>
      rw [expressionNodes, Tree.shifted_expressionLayout offset tag behindLeaves, Option.map_some,
        shiftedId_of_le offset top, sameTop, sameBehindLeaves, expressionNodes]

end StatementTree

namespace Tagged

theorem shifted_tops (behindFrame : 2 ≤ start) (statements : List Tagged) :
    (tops start statements).map (shiftedId offset) = tops (start + offset) statements := by
  induction statements generalizing start with
  | nil => rfl
  | cons first rest inductionHypothesis =>
      have top : 2 ≤ start + first.statement.descendants := by omega
      have sameTop : start + first.statement.descendants + offset =
          start + offset + first.statement.descendants := by omega
      have sameNext : start + first.statement.descendants + 1 + offset =
          start + offset + first.statement.descendants + 1 := by omega
      rw [tops, tops, List.map_cons, inductionHypothesis (Nat.le_succ_of_le top),
        shiftedId_of_le offset top, sameTop, sameNext]

theorem shifted_layouts (behindFrame : 2 ≤ start) (statements : List Tagged) :
    (layouts start statements).map (Node.shifted offset) =
      layouts (start + offset) statements := by
  induction statements generalizing start with
  | nil => rfl
  | cons first rest inductionHypothesis =>
      have next : 2 ≤ start + first.statement.descendants + 1 := by omega
      have sameNext : start + first.statement.descendants + 1 + offset =
          start + offset + first.statement.descendants + 1 := by omega
      rw [layouts, layouts, List.map_append, inductionHypothesis next,
        StatementTree.shifted_layout offset first.tag behindFrame, sameNext]
      rfl

end Tagged

end

namespace Program

/-- The statements of two assembled programs one behind the other are assembled to the first
program followed by the second. -/
theorem assemble_append
    (position other : Position) (symbols otherSymbols : SymbolTable)
    (first second : List Tagged) :
    assemble position symbols (first ++ second) =
      (assemble position symbols first).followedBy (assemble other otherSymbols second) := by
  have offset : (assemble position symbols first).size - 2 = Tagged.extent first := by
    rw [size_assemble]
    omega
  have statements : Tagged.tops 2 (first ++ second) =
      Tagged.tops 2 first ++ (Tagged.tops 2 second).map (shiftedId (Tagged.extent first)) := by
    rw [Tagged.tops_append, Tagged.shifted_tops _ (Nat.le_refl 2)]
  have nodes : Tagged.layouts 2 (first ++ second) =
      Tagged.layouts 2 first ++
        (Tagged.layouts 2 second).map (Node.shifted (Tagged.extent first)) := by
    rw [Tagged.layouts_append, Tagged.shifted_layouts _ (Nat.le_refl 2)]
  have block := modifyKind_frame position (Tagged.tops 2 first) symbols (Tagged.layouts 2 first)
    (.withStatements ((Tagged.tops 2 second).map (shiftedId (Tagged.extent first))))
    (Tagged.tops 2 (first ++ second)) symbols (by rw [statements]; rfl)
  have behind : (assemble other otherSymbols second).nodes.toList.drop 2 =
      Tagged.layouts 2 second := by
    simp [assemble, extend, frame]
  unfold followedBy
  dsimp only
  rw [offset, behind, statements_assemble]
  change _ = (((frame position (Tagged.tops 2 first) symbols).extend
    (Tagged.layouts 2 first)).modifyKind 0 _).extend _
  rw [block, extend_extend, ← nodes]
  rfl

/-- The nodes of an assembled program behind its frame. -/
theorem node?_assemble_add_two
    (position : Position) (symbols : SymbolTable) (statements : List Tagged) (index : Nat) :
    (assemble position symbols statements).node? (2 + index) =
      (Tagged.layouts 2 statements)[index]? :=
  node?_extend_add (frame position (Tagged.tops 2 statements) symbols) _ index

/-- An assembled program that is followed by another one keeps its nodes, and the nodes of the
other one stand behind them. -/
theorem isSequence_assemble
    (position other : Position) (symbols otherSymbols : SymbolTable)
    (first second : List Tagged) :
    (assemble position symbols first).IsSequence (assemble other otherSymbols second)
      ((assemble position symbols first).followedBy (assemble other otherSymbols second)) := by
  have offset : 2 + Tagged.extent first - 2 = Tagged.extent first := by omega
  rw [← assemble_append]
  constructor
  case frame => exact ⟨rfl, rfl⟩
  case size =>
    simp only [size_assemble, Tagged.extent_append]
    omega
  case block =>
    rw [statements_assemble]
    exact ⟨_, _, _, node?_frame_zero .., node?_frame_zero ..⟩
  case statements =>
    rw [statements_assemble, statements_assemble, statements_assemble, size_assemble, offset,
      Tagged.tops_append, Tagged.shifted_tops _ (Nat.le_refl 2)]
  case kept =>
    intro id notBlock inRange
    rw [size_assemble] at inRange
    match id with
    | 0 => exact absurd rfl notBlock
    | 1 =>
        rw [assemble, assemble, node?_extend_of_lt _ (Nat.lt_succ_self 1),
          node?_extend_of_lt _ (Nat.lt_succ_self 1)]
        rfl
    | index + 2 =>
        have inLayouts : index < (Tagged.layouts 2 first).length := by
          rw [Tagged.length_layouts]
          omega
        rw [Nat.add_comm, node?_assemble_add_two, node?_assemble_add_two, Tagged.layouts_append,
          List.getElem?_append_left inLayouts]
  case moved =>
    intro id behindFrame
    obtain ⟨index, rfl⟩ := Nat.exists_eq_add_of_le behindFrame
    have behind : 2 + index + Tagged.extent first = 2 + (Tagged.extent first + index) := by omega
    have inSecond : Tagged.extent first + index - (Tagged.layouts 2 first).length = index := by
      rw [Tagged.length_layouts]
      omega
    have notFirst : (Tagged.layouts 2 first).length ≤ Tagged.extent first + index := by
      rw [Tagged.length_layouts]
      omega
    rw [size_assemble, offset, behind, node?_assemble_add_two, node?_assemble_add_two,
      Tagged.layouts_append, List.getElem?_append_right notFirst, inSecond,
      ← Tagged.shifted_layouts _ (Nat.le_refl 2), List.getElem?_map]

end Program
end ScriptLang
