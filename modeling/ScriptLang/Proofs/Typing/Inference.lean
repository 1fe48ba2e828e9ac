import ScriptLang.Proofs.Program.Ascent
import ScriptLang.Proofs.Typing.Checker

/-!
# Inference on trees

Inferring the type of an expression of a program gives what the check of its tree
gives.  The types that are recorded on the way are those of the trees that are
well typed and that the check has come to.
-/

namespace ScriptLang

open Source (Position)
open Typing (Inferring formTy infer inferAt leafTy)

namespace Tree

/-- The nodes of a tree after the inference of its type has ended. -/
def reached (symbols : SymbolTable) (start : Nat) (parent? : Option NodeId) :
    Tree -> List Node
  | .leaf content position => [(leaf content position).node untagged start parent?]
  | .unary operator position operand =>
      operand.reached symbols start (some (start + operand.descendants + 1)) ++
        [(unary operator position operand).node (typing symbols) start parent?]
  | .binary operator position left right =>
      let middle := start + left.descendants + 1
      let top := middle + right.descendants + 1
      left.reached symbols start (some top) ++
        (if (left.typeIn symbols).isOk then right.reached symbols middle (some top)
          else right.layout untagged middle (some top)) ++
        [(binary operator position left right).node (typing symbols) start parent?]

@[simp] theorem length_reached
    (symbols : SymbolTable) (start : Nat) (parent? : Option NodeId) (tree : Tree) :
    (tree.reached symbols start parent?).length = tree.descendants + 1 := by
  induction tree generalizing start parent? with
  | leaf content position => rfl
  | unary operator position operand inductionHypothesis =>
      simp [reached, inductionHypothesis]
  | binary operator position left right leftHypothesis rightHypothesis =>
      simp only [reached]
      split <;> simp [leftHypothesis, rightHypothesis] <;> omega

/-- Recorded types cannot be seen on a walk. -/
theorem outlook_node
    (tag other : Tagging) (start : Nat) (parent? : Option NodeId) (tree : Tree) :
    Program.outlook (tree.node tag start parent?) =
      Program.outlook (tree.node other start parent?) := by
  cases tree <;> rfl

theorem outlook_reached
    (symbols : SymbolTable) (start : Nat) (parent? : Option NodeId) (tree : Tree) :
    (tree.reached symbols start parent?).map Program.outlook =
      (tree.layout untagged start parent?).map Program.outlook := by
  induction tree generalizing start parent? with
  | leaf content position => rfl
  | unary operator position operand inductionHypothesis =>
      rw [layout_unary]
      simp only [reached, List.map_append, inductionHypothesis, List.map_cons,
        outlook_node (typing symbols) untagged]
  | binary operator position left right leftHypothesis rightHypothesis =>
      rw [layout_binary]
      simp only [reached]
      split <;>
        simp only [List.map_append, leftHypothesis, rightHypothesis, List.map_cons,
          outlook_node (typing symbols) untagged]

/-- The nodes of a well-typed tree get the types of all trees in it. -/
theorem reached_of_typeIn_eq_ok
    {symbols : SymbolTable} {tree : Tree} {ty : Ty}
    (start : Nat) (parent? : Option NodeId)
    (typed : tree.typeIn symbols = .ok ty) :
    tree.reached symbols start parent? = tree.layout (typing symbols) start parent? := by
  induction tree generalizing start parent? ty with
  | leaf content position => rfl
  | unary operator position operand inductionHypothesis =>
      obtain ⟨operandTy, operandTyped, _⟩ := (bind_eq_ok_iff _ _ _).mp typed
      rw [layout_unary, reached, inductionHypothesis _ _ operandTyped]
  | binary operator position left right leftHypothesis rightHypothesis =>
      obtain ⟨leftTy, leftTyped, rest⟩ := (bind_eq_ok_iff _ _ _).mp typed
      obtain ⟨rightTy, rightTyped, _⟩ := (bind_eq_ok_iff _ _ _).mp rest
      have isOk : (left.typeIn symbols).isOk = true := by rw [leftTyped]; rfl
      rw [layout_binary, reached, leftHypothesis _ _ leftTyped, if_pos isOk,
        rightHypothesis _ _ rightTyped]

/-- The nodes of a whole expression after the inference of its type has ended. -/
def expressionReached (symbols : SymbolTable) (start : Nat) (parent? : Option NodeId)
    (tree : Tree) : List Node :=
  match tree with
  | .leaf .. => tree.expressionLayout (typing symbols) start parent?
  | .unary .. => tree.reached symbols start parent?
  | .binary .. => tree.reached symbols start parent?

theorem outlook_expressionReached
    (symbols : SymbolTable) (start : Nat) (parent? : Option NodeId) (tree : Tree) :
    (tree.expressionReached symbols start parent?).map Program.outlook =
      (tree.expressionLayout untagged start parent?).map Program.outlook := by
  cases tree with
  | leaf content position => rfl
  | unary operator position operand => exact outlook_reached ..
  | binary operator position left right => exact outlook_reached ..

theorem expressionReached_of_typeIn_eq_ok
    {symbols : SymbolTable} {tree : Tree} {ty : Ty}
    (start : Nat) (parent? : Option NodeId)
    (typed : tree.typeIn symbols = .ok ty) :
    tree.expressionReached symbols start parent? =
      tree.expressionLayout (typing symbols) start parent? := by
  cases tree with
  | leaf content position => rfl
  | unary operator position operand => exact reached_of_typeIn_eq_ok start parent? typed
  | binary operator position left right => exact reached_of_typeIn_eq_ok start parent? typed

/-- The last node of a whole expression stands where the tree does. -/
theorem exists_expressionReached_eq
    (symbols : SymbolTable) (start : Nat) (parent? : Option NodeId) (tree : Tree) :
    ∃ lower top, tree.expressionReached symbols start parent? = lower ++ [top] ∧
      lower.length = tree.expressionDescendants ∧ top.position = tree.position := by
  cases tree with
  | leaf content position => exact ⟨[_], _, rfl, rfl, rfl⟩
  | unary operator position operand =>
      exact ⟨_, _, rfl, length_reached .., rfl⟩
  | binary operator position left right =>
      refine ⟨_, _, rfl, ?_, rfl⟩
      rw [List.length_append, length_reached]
      split
      · rw [length_reached]
        simp only [expressionDescendants]
        omega
      · rw [length_layout]
        simp only [expressionDescendants]
        omega

end Tree

namespace Typing

/-- A leaf below the outermost code block is typed by the symbol table of that block. -/
theorem leafTy_of_ascends
    {program : Program} {symbols : SymbolTable} {id : Nat}
    (ascends : program.Ascends symbols id)
    (notZero : 0 < id)
    (position : Position) (content : Leaf) :
    leafTy program id position content = content.typeIn symbols position := by
  cases content with
  | literal value => rfl
  | typeKeyword ty => rfl
  | identifier name =>
      rw [leafTy, Program.resolve_of_ascends ascends notZero, Leaf.typeIn, SymbolTable.resolve]
      cases symbols.get? name <;> rfl

section

variable {program : Program} {id : NodeId} {node : Node}

theorem inferAt_of_leaf
    {content : Leaf}
    (depth : Nat)
    (found : program.node id = .ok node)
    (isLeaf : node.kind = .leaf content) :
    inferAt (depth + 1) id program =
      Running.outcome (leafTy program id node.position content) program := by
  rw [inferAt, Running.bind_of_ok (Running.get_apply _), found,
    Running.bind_of_ok (Running.liftExcept_ok _ _), isLeaf]
  exact Running.liftExcept_apply _ _

/-- The type of an expression is recorded when it has been inferred. -/
theorem inferAt_of_expression
    {expression : Expression}
    (depth : Nat)
    (found : program.node id = .ok node)
    (isExpression : node.kind = .expression expression) :
    inferAt (depth + 1) id program =
      match formTy (inferAt depth) node.position expression.form program with
      | .ok ty after => .ok ty (after.tag id ty)
      | .error fault after => .error fault after := by
  rw [inferAt, Running.bind_of_ok (Running.get_apply _), found,
    Running.bind_of_ok (Running.liftExcept_ok _ _), isExpression]
  simp only [Running.bind_apply]
  cases formTy (inferAt depth) node.position expression.form program <;> rfl

end

section

variable {infer : NodeId -> Inferring Ty} {program after : Program}

theorem formTy_single
    (position : Position) (leaf : NodeId) :
    formTy infer position (.single leaf) program = infer leaf program := rfl

theorem formTy_unary
    {operand : NodeId} {result : Except Fault Ty}
    (position : Position) (operator : UnaryOperator)
    (inferred : infer operand program = Running.outcome result after) :
    formTy infer position (.unary operator operand) program =
      Running.outcome (result >>= fun ty => reportAt position (operator.resultTy ty)) after := by
  rw [formTy, Running.bind_apply, inferred]
  cases result with
  | error fault => rfl
  | ok ty => exact Running.liftExcept_apply _ _

theorem formTy_binary
    {left right : NodeId} {leftResult rightResult : Except Fault Ty} {middle : Program}
    (position : Position) (operator : BinaryOperator)
    (leftInferred : infer left program = Running.outcome leftResult middle)
    (rightInferred : leftResult.isOk = true ->
      infer right middle = Running.outcome rightResult after) :
    formTy infer position (.binary operator left right) program =
      Running.outcome
        (do
          let leftTy ← leftResult
          let rightTy ← rightResult
          reportAt position (operator.resultTy leftTy rightTy))
        (if leftResult.isOk then after else middle) := by
  rw [formTy, Running.bind_apply, leftInferred]
  cases leftResult with
  | error fault => rfl
  | ok leftTy =>
      simp only [Running.outcome_ok, Running.bind_apply, rightInferred rfl]
      cases rightResult with
      | error fault => rfl
      | ok rightTy => exact Running.liftExcept_apply _ _

end

/-- The node behind two lists. -/
theorem node_extend_middle
    (base : Program) (before after : List Node) (node : Node) (id : Nat)
    (place : id = base.size + before.length) :
    (base.extend (before ++ [node] ++ after)).node id = .ok node := by
  have holds := Program.holds_extend_append base before [node] after id place
  rw [Program.holds_singleton] at holds
  rw [Program.node, holds]

/-- A type is recorded at the node behind two lists. -/
theorem tag_extend_middle
    (base : Program) (before after : List Node) (form : ExpressionForm) (position : Position)
    (parent? : Option NodeId) (id : Nat) (ty : Ty)
    (place : id = base.size + before.length) :
    (base.extend (before ++ [⟨.expression ⟨form, none⟩, position, parent?⟩] ++ after)).tag id ty =
      base.extend (before ++ [⟨.expression ⟨form, some ty⟩, position, parent?⟩] ++ after) := by
  have modified := Program.modifyNode_extend base before after
    ⟨.expression ⟨form, none⟩, position, parent?⟩
    fun node => { node with kind := node.kind.withType ty }
  rw [place, List.append_assoc, List.append_assoc]
  exact modified

/-- An expression whose parts have been inferred gets its type at its node. -/
theorem inferAt_of_formTy
    {base : Program} {before middle after : List Node} {form : ExpressionForm}
    {position : Position} {parent? : Option NodeId} {id : Nat} {result : Except Fault Ty}
    (depth : Nat)
    (sameLength : middle.length = before.length)
    (place : id = base.size + before.length)
    (inferred :
      formTy (inferAt depth) position form
        (base.extend (before ++ [⟨.expression ⟨form, none⟩, position, parent?⟩] ++ after)) =
      Running.outcome result
        (base.extend (middle ++ [⟨.expression ⟨form, none⟩, position, parent?⟩] ++ after))) :
    inferAt (depth + 1) id
        (base.extend (before ++ [⟨.expression ⟨form, none⟩, position, parent?⟩] ++ after)) =
      Running.outcome result
        (base.extend
          (middle ++ [⟨.expression ⟨form, result.toOption⟩, position, parent?⟩] ++ after)) := by
  have found := node_extend_middle base before after
    ⟨.expression ⟨form, none⟩, position, parent?⟩ id place
  rw [inferAt_of_expression depth found rfl, inferred]
  cases result with
  | error fault => rfl
  | ok ty =>
      have tagged := tag_extend_middle base middle after form position parent? id ty
        (by rw [sameLength]; exact place)
      simp only [Running.outcome_ok, tagged]
      rfl

/-- A tree is inferred as it is checked, wherever it stands behind a program. -/
def Infers (base : Program) (symbols : SymbolTable) (tree : Tree) : Prop :=
  ∀ (depth start : Nat) (parent? : Option NodeId) (before after : List Node),
    start = base.size + before.length -> 0 < start -> tree.nesting < depth ->
    (∀ id, start ≤ id -> id ≤ start + tree.descendants ->
      (base.extend (before ++ tree.layout Tree.untagged start parent? ++ after)).Ascends
        symbols id) ->
    inferAt depth (start + tree.descendants)
        (base.extend (before ++ tree.layout Tree.untagged start parent? ++ after)) =
      Running.outcome (tree.typeIn symbols)
        (base.extend (before ++ tree.reached symbols start parent? ++ after))

namespace Infers

variable {base : Program} {symbols : SymbolTable}

theorem leaf (content : Leaf) (position : Position) :
    Infers base symbols (.leaf content position) := by
  intro depth start parent? before after starts notZero deep ascends
  obtain ⟨less, rfl⟩ : ∃ less, depth = less + 1 := ⟨depth - 1, by omega⟩
  have found := node_extend_middle base before after
    ((Tree.leaf content position).node Tree.untagged start parent?) start starts
  have here := ascends start (Nat.le_refl _) (Nat.le_refl _)
  exact (inferAt_of_leaf less found rfl).trans
    (congrArg (Running.outcome · _) (leafTy_of_ascends here notZero position content))

/-- An operand is inferred before its operator. -/
theorem unary
    {operand : Tree}
    (operator : UnaryOperator) (position : Position)
    (operandInfers : Infers base symbols operand) :
    Infers base symbols (.unary operator position operand) := by
  intro depth start parent? before after starts notZero deep ascends
  obtain ⟨less, rfl⟩ : ∃ less, depth = less + 1 := ⟨depth - 1, by omega⟩
  rw [Tree.nesting_unary] at deep
  let top := start + operand.descendants + 1
  let form := (Tree.unary operator position operand).form start
  let last : Node := ⟨.expression ⟨form, none⟩, position, parent?⟩
  have regroup : ∀ nodes rest : List Node,
      before ++ (nodes ++ [last]) ++ rest = before ++ nodes ++ (last :: rest) := by
    intro nodes rest
    simp
  have asOneList : ∀ (nodes : List Node) (node : Node),
      before ++ (nodes ++ [node]) ++ after = before ++ nodes ++ [node] ++ after := by
    intro nodes node
    simp
  have operandInferred := operandInfers less start (some top) before (last :: after)
    starts notZero (by omega) (fun id least greatest => by
      have here := ascends id least (by rw [Tree.descendants_unary]; omega)
      rw [Tree.layout_unary] at here
      exact (regroup _ _) ▸ here)
  have inferred := formTy_unary position operator operandInferred
  rw [← regroup, ← regroup, asOneList, asOneList] at inferred
  have place : top = base.size +
      (before ++ operand.layout Tree.untagged start (some top)).length := by
    simp [top]
    omega
  have done := inferAt_of_formTy less (by simp) place inferred
  rw [Tree.layout_unary, Tree.reached, asOneList, asOneList]
  exact done

/-- Two operands are inferred from left to right, and the right one only if the left one is
well-typed. -/
theorem binary
    {left right : Tree}
    (operator : BinaryOperator) (position : Position)
    (leftInfers : Infers base symbols left)
    (rightInfers : Infers base symbols right) :
    Infers base symbols (.binary operator position left right) := by
  intro depth start parent? before after starts notZero deep ascends
  obtain ⟨less, rfl⟩ : ∃ less, depth = less + 1 := ⟨depth - 1, by omega⟩
  rw [Tree.nesting_binary] at deep
  let middle := start + left.descendants + 1
  let top := middle + right.descendants + 1
  let form := (Tree.binary operator position left right).form start
  let last : Node := ⟨.expression ⟨form, none⟩, position, parent?⟩
  let leftBefore := left.layout Tree.untagged start (some top)
  let leftAfter := left.reached symbols start (some top)
  let rightBefore := right.layout Tree.untagged middle (some top)
  let rightAfter := right.reached symbols middle (some top)
  have layout : (Tree.binary operator position left right).layout Tree.untagged start parent? =
      leftBefore ++ rightBefore ++ [last] := rfl
  have leftInferred := leftInfers less start (some top) before
    (rightBefore ++ last :: after) starts notZero (by omega) (fun id least greatest => by
      have here := ascends id least (by rw [Tree.descendants_binary]; omega)
      rw [layout] at here
      simpa [leftBefore] using here)
  have rightInferred := rightInfers less middle (some top) (before ++ leftAfter)
    (last :: after) (by simp [middle, leftAfter, starts]; omega) (by omega) (by omega)
    (fun id least greatest => by
      have here := ascends id (by omega) (by rw [Tree.descendants_binary]; omega)
      rw [layout] at here
      refine Program.Ascends.congr ?_ here
      simp [leftBefore, leftAfter, rightBefore, Tree.outlook_reached])
  rw [List.append_assoc (before ++ leftAfter), List.append_assoc (before ++ leftAfter)]
    at rightInferred
  have inferred := formTy_binary position operator leftInferred fun _ => rightInferred
  let parts := if (left.typeIn symbols).isOk then rightAfter else rightBefore
  have partsLength : parts.length = right.descendants + 1 := by
    simp only [parts]
    split <;> simp [rightAfter, rightBefore]
  have joined : (if (left.typeIn symbols).isOk then
        base.extend (before ++ leftAfter ++ (rightAfter ++ last :: after))
      else base.extend (before ++ leftAfter ++ (rightBefore ++ last :: after))) =
      base.extend (before ++ leftAfter ++ parts ++ [last] ++ after) := by
    simp only [parts]
    split <;> simp
  have flat : before ++ leftBefore ++ (rightBefore ++ last :: after) =
      before ++ leftBefore ++ rightBefore ++ [last] ++ after := by simp
  rw [joined, flat] at inferred
  have place : top = base.size + (before ++ leftBefore ++ rightBefore).length := by
    simp [leftBefore, rightBefore, top, middle, starts]
    omega
  have done := inferAt_of_formTy less
    (by simp [leftBefore, leftAfter, rightBefore, partsLength]) place inferred
  have topIs : start + (Tree.binary operator position left right).descendants = top := by
    simp only [Tree.descendants_binary, top, middle]
    omega
  have asOneList : ∀ (first second : List Node) (node : Node),
      before ++ (first ++ second ++ [node]) ++ after =
        before ++ first ++ second ++ [node] ++ after := by
    intro first second node
    simp
  rw [layout, topIs, Tree.reached, asOneList, asOneList]
  exact done

end Infers

/-- The inference of a tree of a program is the check of the tree. -/
theorem infers_tree (base : Program) (symbols : SymbolTable) (tree : Tree) :
    Infers base symbols tree := by
  induction tree with
  | leaf content position => exact .leaf content position
  | unary operator position operand inductionHypothesis =>
      exact .unary operator position inductionHypothesis
  | binary operator position left right leftHypothesis rightHypothesis =>
      exact .binary operator position leftHypothesis rightHypothesis

/-- A bare leaf is inferred before the expression that it makes. -/
theorem inferAt_leafExpression
    (base : Program) (symbols : SymbolTable) (content : Leaf) (position : Position)
    (depth start : Nat) (parent? : Option NodeId) (before after : List Node)
    (starts : start = base.size + before.length)
    (notZero : 0 < start)
    (ascends : (base.extend
      (before ++ (Tree.leaf content position).expressionLayout Tree.untagged start parent? ++
        after)).Ascends symbols start) :
    inferAt (depth + 1 + 1) (start + 1)
        (base.extend
          (before ++ (Tree.leaf content position).expressionLayout Tree.untagged start parent? ++
            after)) =
      Running.outcome (content.typeIn symbols position)
        (base.extend
          (before ++ (Tree.leaf content position).expressionReached symbols start parent? ++
            after)) := by
  let leafNode : Node := ⟨.leaf content, position, some (start + 1)⟩
  let last : Node := ⟨.expression ⟨.single start, none⟩, position, parent?⟩
  have regroup : before ++ (Tree.leaf content position).expressionLayout Tree.untagged start
      parent? ++ after = before ++ [leafNode] ++ [last] ++ after := by
    change before ++ ([leafNode] ++ [last]) ++ after = _
    rw [← List.append_assoc before]
  have reachedIs : before ++ (Tree.leaf content position).expressionReached symbols start
      parent? ++ after = before ++ [leafNode] ++ [⟨.expression
        ⟨.single start, (content.typeIn symbols position).toOption⟩, position, parent?⟩] ++
          after := by
    change before ++ ([leafNode] ++ [_]) ++ after = _
    rw [← List.append_assoc before]
    rfl
  rw [regroup] at ascends
  rw [regroup, reachedIs]
  have found := node_extend_middle base before ([last] ++ after) leafNode start starts
  rw [← List.append_assoc (before ++ [leafNode])] at found
  have leafInferred : inferAt (depth + 1) start
      (base.extend (before ++ [leafNode] ++ [last] ++ after)) =
      Running.outcome (content.typeIn symbols position)
        (base.extend (before ++ [leafNode] ++ [last] ++ after)) := by
    rw [inferAt_of_leaf _ found rfl]
    exact congrArg (Running.outcome · _) (leafTy_of_ascends ascends notZero position content)
  have place : start + 1 = base.size + (before ++ [leafNode]).length := by
    rw [starts, List.length_append]
    rfl
  exact inferAt_of_formTy (depth + 1) rfl place
    ((formTy_single position start).trans leafInferred)

/-- The inference of a whole expression of a program is the check of its tree. -/
theorem infer_expression
    (base : Program) (symbols : SymbolTable) (tree : Tree)
    (start : Nat) (parent? : Option NodeId) (before after : List Node)
    (starts : start = base.size + before.length)
    (notZero : 0 < start)
    (ascends : ∀ id, start ≤ id -> id ≤ start + tree.expressionDescendants ->
      (base.extend (before ++ tree.expressionLayout Tree.untagged start parent? ++ after)).Ascends
        symbols id) :
    infer (start + tree.expressionDescendants)
        (base.extend (before ++ tree.expressionLayout Tree.untagged start parent? ++ after)) =
      Running.outcome (tree.typeIn symbols)
        (base.extend (before ++ tree.expressionReached symbols start parent? ++ after)) := by
  have size : (base.extend
      (before ++ tree.expressionLayout Tree.untagged start parent? ++ after)).size =
        start + tree.expressionDescendants + 1 + after.length := by
    rw [Program.size_extend, List.length_append, List.length_append,
      Tree.length_expressionLayout]
    omega
  rw [infer, Running.bind_of_ok (Running.get_apply _), size]
  cases tree with
  | unary operator position operand =>
      have deep := (Tree.unary operator position operand).nesting_le_descendants
      exact infers_tree base symbols _ _ start parent? before after starts notZero
        (Nat.lt_succ_of_le (Nat.le_trans deep (by simp [Tree.expressionDescendants]; omega)))
        ascends
  | binary operator position left right =>
      have deep := (Tree.binary operator position left right).nesting_le_descendants
      exact infers_tree base symbols _ _ start parent? before after starts notZero
        (Nat.lt_succ_of_le (Nat.le_trans deep (by simp [Tree.expressionDescendants]; omega)))
        ascends
  | leaf content position =>
      have steps : start + (Tree.leaf content position).expressionDescendants + 1 +
          after.length + 1 = start + after.length + 1 + 1 + 1 := by
        have descendants : (Tree.leaf content position).expressionDescendants = 1 := rfl
        omega
      rw [steps]
      exact inferAt_leafExpression base symbols content position _ start parent? before after
        starts notZero (ascends start (Nat.le_refl _) (Nat.le_succ _))

end Typing
end ScriptLang
