import Mathlib.Logic.Relation
import ScriptLang.Proofs.Program.Ascent

/-!
# Children and parents

A stretch of nodes is a subtree when its last node lies above all others: every
other node is a child of a later one, and the children of every node stand before
it, are named once, and know it as their parent.  Subtrees that follow each other
become one subtree when a node is put behind them that names their tops, and this
is how the nodes of expressions and statements are laid out.
-/

namespace ScriptLang

namespace Program

/-- A node names another one as its child. -/
def Child (program : Program) (parent child : NodeId) : Prop :=
  ∃ node, program.node? parent = some node ∧ child ∈ node.kind.children

/-- A node is another one or lies below it. -/
def Under (program : Program) (top id : NodeId) : Prop :=
  Relation.ReflTransGen program.Child top id

/-- The parent that a node knows. -/
def parent? (program : Program) (id : NodeId) : Option NodeId :=
  (program.node? id).bind Node.parent?

/-- The nodes from `start` to `top` are a tree. -/
structure Subtree (program : Program) (start top : Nat) : Prop where
  ordered : start ≤ top
  /-- A node names each of its children once; they stand before it and know it. -/
  children : ∀ id, start ≤ id -> id ≤ top -> ∃ node, program.node? id = some node ∧
    node.kind.children.Nodup ∧
      ∀ child : Nat, child ∈ node.kind.children ->
        start ≤ child ∧ child < id ∧ program.parent? child = some id
  /-- A node below the top is a child of a later one. -/
  parent : ∀ id, start ≤ id -> id < top ->
    ∃ parent, id < parent ∧ parent ≤ top ∧ program.Child parent id

/-- Subtrees that follow each other without a gap, given by their tops. -/
inductive Subtrees (program : Program) : Nat -> List NodeId -> Nat -> Prop
  | nil (start : Nat) : Subtrees program start [] start
  | cons {start top stop : Nat} {others : List NodeId} :
      program.Subtree start top -> Subtrees program (top + 1) others stop ->
        Subtrees program start (top :: others) stop

section

variable {program : Program}

namespace Subtree

variable {start top : Nat}

/-- Every node of a subtree lies below its top. -/
theorem under
    (subtree : program.Subtree start top)
    {id : Nat}
    (least : start ≤ id)
    (greatest : id ≤ top) :
    program.Under top id := by
  rcases Nat.eq_or_lt_of_le greatest with rfl | less
  · exact .refl
  · obtain ⟨parent, later, inRange, isChild⟩ := subtree.parent id least less
    exact (subtree.under (Nat.le_of_lt (Nat.lt_of_le_of_lt least later)) inRange).tail isChild
termination_by top - id

/-- What lies below a node of a subtree belongs to the subtree, and does not stand behind the
node. -/
theorem le_of_under
    (subtree : program.Subtree start top)
    {upper id : Nat}
    (least : start ≤ upper)
    (greatest : upper ≤ top)
    (under : program.Under upper id) :
    start ≤ id ∧ id ≤ upper := by
  induction under with
  | refl => exact ⟨least, Nat.le_refl _⟩
  | @tail middle last _ isChild inductionHypothesis =>
      obtain ⟨startsBefore, standsBefore⟩ := inductionHypothesis
      obtain ⟨node, found, _, children⟩ :=
        subtree.children middle startsBefore (Nat.le_trans standsBefore greatest)
      obtain ⟨other, otherFound, isNamed⟩ := isChild
      rw [found] at otherFound
      cases otherFound
      obtain ⟨leastChild, before, _⟩ := children last isNamed
      exact ⟨leastChild, Nat.le_trans (Nat.le_of_lt before) standsBefore⟩

end Subtree

namespace Subtrees

variable {start stop : Nat} {tops : List NodeId}

theorem start_le_stop (subtrees : program.Subtrees start tops stop) : start ≤ stop := by
  induction subtrees with
  | nil start => exact Nat.le_refl _
  | cons subtree _ inductionHypothesis =>
      have ordered := subtree.ordered
      omega

/-- The tops of subtrees lie between the limits of all. -/
theorem lt_of_mem
    (subtrees : program.Subtrees start tops stop)
    {id : Nat}
    (member : id ∈ tops) :
    start ≤ id ∧ id < stop := by
  induction subtrees with
  | nil start => cases member
  | cons subtree others inductionHypothesis =>
      have ordered := subtree.ordered
      have behind := others.start_le_stop
      rcases List.mem_cons.mp member with rfl | inOthers
      · omega
      · have inRange := inductionHypothesis inOthers
        omega

/-- Subtrees that follow each other have different tops. -/
theorem nodup (subtrees : program.Subtrees start tops stop) : tops.Nodup := by
  induction subtrees with
  | nil start => exact .nil
  | cons subtree others inductionHypothesis =>
      refine List.nodup_cons.mpr ⟨fun again => ?_, inductionHypothesis⟩
      have behind := (others.lt_of_mem again).1
      omega

/-- The tops of subtrees are tops. -/
theorem exists_of_mem
    (subtrees : program.Subtrees start tops stop)
    {id : Nat}
    (member : id ∈ tops) :
    ∃ first, program.Subtree first id := by
  induction subtrees with
  | nil start => cases member
  | @cons start top stop others subtree rest inductionHypothesis =>
      rcases List.mem_cons.mp member with rfl | inOthers
      · exact ⟨start, subtree⟩
      · exact inductionHypothesis inOthers

/-- Every node between the limits belongs to one of the subtrees. -/
theorem exists_subtree
    (subtrees : program.Subtrees start tops stop)
    {id : Nat}
    (least : start ≤ id)
    (less : id < stop) :
    ∃ first top : Nat, top ∈ tops ∧ program.Subtree first top ∧
      start ≤ first ∧ first ≤ id ∧ id ≤ top := by
  induction subtrees with
  | nil start => omega
  | @cons start top stop others subtree rest inductionHypothesis =>
      rcases Nat.lt_or_ge top id with behind | inFirst
      · obtain ⟨first, last, member, isSubtree, leastFirst, bounds⟩ :=
          inductionHypothesis behind less
        have ordered := subtree.ordered
        exact ⟨first, last, List.mem_cons_of_mem _ member, isSubtree, by omega, bounds⟩
      · exact ⟨start, top, List.mem_cons_self, subtree, Nat.le_refl _, least, inFirst⟩

/-- What lies below the top of a subtree lies between the limits of all. -/
theorem start_le_of_under
    (subtrees : program.Subtrees start tops stop)
    {top id : Nat}
    (member : top ∈ tops)
    (under : program.Under top id) :
    start ≤ id := by
  induction subtrees with
  | nil start => cases member
  | cons subtree others inductionHypothesis =>
      have ordered := subtree.ordered
      rcases List.mem_cons.mp member with rfl | inOthers
      · exact (subtree.le_of_under ordered (Nat.le_refl _) under).1
      · have behind := inductionHypothesis inOthers
        omega

/-- A node lies below the top of one subtree only. -/
theorem index_unique
    (subtrees : program.Subtrees start tops stop)
    {index otherIndex top other id : Nat}
    (isTop : tops[index]? = some top)
    (isOther : tops[otherIndex]? = some other)
    (underTop : program.Under top id)
    (underOther : program.Under other id) :
    index = otherIndex := by
  induction subtrees generalizing index otherIndex with
  | nil start => cases isTop
  | @cons start first stop others subtree rest inductionHypothesis =>
      have notBoth : ∀ behind : Nat, behind ∈ others -> program.Under first id ->
          ¬ program.Under behind id := by
        intro behind member underFirst underBehind
        have inFirst := (subtree.le_of_under subtree.ordered (Nat.le_refl _) underFirst).2
        exact Nat.not_lt_of_le inFirst (rest.start_le_of_under member underBehind)
      match index, otherIndex with
      | 0, 0 => rfl
      | 0, _ + 1 =>
          cases isTop
          exact absurd underOther (notBoth other (List.mem_of_getElem? isOther) underTop)
      | _ + 1, 0 =>
          cases isOther
          exact absurd underTop (notBoth top (List.mem_of_getElem? isTop) underOther)
      | index + 1, otherIndex + 1 =>
          exact congrArg Nat.succ (inductionHypothesis isTop isOther)

end Subtrees

/-- A node behind subtrees that names their tops makes one subtree of all. -/
theorem subtree_of_subtrees
    {start top : Nat} {node : Node}
    (found : program.node? top = some node)
    (subtrees : program.Subtrees start node.kind.children top)
    (known : ∀ child ∈ node.kind.children, program.parent? child = some top) :
    program.Subtree start top where
  ordered := subtrees.start_le_stop
  children := by
    intro id least greatest
    rcases Nat.eq_or_lt_of_le greatest with rfl | less
    · refine ⟨node, found, subtrees.nodup, fun child member => ?_⟩
      obtain ⟨leastChild, before⟩ := subtrees.lt_of_mem member
      exact ⟨leastChild, before, known child member⟩
    · obtain ⟨first, last, _, subtree, leastFirst, leastHere, inRange⟩ :=
        subtrees.exists_subtree least less
      obtain ⟨inner, innerFound, once, children⟩ := subtree.children id leastHere inRange
      refine ⟨inner, innerFound, once, fun child member => ?_⟩
      obtain ⟨leastChild, rest⟩ := children child member
      exact ⟨Nat.le_trans leastFirst leastChild, rest⟩
  parent := by
    intro id least less
    obtain ⟨first, last, member, subtree, _, leastHere, inRange⟩ :=
      subtrees.exists_subtree least less
    have lastLess := (subtrees.lt_of_mem member).2
    rcases Nat.eq_or_lt_of_le inRange with rfl | inside
    · exact ⟨top, less, Nat.le_refl _, node, found, member⟩
    · obtain ⟨parent, later, notBehind, isChild⟩ := subtree.parent id leastHere inside
      exact ⟨parent, later, by omega, isChild⟩

theorem parent?_of_node?
    {id : NodeId} {node : Node}
    (found : program.node? id = some node) :
    program.parent? id = node.parent? := by
  rw [parent?, found]
  rfl

/-- A leaf is a subtree of its own. -/
theorem subtree_of_leaf
    {id : Nat} {node : Node}
    (found : program.node? id = some node)
    (childless : node.kind.children = []) :
    program.Subtree id id :=
  subtree_of_subtrees found (childless ▸ .nil id) (by simp [childless])

variable {tag : Tree.Tagging} {start : Nat} {parent? : Option NodeId}

/-- The last node of the layout of a tree is its top. -/
theorem node?_of_layout
    {tree : Tree}
    (holds : program.Holds start (tree.layout tag start parent?)) :
    program.node? (start + tree.descendants) = some (tree.node tag start parent?) := by
  rw [Tree.layout, holds_append, holds_singleton, Tree.length_lower] at holds
  exact holds.2

/-- The nodes of a tree are a subtree. -/
theorem subtree_of_layout
    {tree : Tree}
    (holds : program.Holds start (tree.layout tag start parent?)) :
    program.Subtree start (start + tree.descendants) := by
  have top := node?_of_layout holds
  induction tree generalizing start parent? with
  | leaf content position => exact subtree_of_leaf top rfl
  | unary operator position operand inductionHypothesis =>
      rw [Tree.layout_unary, holds_append] at holds
      have operandTop := node?_of_layout holds.1
      refine subtree_of_subtrees top (.cons (inductionHypothesis holds.1 operandTop) (.nil _)) ?_
      exact List.forall_mem_singleton.mpr (parent?_of_node? operandTop)
  | binary operator position left right leftHypothesis rightHypothesis =>
      rw [Tree.layout_binary, holds_append, holds_append, Tree.length_layout] at holds
      obtain ⟨⟨leftHolds, rightHolds⟩, _⟩ := holds
      have leftTop := node?_of_layout leftHolds
      have rightTop := node?_of_layout rightHolds
      have place : start + (Tree.binary operator position left right).descendants =
          start + left.descendants + 1 + right.descendants + 1 := by
        rw [Tree.descendants_binary]
        omega
      rw [place] at top ⊢
      refine subtree_of_subtrees top
        (.cons (leftHypothesis leftHolds leftTop)
          (.cons (rightHypothesis rightHolds rightTop) (.nil _))) ?_
      refine List.forall_mem_cons.mpr ⟨parent?_of_node? leftTop, ?_⟩
      exact List.forall_mem_singleton.mpr (parent?_of_node? rightTop)

/-- Every node of a tree is the top of one of its parts. -/
theorem exists_part_of_layout
    {tree : Tree} {id : Nat}
    (holds : program.Holds start (tree.layout tag start parent?))
    (least : start ≤ id)
    (greatest : id ≤ start + tree.descendants) :
    ∃ (part : Tree) (first : Nat) (above? : Option NodeId), part.Part tree ∧
      program.Holds first (part.layout tag first above?) ∧ id = first + part.descendants := by
  rcases Nat.eq_or_lt_of_le greatest with rfl | below
  · exact ⟨tree, start, parent?, .whole, holds, rfl⟩
  · induction tree generalizing start parent? with
    | leaf content position =>
        rw [Tree.descendants_leaf] at below
        omega
    | unary operator position operand inductionHypothesis =>
        rw [Tree.layout_unary, holds_append] at holds
        rw [Tree.descendants_unary] at below
        rcases Nat.eq_or_lt_of_le (Nat.le_of_lt_succ below) with rfl | inside
        · exact ⟨operand, start, _, .operand operator position .whole, holds.1, rfl⟩
        · obtain ⟨part, first, above?, isPart, rest⟩ :=
            inductionHypothesis holds.1 least (Nat.le_of_lt inside) inside
          exact ⟨part, first, above?, .operand operator position isPart, rest⟩
    | binary operator position left right leftHypothesis rightHypothesis =>
        rw [Tree.layout_binary, holds_append, holds_append, Tree.length_layout] at holds
        obtain ⟨⟨leftHolds, rightHolds⟩, _⟩ := holds
        rw [Tree.descendants_binary] at below
        rcases Nat.lt_trichotomy id (start + left.descendants) with inLeft | rfl | behindLeft
        · obtain ⟨part, first, above?, isPart, rest⟩ :=
            leftHypothesis leftHolds least (Nat.le_of_lt inLeft) inLeft
          exact ⟨part, first, above?, .left operator position right isPart, rest⟩
        · exact ⟨left, start, _, .left operator position right .whole, leftHolds, rfl⟩
        · have inRight : id ≤ start + left.descendants + 1 + right.descendants := by omega
          rcases Nat.eq_or_lt_of_le inRight with rfl | inside
          · exact ⟨right, _, _, .right operator position left .whole, rightHolds, rfl⟩
          · obtain ⟨part, first, above?, isPart, rest⟩ :=
              rightHypothesis rightHolds behindLeft inRight inside
            exact ⟨part, first, above?, .right operator position left isPart, rest⟩

theorem node?_of_expressionLayout
    {tree : Tree}
    (holds : program.Holds start (tree.expressionLayout tag start parent?)) :
    program.node? (start + tree.expressionDescendants) =
      some (tree.expressionNode tag start parent?) := by
  rw [Tree.expressionLayout, holds_append, holds_singleton, Tree.length_expressionLower] at holds
  exact holds.2

/-- The nodes of a whole expression are a subtree. -/
theorem subtree_of_expressionLayout
    {tree : Tree}
    (holds : program.Holds start (tree.expressionLayout tag start parent?)) :
    program.Subtree start (start + tree.expressionDescendants) := by
  cases tree with
  | unary operator position operand => exact subtree_of_layout holds
  | binary operator position left right => exact subtree_of_layout holds
  | leaf content position =>
      have top := node?_of_expressionLayout holds
      change program.Holds start ([_] ++ [_]) at holds
      rw [holds_append, holds_singleton] at holds
      refine subtree_of_subtrees top (.cons (subtree_of_leaf holds.1 rfl) (.nil _)) ?_
      exact List.forall_mem_singleton.mpr (parent?_of_node? holds.1)

/-- Every node of a whole expression is the top of one of its parts, or the node that a bare
leaf is wrapped in. -/
theorem exists_part_of_expressionLayout
    {tree : Tree} {id : Nat}
    (holds : program.Holds start (tree.expressionLayout tag start parent?))
    (least : start ≤ id)
    (greatest : id ≤ start + tree.expressionDescendants) :
    (∃ (part : Tree) (first : Nat) (above? : Option NodeId), part.Part tree ∧
      program.Holds first (part.layout tag first above?) ∧ id = first + part.descendants) ∨
    ∃ (content : Leaf) (position : Source.Position), tree = .leaf content position ∧
      id = start + 1 := by
  cases tree with
  | unary operator position operand => exact .inl (exists_part_of_layout holds least greatest)
  | binary operator position left right =>
      exact .inl (exists_part_of_layout holds least greatest)
  | leaf content position =>
      change program.Holds start ((Tree.leaf content position).layout tag start _ ++ [_]) at holds
      rw [holds_append] at holds
      rcases Nat.eq_or_lt_of_le least with rfl | behind
      · exact .inl ⟨_, start, _, .whole, holds.1, rfl⟩
      · exact .inr ⟨content, position, rfl, Nat.le_antisymm greatest behind⟩

/-- Every node of a statement is its top, one of its leaves, or a node of its expression. -/
theorem node_of_statement
    {statement : StatementTree} {id : Nat}
    (holds : program.Holds start (statement.layout tag start parent?))
    (least : start ≤ id)
    (greatest : id ≤ start + statement.descendants) :
    id = start + statement.descendants ∨
    (∃ leaf ∈ statement.leaves, program.node? id =
      some (leaf.node (some (start + statement.descendants)))) ∨
    ∃ tree, statement.expression? = some tree ∧
      program.Holds (start + statement.leaves.length)
        (tree.expressionLayout tag (start + statement.leaves.length)
          (some (start + statement.descendants))) ∧
      start + statement.leaves.length ≤ id ∧ id ≤ statement.expressionTop start tree := by
  obtain ⟨leavesHold, expressionHolds, _⟩ := holds_statement holds
  rcases Nat.eq_or_lt_of_le greatest with isTop | below
  · exact .inl isTop
  · rcases Nat.lt_or_ge id (start + statement.leaves.length) with inLeaves | behindLeaves
    · obtain ⟨index, rfl⟩ := Nat.exists_eq_add_of_le least
      have inRange := Nat.lt_of_add_lt_add_left inLeaves
      have found := leavesHold index (by rw [List.length_map]; exact inRange)
      rw [List.getElem?_map, List.getElem?_eq_getElem inRange] at found
      exact .inr (.inl ⟨_, List.getElem_mem inRange, found⟩)
    · unfold StatementTree.descendants at below
      cases isExpression : statement.expression? with
      | none =>
          rw [isExpression, StatementTree.expressionSize] at below
          omega
      | some tree =>
          rw [isExpression] at expressionHolds below
          rw [StatementTree.expressionSize] at below
          refine .inr (.inr ⟨tree, rfl, expressionHolds, behindLeaves, ?_⟩)
          rw [StatementTree.expressionTop]
          omega

/-- Leaves in front of subtrees are subtrees of their own. -/
theorem subtrees_of_leaves
    {leaves : List LeafAt} {others : List NodeId} {stop : Nat}
    (holds : program.Holds start (leaves.map (LeafAt.node parent?)))
    (subtrees : program.Subtrees (start + leaves.length) others stop) :
    program.Subtrees start (List.range' start leaves.length ++ others) stop ∧
      ∀ id ∈ List.range' start leaves.length, program.parent? id = parent? := by
  induction leaves generalizing start with
  | nil => exact ⟨subtrees, nofun⟩
  | cons first rest inductionHypothesis =>
      rw [List.map_cons, ← List.singleton_append, holds_append, holds_singleton] at holds
      obtain ⟨firstFound, restHolds⟩ := holds
      rw [List.length_cons, Nat.add_comm rest.length, ← Nat.add_assoc] at subtrees
      obtain ⟨restSubtrees, restKnown⟩ := inductionHypothesis restHolds subtrees
      rw [List.length_cons, List.range'_succ]
      exact ⟨.cons (subtree_of_leaf firstFound rfl) restSubtrees,
        List.forall_mem_cons.mpr ⟨parent?_of_node? firstFound, restKnown⟩⟩

/-- The nodes of a statement are a subtree. -/
theorem subtree_of_statement
    {statement : StatementTree}
    (holds : program.Holds start (statement.layout tag start parent?)) :
    program.Subtree start (start + statement.descendants) := by
  obtain ⟨leavesHold, expressionHolds, top⟩ := holds_statement holds
  have children : (statement.node start parent?).kind.children =
      List.range' start statement.leaves.length ++
        (statement.expression?.map (statement.expressionTop start)).toList :=
    statement.children_form start
  have size : statement.descendants = statement.leaves.length +
      StatementTree.expressionSize statement.expression? := rfl
  cases expression : statement.expression? with
  | none =>
      rw [expression, Option.map_none, Option.toList_none] at children
      have stop : start + statement.descendants = start + statement.leaves.length := by
        rw [size, expression]
        rfl
      obtain ⟨subtrees, known⟩ := subtrees_of_leaves leavesHold (.nil _)
      rw [stop] at top known ⊢
      rw [List.append_nil] at children subtrees
      exact subtree_of_subtrees top (children ▸ subtrees) (children ▸ known)
  | some tree =>
      rw [expression, Option.map_some, Option.toList_some] at children
      rw [expression] at expressionHolds
      have stop : start + statement.descendants =
          statement.expressionTop start tree + 1 := by
        rw [size, expression, StatementTree.expressionSize, StatementTree.expressionTop]
        omega
      obtain ⟨subtrees, known⟩ := subtrees_of_leaves leavesHold
        (.cons (subtree_of_expressionLayout expressionHolds) (.nil _))
      have expressionKnown := parent?_of_node? (node?_of_expressionLayout expressionHolds)
      rw [stop] at top known expressionKnown ⊢
      refine subtree_of_subtrees top (children ▸ subtrees) ?_
      rw [children]
      exact List.forall_mem_append.mpr
        ⟨known, List.forall_mem_singleton.mpr expressionKnown⟩

/-- The statements of a program are subtrees that follow each other, and know the outermost
code block as their parent. -/
theorem subtrees_of_layouts
    {statements : List Tagged}
    (holds : program.Holds start (Tagged.layouts start statements)) :
    program.Subtrees start (Tagged.tops start statements)
        (start + Tagged.extent statements) ∧
      ∀ id ∈ Tagged.tops start statements, program.parent? id = some 0 := by
  induction statements generalizing start with
  | nil => exact ⟨.nil start, nofun⟩
  | cons first rest inductionHypothesis =>
      rw [Tagged.layouts, holds_append, StatementTree.length_layout] at holds
      obtain ⟨firstHolds, restHolds⟩ := holds
      obtain ⟨subtrees, known⟩ := inductionHypothesis restHolds
      rw [Nat.add_assoc start (first.statement.descendants + 1)] at subtrees
      refine ⟨.cons (subtree_of_statement firstHolds) subtrees, ?_⟩
      exact List.forall_mem_cons.mpr
        ⟨parent?_of_node? (holds_statement firstHolds).2.2, known⟩

/-- Every node behind the frame belongs to one of the statements. -/
theorem exists_statement_of_lt
    {statements : List Tagged} {id : Nat}
    (holds : program.Holds start (Tagged.layouts start statements))
    (least : start ≤ id)
    (less : id < start + Tagged.extent statements) :
    ∃ (index : Nat) (tagged : Tagged) (first : Nat), statements[index]? = some tagged ∧
      (Tagged.tops start statements)[index]? =
        some (first + tagged.statement.descendants) ∧
      program.Holds first (tagged.statement.layout tagged.tag first (some 0)) ∧
      first ≤ id ∧ id ≤ first + tagged.statement.descendants := by
  induction statements generalizing start with
  | nil =>
      simp only [Tagged.extent] at less
      omega
  | cons first rest inductionHypothesis =>
      rw [Tagged.layouts, holds_append, StatementTree.length_layout] at holds
      obtain ⟨firstHolds, restHolds⟩ := holds
      rw [Tagged.extent] at less
      rcases Nat.lt_or_ge (start + first.statement.descendants) id with behind | inFirst
      · obtain ⟨index, tagged, place, isStatement, isTop, rest⟩ :=
          inductionHypothesis restHolds behind (by omega)
        exact ⟨index + 1, tagged, place, isStatement, isTop, rest⟩
      · exact ⟨0, first, start, rfl, rfl, firstHolds, least, inFirst⟩

end

end Program
end ScriptLang
