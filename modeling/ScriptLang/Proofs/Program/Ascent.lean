import ScriptLang.Proofs.Program.Assembly
import ScriptLang.Proofs.Program.Chain

/-!
# Walks to the outermost code block

In the program of a list of statements every chain of parents leads to the
outermost code block, with numbers that only rise up to the statement.  A walk
therefore never runs out of steps, and every name is looked up in the one symbol
table that there is.
-/

namespace ScriptLang
namespace Program

open Source (Position)

/-- A list of nodes stands in a program from a number on. -/
def Holds (program : Program) (start : Nat) (nodes : List Node) : Prop :=
  ∀ index < nodes.length, program.node? (start + index) = nodes[index]?

theorem holds_append (program : Program) (start : Nat) (first second : List Node) :
    program.Holds start (first ++ second) ↔
      program.Holds start first ∧ program.Holds (start + first.length) second := by
  constructor
  · intro holds
    constructor
    · intro index inRange
      rw [holds index (by simp; omega), List.getElem?_append_left inRange]
    · intro index inRange
      rw [Nat.add_assoc, holds (first.length + index) (by simp; omega),
        List.getElem?_append_right (by omega), Nat.add_sub_cancel_left]
  · rintro ⟨firstHolds, secondHolds⟩ index inRange
    rw [List.length_append] at inRange
    rcases Nat.lt_or_ge index first.length with inFirst | behindFirst
    · rw [List.getElem?_append_left inFirst, firstHolds index inFirst]
    · rw [List.getElem?_append_right behindFirst]
      have same : start + first.length + (index - first.length) = start + index := by omega
      have moved := secondHolds (index - first.length) (by omega)
      rw [same] at moved
      exact moved

theorem holds_singleton (program : Program) (start : Nat) (node : Node) :
    program.Holds start [node] ↔ program.node? start = some node := by
  constructor
  · intro holds
    exact holds 0 (by simp)
  · intro found index inRange
    have isZero : index = 0 := by simp at inRange; exact inRange
    subst isZero
    exact found

theorem holds_extend (program : Program) (nodes : List Node) :
    (program.extend nodes).Holds program.size nodes :=
  fun index _ => node?_extend_add program nodes index

/-- A list in the middle of the nodes behind a program. -/
theorem holds_extend_append
    (program : Program) (before nodes after : List Node) (start : Nat)
    (starts : start = program.size + before.length) :
    (program.extend (before ++ nodes ++ after)).Holds start nodes := by
  have whole := holds_extend program (before ++ nodes ++ after)
  rw [holds_append, holds_append] at whole
  rw [starts]
  exact whole.1.2

/-- From a node every walk comes to the code block zero with a given symbol table, and sees no
other code block. -/
def Ascends (program : Program) (symbols : SymbolTable) (id : NodeId) : Prop :=
  ∀ (α : Type) (pick : NodeId -> SymbolTable -> Option α) (steps : Nat),
    program.size + 2 ≤ steps + id ->
    program.climb (picking pick) steps id = .ok (pick 0 symbols)

theorem lt_of_node?
    {program : Program} {id : Nat} {node : Node}
    (found : program.node? id = some node) :
    id < program.size :=
  (Array.getElem?_eq_some_iff.mp found).1

/-- A walk goes on from a node without symbols to its parent. -/
theorem climb_of_parent
    {α : Type} {program : Program} {id : Nat} {node : Node} {parent : NodeId}
    (pick : NodeId -> SymbolTable -> Option α) (steps : Nat)
    (found : program.node? id = some node)
    (noSymbols : node.kind.symbols? = none)
    (parentIs : node.parent? = some parent) :
    program.climb (picking pick) (steps + 1) id = program.climb (picking pick) steps parent := by
  have picksNothing : picking pick id node = none := by
    rw [picking, noSymbols]
    rfl
  simp only [climb, Program.node, found, ok_bind, picksNothing, parentIs]

/-- A node ascends if its parent does, which has a greater number. -/
theorem ascends_of_parent
    {program : Program} {symbols : SymbolTable} {id parent : Nat} {node : Node}
    (found : program.node? id = some node)
    (noSymbols : node.kind.symbols? = none)
    (parentIs : node.parent? = some parent)
    (greater : id < parent)
    (ascends : program.Ascends symbols parent) :
    program.Ascends symbols id := by
  intro α pick steps enough
  have inRange := lt_of_node? found
  obtain ⟨fewer, rfl⟩ : ∃ fewer, steps = fewer + 1 := ⟨steps - 1, by omega⟩
  rw [climb_of_parent pick fewer found noSymbols parentIs]
  exact ascends α pick fewer (by omega)

/-- A statement of the outermost code block ascends. -/
theorem ascends_of_frame
    {position : Position} {statements : List NodeId} {symbols : SymbolTable}
    {nodes : List Node} {id : Nat} {node : Node}
    (found : ((frame position statements symbols).extend nodes).node? id = some node)
    (noSymbols : node.kind.symbols? = none)
    (parentIs : node.parent? = some 0) :
    ((frame position statements symbols).extend nodes).Ascends symbols id := by
  intro α pick steps enough
  have inRange := lt_of_node? found
  obtain ⟨fewer, rfl⟩ : ∃ fewer, steps = fewer + 2 + 1 := ⟨steps - 3, by omega⟩
  rw [climb_of_parent pick (fewer + 2) found noSymbols parentIs]
  have block := node?_frame_zero position statements symbols nodes
  have root : ((frame position statements symbols).extend nodes).node? 1 =
      some ⟨.program 0, position, none⟩ := by
    rw [node?_extend_of_lt nodes (Nat.lt_succ_self 1)]
    rfl
  have atRoot : ((frame position statements symbols).extend nodes).climb (picking pick)
      (fewer + 1) 1 = .ok none := by
    rw [climb, Program.node, root]
    rfl
  rw [climb, Program.node, block]
  simp only [ok_bind, picking, NodeKind.symbols?, Option.bind_some]
  cases pick 0 symbols with
  | some result => rfl
  | none => exact atRoot

/-- All nodes of a tree ascend if its parent does. -/
theorem ascends_of_layout
    {program : Program} {symbols : SymbolTable} {tag : Tree.Tagging} {tree : Tree}
    {start parent : Nat}
    (holds : program.Holds start (tree.layout tag start (some parent)))
    (below : start + tree.descendants < parent)
    (ascends : program.Ascends symbols parent) :
    ∀ id, start ≤ id -> id ≤ start + tree.descendants -> program.Ascends symbols id := by
  induction tree generalizing start parent with
  | leaf content position =>
      intro id least greatest
      have isStart : id = start := Nat.le_antisymm greatest least
      subst isStart
      exact ascends_of_parent ((holds_singleton ..).mp holds) rfl rfl below ascends
  | unary operator position operand inductionHypothesis =>
      rw [Tree.layout_unary, holds_append, holds_singleton, Tree.length_layout] at holds
      obtain ⟨operandHolds, topFound⟩ := holds
      have top := ascends_of_parent topFound rfl rfl (by simpa using below) ascends
      intro id least greatest
      simp only [Tree.descendants_unary] at greatest
      by_cases isTop : id = start + operand.descendants + 1
      · subst isTop
        exact top
      · exact inductionHypothesis operandHolds (by omega) top id least (by omega)
  | binary operator position left right leftHypothesis rightHypothesis =>
      rw [Tree.layout_binary, holds_append, holds_append, holds_singleton, List.length_append,
        Tree.length_layout, Tree.length_layout] at holds
      obtain ⟨⟨leftHolds, rightHolds⟩, topFound⟩ := holds
      simp only [Tree.descendants_binary] at below
      have same : start + (left.descendants + 1 + (right.descendants + 1)) =
          start + left.descendants + 1 + right.descendants + 1 := by omega
      rw [same] at topFound
      have top := ascends_of_parent topFound rfl rfl (by omega) ascends
      intro id least greatest
      simp only [Tree.descendants_binary] at greatest
      by_cases isTop : id = start + left.descendants + 1 + right.descendants + 1
      · subst isTop
        exact top
      · by_cases inLeft : id ≤ start + left.descendants
        · exact leftHypothesis leftHolds (by omega) top id least inLeft
        · exact rightHypothesis rightHolds (by omega) top id (by omega) (by omega)

/-- All nodes of a whole expression ascend if its parent does. -/
theorem ascends_of_expressionLayout
    {program : Program} {symbols : SymbolTable} {tag : Tree.Tagging} {tree : Tree}
    {start parent : Nat}
    (holds : program.Holds start (tree.expressionLayout tag start (some parent)))
    (below : start + tree.expressionDescendants < parent)
    (ascends : program.Ascends symbols parent) :
    ∀ id, start ≤ id -> id ≤ start + tree.expressionDescendants ->
      program.Ascends symbols id := by
  cases tree with
  | unary operator position operand => exact ascends_of_layout holds below ascends
  | binary operator position left right => exact ascends_of_layout holds below ascends
  | leaf content position =>
      change program.Holds start ([_] ++ [_]) at holds
      rw [holds_append, holds_singleton, holds_singleton] at holds
      obtain ⟨leafFound, topFound⟩ := holds
      have top : program.Ascends symbols (start + 1) :=
        ascends_of_parent topFound rfl rfl below ascends
      intro id least greatest
      change id ≤ start + 1 at greatest
      by_cases isTop : id = start + 1
      · subst isTop
        exact top
      · have isStart : id = start := by omega
        subst isStart
        exact ascends_of_parent leafFound rfl rfl (Nat.lt_succ_self id) top

/-- The parts of a statement that stands in a program, and the statement itself. -/
theorem holds_statement
    {program : Program} {tag : Tree.Tagging} {statement : StatementTree} {start : Nat}
    {parent? : Option NodeId}
    (holds : program.Holds start (statement.layout tag start parent?)) :
    program.Holds start
        (statement.leaves.map (LeafAt.node (some (start + statement.descendants)))) ∧
      program.Holds (start + statement.leaves.length)
        (StatementTree.expressionNodes tag (start + statement.leaves.length)
          (some (start + statement.descendants)) statement.expression?) ∧
      program.node? (start + statement.descendants) = some (statement.node start parent?) := by
  rw [StatementTree.layout, holds_append, holds_singleton, StatementTree.length_lower,
    StatementTree.lower, StatementTree.parts, holds_append, List.length_map] at holds
  exact ⟨holds.1.1, holds.1.2, holds.2⟩

/-- The statements of a program are where their last nodes are. -/
theorem getElem?_tops
    {program : Program} {statements : List Tagged} {start : Nat}
    (holds : program.Holds start (Tagged.layouts start statements))
    (index : Nat) :
    ((Tagged.tops start statements)[index]? = none ∧ statements[index]? = none) ∨
      ∃ (tagged : Tagged) (first : Nat), statements[index]? = some tagged ∧
        (Tagged.tops start statements)[index]? = some (first + tagged.statement.descendants) ∧
        program.Holds first (tagged.statement.layout tagged.tag first (some 0)) := by
  induction statements generalizing start index with
  | nil => exact .inl ⟨rfl, rfl⟩
  | cons first rest inductionHypothesis =>
      rw [Tagged.layouts, holds_append, StatementTree.length_layout] at holds
      cases index with
      | zero => exact .inr ⟨first, start, rfl, rfl, holds.1⟩
      | succ index => exact inductionHypothesis holds.2 index

/-- The statement at a place of a program. -/
theorem exists_of_getElem?_tops
    {program : Program} {statements : List Tagged} {start index : Nat} {id : NodeId}
    (holds : program.Holds start (Tagged.layouts start statements))
    (found : (Tagged.tops start statements)[index]? = some id) :
    ∃ (tagged : Tagged) (first : Nat), statements[index]? = some tagged ∧
      id = first + tagged.statement.descendants ∧
      program.Holds first (tagged.statement.layout tagged.tag first (some 0)) := by
  rcases getElem?_tops holds index with ⟨missing, _⟩ | ⟨tagged, first, isTree, isTop, here⟩
  · rw [missing] at found
    cases found
  · rw [isTop] at found
    cases found
    exact ⟨tagged, first, isTree, rfl, here⟩

/-- What every statement is seen as, seen at its place. -/
theorem bind_getElem?_tops
    {β : Type} {program : Program} {statements : List Tagged} {start : Nat}
    {view : NodeId -> Option β} {reading : Tagged -> Option β}
    (holds : program.Holds start (Tagged.layouts start statements))
    (seen : ∀ tagged first,
      program.Holds first (tagged.statement.layout tagged.tag first (some 0)) ->
        view (first + tagged.statement.descendants) = reading tagged)
    (index : Nat) :
    (Tagged.tops start statements)[index]?.bind view = statements[index]?.bind reading := by
  rcases getElem?_tops holds index with ⟨missing, isMissing⟩ | ⟨tagged, first, isTree, isTop, here⟩
  · rw [missing, isMissing]
    rfl
  · rw [isTree, isTop]
    exact seen tagged first here

/-- All nodes of a statement of the outermost code block ascend. -/
theorem ascends_of_statement
    {position : Position} {ids : List NodeId} {symbols : SymbolTable} {nodes : List Node}
    {tag : Tree.Tagging} {statement : StatementTree} {start : Nat}
    (holds : ((frame position ids symbols).extend nodes).Holds start
      (statement.layout tag start (some 0))) :
    ∀ id, start ≤ id -> id ≤ start + statement.descendants ->
      ((frame position ids symbols).extend nodes).Ascends symbols id := by
  obtain ⟨leavesHold, expressionHolds, topFound⟩ := holds_statement holds
  have top := ascends_of_frame topFound rfl rfl
  intro id least greatest
  unfold StatementTree.descendants at *
  by_cases isTop :
      id = start + (statement.leaves.length +
        StatementTree.expressionSize statement.expression?)
  · subst isTop
    exact top
  · by_cases isLeaf : id < start + statement.leaves.length
    · have found := leavesHold (id - start) (by simp; omega)
      rw [Nat.add_sub_cancel' least, List.getElem?_map,
        List.getElem?_eq_getElem (by omega : id - start < statement.leaves.length)] at found
      exact ascends_of_parent found rfl rfl (by omega) top
    · cases expression : statement.expression? with
      | none =>
          rw [expression] at greatest isTop
          simp only [StatementTree.expressionSize] at greatest isTop
          omega
      | some tree =>
          have size : StatementTree.expressionSize (some tree) =
              tree.expressionDescendants + 1 := rfl
          rw [expression] at greatest isTop expressionHolds top
          exact ascends_of_expressionLayout expressionHolds (by omega) top id (by omega) (by omega)

section

variable {program : Program} {symbols : SymbolTable} {id : Nat}

/-- The nearest scope of a node that ascends is the outermost code block. -/
theorem nearestScope_of_ascends
    (ascends : program.Ascends symbols id)
    (notZero : 0 < id) :
    program.nearestScope id = .ok (some 0) := by
  rw [nearestScope_eq_firstAbove]
  exact ascends NodeId (fun id _ => some id) (program.size + 1) (by omega)

/-- The innermost scope around a node that ascends is the outermost code block. -/
theorem enclosingScope_of_ascends
    (ascends : program.Ascends symbols id)
    (notZero : 0 < id) :
    program.enclosingScope id = .ok 0 := by
  rw [enclosingScope, nearestScope_of_ascends ascends notZero]
  rfl

/-- A node that ascends has a chain, since a walk that looks for nothing ends. -/
theorem exists_chain_of_ascends (ascends : program.Ascends symbols id) :
    ∃ chain, program.Chain id chain := by
  have climbed := ascends Unit (fun _ _ => none) (program.size + 2) (Nat.le_add_right _ _)
  refine exists_chain_of_climb (fun id node => ?_) climbed
  rw [picking]
  cases node.kind.symbols? <;> rfl

/-- A name that is used at a node that ascends is looked up in the symbol table. -/
theorem resolve_of_ascends
    (ascends : program.Ascends symbols id)
    (notZero : 0 < id)
    (name : String) (position : Position) :
    program.resolve id name position =
      match symbols.get? name with
      | some symbol => .ok (0, symbol)
      | none => .error (.report ⟨.undeclared name, position⟩) := by
  have climbed := ascends (NodeId × Symbol) (pickSymbol name) (program.size + 1) (by omega)
  obtain ⟨chain, isChain⟩ := exists_chain_of_ascends ascends
  rw [resolve, lookup?_eq_firstAbove name isChain, enclosingScope_of_ascends ascends notZero,
    ok_bind, firstAbove, climbed, pickSymbol]
  cases symbols.get? name <;> rfl

end

/-- What a walk sees of a node. -/
def outlook (node : Node) : Option SymbolTable × Option NodeId :=
  (node.kind.symbols?, node.parent?)

/-- Where two programs look the same, a node is missing in both or looks the same in both. -/
theorem node_of_map_outlook_eq
    {first second : Program} {id : NodeId}
    (same : (first.node? id).map outlook = (second.node? id).map outlook) :
    (first.node id = .error (.missingNode id) ∧ second.node id = .error (.missingNode id)) ∨
      ∃ node other, first.node id = .ok node ∧ second.node id = .ok other ∧
        node.kind.symbols? = other.kind.symbols? ∧ node.parent? = other.parent? := by
  rw [Program.node, Program.node]
  cases firstFound : first.node? id with
  | none =>
      rw [firstFound] at same
      rw [Option.map_eq_none_iff.mp same.symm]
      exact .inl ⟨rfl, rfl⟩
  | some node =>
      rw [firstFound] at same
      obtain ⟨other, secondFound, isSame⟩ := Option.map_eq_some_iff.mp same.symm
      obtain ⟨sameSymbols, sameParent⟩ := Prod.mk.inj isSame
      rw [secondFound]
      exact .inr ⟨node, other, rfl, rfl, sameSymbols.symm, sameParent.symm⟩

section

variable {first second : Program}
  (same : ∀ id, (first.node? id).map outlook = (second.node? id).map outlook)

include same

/-- A walk depends only on what it can see. -/
theorem climb_congr
    {α : Type} (pick : NodeId -> SymbolTable -> Option α) (steps : Nat) (id : NodeId) :
    first.climb (picking pick) steps id = second.climb (picking pick) steps id := by
  induction steps generalizing id with
  | zero => rfl
  | succ steps inductionHypothesis =>
      obtain ⟨isMissing, alsoMissing⟩ | ⟨node, other, isNode, isOther, sameSymbols, sameParent⟩ :=
        node_of_map_outlook_eq (same id)
      · rw [climb, climb, isMissing, alsoMissing]
        rfl
      · simp only [climb, isNode, isOther, ok_bind, picking, sameSymbols, sameParent,
          inductionHypothesis]

/-- So does the lookup of a name. -/
theorem lookupFrom_congr
    (sameScope : ∀ id, first.nearestScope id = second.nearestScope id)
    (name : String) (steps : Nat) (id : NodeId) :
    first.lookupFrom name steps id = second.lookupFrom name steps id := by
  induction steps generalizing id with
  | zero => rfl
  | succ steps inductionHypothesis =>
      obtain ⟨isMissing, alsoMissing⟩ | ⟨node, other, isNode, isOther, sameSymbols, sameParent⟩ :=
        node_of_map_outlook_eq (same id)
      · rw [lookupFrom, lookupFrom, isMissing, alsoMissing]
        rfl
      · simp only [lookupFrom, isNode, isOther, ok_bind, sameSymbols, sameParent, sameScope,
          inductionHypothesis]

end

/-- Nodes that look the same ascend in the same way. -/
theorem Ascends.congr
    {program : Program} {symbols : SymbolTable} {first second : List Node} {id : NodeId}
    (same : first.map outlook = second.map outlook)
    (ascends : (program.extend first).Ascends symbols id) :
    (program.extend second).Ascends symbols id := by
  have sameLength : first.length = second.length := by
    have lengths := congrArg List.length same
    rwa [List.length_map, List.length_map] at lengths
  have sameNodes : ∀ id, ((program.extend first).node? id).map outlook =
      ((program.extend second).node? id).map outlook := by
    intro id
    rcases Nat.lt_or_ge id program.size with inRange | behind
    · rw [node?_extend_of_lt first inRange, node?_extend_of_lt second inRange]
    · obtain ⟨index, rfl⟩ := Nat.exists_eq_add_of_le behind
      rw [node?_extend_add, node?_extend_add, ← List.getElem?_map, ← List.getElem?_map, same]
  intro α pick steps enough
  rw [← climb_congr sameNodes]
  refine ascends α pick steps ?_
  rw [size_extend] at enough ⊢
  rw [sameLength]
  exact enough

end Program
end ScriptLang
