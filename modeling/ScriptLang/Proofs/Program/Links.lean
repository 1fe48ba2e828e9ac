import Mathlib.Logic.Relation
import Mathlib.Order.RelClasses
import ScriptLang.Proofs.Fault.Sorts
import ScriptLang.Proofs.Program.Bare
import ScriptLang.Proofs.Program.Shape

/-!
# Links

The links of a node lead to its children and to its parent.  When all links of a
program lead to nodes of the program, and no walk along them comes back, every walk
ends before its steps run out, whatever else the program looks like: code blocks may
be nested, and nodes may have several parents or parts that their forms do not call
for.
-/

namespace ScriptLang

open Source (Position)

/-- The nodes that a walk has passed on its way to a node. -/
structure Trail
    (step : NodeId -> NodeId -> Prop)
    (size : Nat)
    (passed : List NodeId)
    (id : NodeId) : Prop where
  once : passed.Nodup
  inRange : ∀ former ∈ passed, former < size
  leads : ∀ former ∈ passed, Relation.TransGen step former id

namespace Trail

variable {step : NodeId -> NodeId -> Prop} {size : Nat} {passed : List NodeId} {id next : NodeId}

theorem start (id : NodeId) : Trail step size [] id :=
  ⟨.nil, List.forall_mem_nil _, List.forall_mem_nil _⟩

/-- A walk that does not come back passes new nodes only. -/
theorem extend
    (walk : WellFounded fun next id => step id next)
    (trail : Trail step size passed id)
    (inRange : id < size)
    (isStep : step id next) :
    Trail step size (id :: passed) next where
  once := by
    refine List.nodup_cons.mpr ⟨fun again => ?_, trail.once⟩
    have back := Relation.transGen_swap.mpr (trail.leads id again)
    exact walk.transGen.asymmetric id id back back
  inRange := List.forall_mem_cons.mpr ⟨inRange, trail.inRange⟩
  leads := by
    refine List.forall_mem_cons.mpr ⟨.single isStep, fun former member => ?_⟩
    exact (trail.leads former member).tail isStep

/-- A walk passes at most all nodes. -/
theorem length_le (trail : Trail step size passed id) : passed.length ≤ size :=
  Program.length_le_of_nodup trail.once trail.inRange

end Trail

namespace Program

/-- All parents are nodes of the program, and a walk from parent to parent ends. -/
structure Climbable (program : Program) : Prop where
  parentInRange : ∀ id parent : Nat, program.parent? id = some parent -> parent < program.size
  parentWalk : WellFounded fun parent child => program.parent? child = some parent

/-- All links lead to nodes of the program, and walks along them end. -/
structure WellLinked (program : Program) : Prop where
  childInRange : ∀ parent child : Nat, program.Child parent child -> child < program.size
  parentInRange : ∀ id parent : Nat, program.parent? id = some parent -> parent < program.size
  childWalk : WellFounded fun child parent => program.Child parent child
  parentWalk : WellFounded fun parent child => program.parent? child = some parent

variable {program other : Program}

/-- The links of a tree lead to its nodes, and walks along them end. -/
theorem IsTree.wellLinked (isTree : program.IsTree) : program.WellLinked where
  childInRange := fun parent child isChild => (isTree.closed parent child isChild).1
  parentInRange := by
    intro id parent isParent
    obtain ⟨node, found, _⟩ := Option.bind_eq_some_iff.mp isParent
    have notRoot : id ≠ program.root := by
      obtain ⟨isOne, position, rootFound⟩ := isTree.root
      rintro rfl
      rw [isOne, parent?_of_node? rootFound] at isParent
      cases isParent
    obtain ⟨known, parentNode, isKnown, parentFound, _⟩ :=
      isTree.named id (lt_of_node? found) notRoot
    obtain rfl := Option.some.inj (isParent.symm.trans isKnown)
    exact lt_of_node? parentFound
  childWalk := isTree.childWalk
  parentWalk := isTree.parentWalk

/-- Whether the links of every node lead to nodes that rank below it, its children in one order
and its parent in another one. -/
def ranked (program : Program) (childRank parentRank : List Nat) : Bool :=
  program.nodes.toList.zipIdx.all fun (node, id) =>
    (node.kind.children.all fun child =>
      child < program.size && childRank.getD child 0 < childRank.getD id 0) &&
    (node.parent?.all fun parent =>
      parent < program.size && parentRank.getD parent 0 < parentRank.getD id 0)

/-- Ranks of its nodes show that a program is linked well. -/
theorem wellLinked_of_ranked
    {childRank parentRank : List Nat}
    (falls : program.ranked childRank parentRank = true) :
    program.WellLinked := by
  have atNode : ∀ (id : Nat) (node : Node), program.node? id = some node ->
      (∀ child ∈ node.kind.children,
        child < program.size ∧ childRank.getD child 0 < childRank.getD id 0) ∧
      ∀ parent ∈ node.parent?,
        parent < program.size ∧ parentRank.getD parent 0 < parentRank.getD id 0 := by
    intro id node found
    have member : (node, id) ∈ program.nodes.toList.zipIdx := by
      apply List.mem_zipIdx_iff_getElem?.mpr
      rw [Array.getElem?_toList]
      exact found
    have here := List.all_eq_true.mp falls _ member
    simpa only [Bool.and_eq_true, List.all_eq_true, Option.all_eq_true, decide_eq_true_eq,
      Option.mem_def] using here
  have childFalls : ∀ parent child : Nat, program.Child parent child ->
      child < program.size ∧ childRank.getD child 0 < childRank.getD parent 0 := by
    rintro parent child ⟨node, found, isNamed⟩
    exact (atNode parent node found).1 child isNamed
  have parentFalls : ∀ child parent : Nat, program.parent? child = some parent ->
      parent < program.size ∧ parentRank.getD parent 0 < parentRank.getD child 0 := by
    intro child parent isParent
    obtain ⟨node, found, isKnown⟩ := Option.bind_eq_some_iff.mp isParent
    exact (atNode child node found).2 parent isKnown
  exact {
    childInRange := fun parent child isChild => (childFalls parent child isChild).1
    parentInRange := fun child parent isParent => (parentFalls child parent isParent).1
    childWalk := Subrelation.wf (fun {child parent} isChild => (childFalls parent child isChild).2)
      (measure fun id => childRank.getD id 0).wf
    parentWalk := Subrelation.wf
      (fun {parent child} isParent => (parentFalls child parent isParent).2)
      (measure fun id => parentRank.getD id 0).wf }

/-! ## Programs that are the same apart from types and symbols -/

section

variable (same : other.bare = program.bare)

include same

theorem parent?_of_bare_eq (id : NodeId) : other.parent? id = program.parent? id := by
  have sameParent := map_node?_of_mapNodes_eq same Node.parent? (fun _ => rfl) id
  have atNode : ∀ list : Program, list.parent? id = ((list.node? id).map Node.parent?).join := by
    intro list
    rw [← Option.bind_id_eq_join, Option.bind_map]
    rfl
  rw [atNode, atNode, sameParent]

theorem child_iff_of_bare_eq (parent child : NodeId) :
    other.Child parent child ↔ program.Child parent child := by
  have sameChildren := map_node?_of_mapNodes_eq same (fun node => node.kind.children)
    (fun node => NodeKind.children_bare node.kind) parent
  have childIff : ∀ list : Program, list.Child parent child ↔
      ∃ children, (list.node? parent).map (fun node => node.kind.children) = some children ∧
        child ∈ children := by
    intro list
    simp only [Child, Option.map_eq_some_iff]
    constructor
    · rintro ⟨node, found, isNamed⟩
      exact ⟨_, ⟨node, found, rfl⟩, isNamed⟩
    · rintro ⟨_, ⟨node, found, rfl⟩, isNamed⟩
      exact ⟨node, found, isNamed⟩
  rw [childIff, childIff, sameChildren]

theorem child_eq_of_bare_eq : other.Child = program.Child := by
  funext parent child
  exact propext (child_iff_of_bare_eq same parent child)

theorem under_iff_of_bare_eq (top id : NodeId) : other.Under top id ↔ program.Under top id := by
  unfold Under
  rw [child_eq_of_bare_eq same]

theorem isExpression_iff_of_bare_eq (id : NodeId) :
    other.IsExpression id ↔ program.IsExpression id := by
  have sameSort := map_node?_of_mapNodes_eq same (fun node => node.kind.expression?.isSome)
    (fun node => by
      change node.kind.bare.expression?.isSome = node.kind.expression?.isSome
      cases node.kind <;> rfl)
    id
  have isExpressionIff : ∀ list : Program, list.IsExpression id ↔
      (list.node? id).map (fun node => node.kind.expression?.isSome) = some true := by
    intro list
    simp only [IsExpression, kind?, Option.map_eq_some_iff]
    constructor
    · rintro ⟨expression, node, found, isKind⟩
      exact ⟨node, found, by rw [isKind]; rfl⟩
    · rintro ⟨⟨kind, position, parent?⟩, found, isSome⟩
      cases kind with
      | expression content => exact ⟨content, _, found, rfl⟩
      | _ => cases isSome
  rw [isExpressionIff, isExpressionIff, sameSort]

theorem Chain.of_bare_eq
    {id : NodeId} {chain : List NodeId}
    (isChain : program.Chain id chain) :
    other.Chain id chain := by
  have sameParent := fun id => map_node?_of_mapNodes_eq same Node.parent? (fun _ => rfl) id
  induction isChain with
  | @top id _ found isTop =>
      have parentIs := sameParent id
      rw [found, Option.map_some, isTop, Option.map_eq_some_iff] at parentIs
      obtain ⟨node, foundHere, isTopHere⟩ := parentIs
      exact .top foundHere isTopHere
  | @step id _ _ _ found isParent further inductionHypothesis =>
      have parentIs := sameParent id
      rw [found, Option.map_some, isParent, Option.map_eq_some_iff] at parentIs
      obtain ⟨node, foundHere, isParentHere⟩ := parentIs
      exact .step foundHere isParentHere inductionHypothesis

theorem WellLinked.of_bare_eq (linked : program.WellLinked) : other.WellLinked := by
  have sameSize := size_of_mapNodes_eq same
  refine ⟨?_, ?_, ?_, ?_⟩
  · intro parent child isChild
    rw [sameSize]
    exact linked.childInRange parent child ((child_iff_of_bare_eq same parent child).mp isChild)
  · intro id parent isParent
    rw [parent?_of_bare_eq same] at isParent
    rw [sameSize]
    exact linked.parentInRange id parent isParent
  · exact Subrelation.wf (fun isChild => (child_iff_of_bare_eq same _ _).mp isChild)
      linked.childWalk
  · refine Subrelation.wf (fun isParent => ?_) linked.parentWalk
    rw [parent?_of_bare_eq same] at isParent
    exact isParent

end

/-! ## Walks to the scopes -/

theorem exists_node_of_lt
    {id : NodeId}
    (inRange : id < program.size) :
    ∃ node, program.node? id = some node :=
  ⟨_, Array.getElem?_eq_getElem inRange⟩

theorem node_yields
    {id : NodeId}
    (inRange : id < program.size) :
    Yields (fun node => program.node? id = some node) Fault.IsReport (program.node id) := by
  obtain ⟨node, found⟩ := exists_node_of_lt inRange
  rw [Program.node, found]
  rfl

theorem WellLinked.climbable (linked : program.WellLinked) : program.Climbable :=
  ⟨linked.parentInRange, linked.parentWalk⟩

namespace Climbable

variable (climbable : program.Climbable)

include climbable

/-- Every node has a chain of parents. -/
theorem exists_chain
    {id : NodeId}
    (inRange : id < program.size) :
    ∃ chain, program.Chain id chain := by
  induction id using climbable.parentWalk.induction with
  | _ id inductionHypothesis =>
      obtain ⟨node, found⟩ := exists_node_of_lt inRange
      cases isParent : node.parent? with
      | none => exact ⟨[id], .top found isParent⟩
      | some parent =>
          have parentIs : program.parent? id = some parent := by
            rw [parent?_of_node? found, isParent]
          obtain ⟨above, isAbove⟩ := inductionHypothesis parent parentIs
            (climbable.parentInRange id parent parentIs)
          exact ⟨id :: above, .step found isParent isAbove⟩

/-- What is found on the chain of parents is found in the symbols of a node. -/
theorem firstAbove_yields
    {α : Type} (pick : NodeId -> SymbolTable -> Option α)
    {id : NodeId}
    (inRange : id < program.size) :
    Yields (fun result? => ∀ result, result? = some result -> ∃ place symbols,
        program.symbolsAt? place = some symbols ∧ pick place symbols = some result)
      Fault.IsReport (program.firstAbove (picking pick) id) := by
  obtain ⟨chain, isChain⟩ := climbable.exists_chain inRange
  rw [firstAbove_of_chain pick isChain]
  intro result isFound
  obtain ⟨place, _, isPlace⟩ := List.exists_of_findSome?_eq_some isFound
  exact ⟨place, Option.bind_eq_some_iff.mp isPlace⟩

/-- The innermost code block around a node has a symbol table. -/
theorem enclosingScope_yields
    {id : NodeId}
    (inRange : id < program.size) :
    Yields (fun scope => program.nearestScope id = .ok (some scope) ∧
        ∃ symbols, program.symbolsAt? scope = some symbols)
      Fault.IsReport (program.enclosingScope id) := by
  have nearest := climbable.firstAbove_yields (fun id _ => some id) inRange
  rw [enclosingScope]
  rw [← nearestScope_eq_firstAbove] at nearest
  cases scopeIs : program.nearestScope id with
  | error fault =>
      rw [scopeIs] at nearest
      exact nearest
  | ok scope? =>
      cases scope? with
      | none =>
          obtain ⟨node, found⟩ := exists_node_of_lt inRange
          simp only [ok_bind, Program.node, found]
          exact ⟨_, rfl⟩
      | some scope =>
          rw [scopeIs] at nearest
          obtain ⟨place, symbols, isTable, isPlace⟩ := nearest scope rfl
          cases isPlace
          exact ⟨rfl, symbols, isTable⟩

/-- A name is looked up in a symbol table that has it. -/
theorem lookup?_yields
    {id : NodeId}
    (inRange : id < program.size)
    (name : String) :
    Yields (fun found? => ∀ scope symbol, found? = some (scope, symbol) ->
        ∃ symbols, program.symbolsAt? scope = some symbols ∧ symbols.get? name = some symbol)
      Fault.IsReport (program.lookup? id name) := by
  obtain ⟨chain, isChain⟩ := climbable.exists_chain inRange
  rw [lookup?_eq_firstAbove name isChain]
  apply (climbable.enclosingScope_yields inRange).bind
  intro _ _
  apply (climbable.firstAbove_yields (pickSymbol name) inRange).imp _ fun _ isReport => isReport
  rintro found? _ isFound scope symbol rfl
  obtain ⟨place, symbols, isTable, isPicked⟩ := isFound (scope, symbol) rfl
  obtain ⟨_, inTable, isPair⟩ := Option.map_eq_some_iff.mp isPicked
  cases isPair
  exact ⟨symbols, isTable, inTable⟩

/-- A name is resolved as it is looked up. -/
theorem resolve_yields
    {id : NodeId}
    (inRange : id < program.size)
    (name : String) (position : Position) :
    Yields (fun (scope, symbol) => program.lookup? id name = .ok (some (scope, symbol)) ∧
        ∃ symbols, program.symbolsAt? scope = some symbols ∧ symbols.get? name = some symbol)
      Fault.IsReport (program.resolve id name position) := by
  have looked := climbable.lookup?_yields inRange name
  rw [resolve]
  cases lookedUp : program.lookup? id name with
  | error fault =>
      rw [lookedUp] at looked
      exact looked
  | ok found? =>
      cases found? with
      | none => exact ⟨_, rfl⟩
      | some found =>
          rw [lookedUp] at looked
          exact ⟨rfl, looked _ _ rfl⟩

end Climbable
end Program
end ScriptLang
