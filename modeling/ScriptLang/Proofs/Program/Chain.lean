import Mathlib.Data.List.Perm.Subperm
import ScriptLang.Program.Scope
import ScriptLang.Proofs.Running

/-!
# Chains of parents

A node, its parent and so on, up to a node without a parent.  A node that has such
a chain has only one, and no node is on it twice, so every walk up the program reads
it to its end before the steps run out.  The lookup of a name walks twice, from code
block to code block and between them from node to node, and reads the same chain.
-/

namespace ScriptLang
namespace Program

/-- A list of different numbers below a bound is at most as long as the bound. -/
theorem length_le_of_nodup
    {ids : List NodeId} {bound : Nat}
    (nodup : ids.Nodup)
    (inRange : ∀ id ∈ ids, id < bound) :
    ids.length ≤ bound := by
  have inList : ids ⊆ List.range bound := fun id member => List.mem_range.mpr (inRange id member)
  calc
    ids.length ≤ (List.range bound).length := (List.subperm_of_subset nodup inList).length_le
    _ = bound := List.length_range

/-- The nodes from a node up to one without a parent. -/
inductive Chain (program : Program) : NodeId -> List NodeId -> Prop
  | top
      {id : NodeId} {node : Node}
      (found : program.node? id = some node)
      (isTop : node.parent? = none) :
      Chain program id [id]
  | step
      {id parent : NodeId} {node : Node} {above : List NodeId}
      (found : program.node? id = some node)
      (isParent : node.parent? = some parent)
      (further : Chain program parent above) :
      Chain program id (id :: above)

namespace Chain

variable {program : Program} {id other : NodeId} {chain : List NodeId}

/-- A chain begins with its node. -/
theorem exists_eq_cons (isChain : program.Chain id chain) : ∃ above, chain = id :: above := by
  cases isChain with
  | top => exact ⟨[], rfl⟩
  | step => exact ⟨_, rfl⟩

theorem unique
    {second : List NodeId}
    (isChain : program.Chain id chain)
    (isSecond : program.Chain id second) :
    chain = second := by
  induction isChain generalizing second with
  | top found isTop =>
      cases isSecond with
      | top => rfl
      | step again isParent =>
          rw [found] at again
          cases again
          rw [isTop] at isParent
          cases isParent
  | step found isParent further inductionHypothesis =>
      cases isSecond with
      | top again isTop =>
          rw [found] at again
          cases again
          rw [isTop] at isParent
          cases isParent
      | step again isSecondParent further =>
          rw [found] at again
          cases again
          rw [isParent] at isSecondParent
          cases isSecondParent
          rw [inductionHypothesis further]

/-- From a node on a chain the rest of it is the chain of that node. -/
theorem suffix
    {before after : List NodeId}
    (isChain : program.Chain id chain)
    (isSplit : chain = before ++ other :: after) :
    program.Chain other (other :: after) := by
  induction isChain generalizing before with
  | top found isTop =>
      obtain ⟨rfl, isEnd⟩ | ⟨_, _, isEnd⟩ := List.cons_eq_append_iff.mp isSplit
      · cases isEnd
        exact .top found isTop
      · exact absurd isEnd.symm (List.append_ne_nil_of_right_ne_nil _ (List.cons_ne_nil _ _))
  | step found isParent further inductionHypothesis =>
      obtain ⟨rfl, isEnd⟩ | ⟨rest, rfl, isRest⟩ := List.cons_eq_append_iff.mp isSplit
      · cases isEnd
        exact .step found isParent further
      · exact inductionHypothesis isRest

theorem exists_node_of_mem
    (isChain : program.Chain id chain)
    (member : other ∈ chain) :
    ∃ node, program.node? other = some node := by
  obtain ⟨before, after, isSplit⟩ := List.append_of_mem member
  cases isChain.suffix isSplit with
  | top found => exact ⟨_, found⟩
  | step found => exact ⟨_, found⟩

/-- No node is on its chain twice, since both times the same nodes would be above it. -/
theorem nodup (isChain : program.Chain id chain) : chain.Nodup := by
  induction isChain with
  | top => exact List.pairwise_singleton _ _
  | @step id parent node above found isParent further inductionHypothesis =>
      -- A second time the rest of the chain would be as long as the whole of it.
      apply List.nodup_cons.mpr ⟨fun again => ?_, inductionHypothesis⟩
      obtain ⟨before, after, isSplit⟩ := List.append_of_mem again
      have same := (further.suffix isSplit).unique (.step found isParent further)
      have lengths := congrArg List.length same
      rw [isSplit] at lengths
      simp only [List.length_cons, List.length_append] at lengths
      omega

/-- A chain has at most as many nodes as the program. -/
theorem length_le (isChain : program.Chain id chain) : chain.length ≤ program.size := by
  apply length_le_of_nodup isChain.nodup
  intro other member
  obtain ⟨node, found⟩ := isChain.exists_node_of_mem member
  exact (Array.getElem?_eq_some_iff.mp found).1

end Chain

/-! ## Walks read the chain -/

/-- The symbols that a node of a program holds. -/
def symbolsAt? (program : Program) (id : NodeId) : Option SymbolTable :=
  (program.node? id).bind fun node => node.kind.symbols?

/-- The symbol that a name has in the code block at a node. -/
def symbolAt? (program : Program) (id : NodeId) (name : String) : Option Symbol :=
  (program.symbolsAt? id).bind fun symbols => symbols.get? name

/-- A way of looking for something in the code blocks on a chain of parents. -/
def picking {α : Type} (pick : NodeId -> SymbolTable -> Option α) (id : NodeId) (node : Node) :
    Option α :=
  node.kind.symbols?.bind (pick id)

/-- What a name means in a symbol table. -/
def pickSymbol (name : String) (id : NodeId) (symbols : SymbolTable) : Option (NodeId × Symbol) :=
  (symbols.get? name).map fun symbol => (id, symbol)

variable {program : Program} {start : NodeId} {chain : List NodeId} {steps : Nat}

theorem symbolsAt?_of_node? {id : NodeId} {node : Node} (found : program.node? id = some node) :
    program.symbolsAt? id = node.kind.symbols? := by
  rw [symbolsAt?, found, Option.bind_some]

theorem symbolAt?_of_node?
    {id : NodeId} {node : Node}
    (found : program.node? id = some node)
    (name : String) :
    program.symbolAt? id name = node.kind.symbols?.bind (·.get? name) := by
  rw [symbolAt?, symbolsAt?_of_node? found]

theorem bind_pickSymbol (program : Program) (name : String) (id : NodeId) :
    (program.symbolsAt? id).bind (pickSymbol name id) =
      (program.symbolAt? id name).map fun symbol => (id, symbol) := by
  rw [symbolAt?, Option.map_bind]
  rfl

/-- A walk with as many steps as its chain has nodes finds the first thing on the chain. -/
theorem climb_of_chain
    {α : Type} (pick : NodeId -> SymbolTable -> Option α)
    (isChain : program.Chain start chain)
    (enough : chain.length ≤ steps) :
    program.climb (picking pick) steps start =
      .ok (chain.findSome? fun id => (program.symbolsAt? id).bind (pick id)) := by
  induction isChain generalizing steps with
  | @top id node found isTop =>
      obtain ⟨fewer, rfl⟩ := Nat.exists_eq_add_one_of_ne_zero (Nat.ne_of_gt enough)
      simp only [climb, Program.node, found, ok_bind, picking, isTop, List.findSome?_cons,
        symbolsAt?_of_node? found]
      cases node.kind.symbols?.bind (pick id) <;> rfl
  | @step id parent node above found isParent further inductionHypothesis =>
      rw [List.length_cons] at enough
      obtain ⟨fewer, rfl⟩ : ∃ fewer, steps = fewer + 1 := ⟨steps - 1, by omega⟩
      simp only [climb, Program.node, found, ok_bind, picking, isParent, List.findSome?_cons,
        symbolsAt?_of_node? found]
      cases node.kind.symbols?.bind (pick id) with
      | some result => rfl
      | none => exact inductionHypothesis (by omega)

/-- A walk that ends has come to the end of its chain, if there is nothing to be found. -/
theorem exists_chain_of_climb
    {α : Type} {select : NodeId -> Node -> Option α}
    (selectsNothing : ∀ id node, select id node = none)
    {result? : Option α}
    (climbed : program.climb select steps start = .ok result?) :
    ∃ chain, program.Chain start chain := by
  induction steps generalizing start with
  | zero => cases climbed
  | succ steps inductionHypothesis =>
      rw [climb, bind_eq_ok_iff] at climbed
      obtain ⟨node, isNode, further⟩ := climbed
      have found : program.node? start = some node := by
        rw [Program.node] at isNode
        cases found : program.node? start with
        | none => rw [found] at isNode; cases isNode
        | some other => rw [found] at isNode; cases isNode; rfl
      rw [selectsNothing] at further
      cases isParent : node.parent? with
      | none => exact ⟨[start], .top found isParent⟩
      | some parent =>
          rw [isParent] at further
          obtain ⟨above, isAbove⟩ := inductionHypothesis further
          exact ⟨start :: above, .step found isParent isAbove⟩

theorem firstAbove_of_chain
    {α : Type} (pick : NodeId -> SymbolTable -> Option α)
    (isChain : program.Chain start chain) :
    program.firstAbove (picking pick) start =
      .ok (chain.findSome? fun id => (program.symbolsAt? id).bind (pick id)) :=
  climb_of_chain pick isChain (Nat.le_succ_of_le isChain.length_le)

/-- The nearest scope is the first code block of any kind. -/
theorem nearestScope_eq_firstAbove (program : Program) (start : NodeId) :
    program.nearestScope start = program.firstAbove (picking fun id _ => some id) start := by
  unfold nearestScope
  congr 1
  funext id node
  rw [picking]
  cases node.kind.symbols? <;> rfl

/-- Nothing is found where no node holds symbols. -/
theorem findSome?_eq_none_of_noTable
    {α : Type} {pick : NodeId -> SymbolTable -> Option α}
    (noTable : ∀ id ∈ chain, program.symbolsAt? id = none) :
    (chain.findSome? fun id => (program.symbolsAt? id).bind (pick id)) = none := by
  apply List.findSome?_eq_none_iff.mpr
  intro id member
  rw [noTable id member, Option.bind_none]

/-- A chain has no code block, or a first one. -/
theorem noTable_or_exists_split (program : Program) (chain : List NodeId) :
    (∀ id ∈ chain, program.symbolsAt? id = none) ∨
      ∃ inner scope outer symbols, chain = inner ++ scope :: outer ∧
        program.symbolsAt? scope = some symbols ∧ ∀ id ∈ inner, program.symbolsAt? id = none := by
  cases isFirst : chain.findSome? program.symbolsAt? with
  | none => exact .inl (List.findSome?_eq_none_iff.mp isFirst)
  | some symbols =>
      obtain ⟨inner, scope, outer, isSplit, isTable, noTable⟩ :=
        List.findSome?_eq_some_iff.mp isFirst
      exact .inr ⟨inner, scope, outer, symbols, isSplit, isTable, noTable⟩

/-- On a chain without code blocks there is no scope. -/
theorem nearestScope_of_noTable
    (isChain : program.Chain start chain)
    (noTable : ∀ id ∈ chain, program.symbolsAt? id = none) :
    program.nearestScope start = .ok none := by
  rw [nearestScope_eq_firstAbove, firstAbove_of_chain _ isChain,
    findSome?_eq_none_of_noTable noTable]

/-- The nearest scope is the first code block of the chain. -/
theorem nearestScope_of_split
    {scope : NodeId} {symbols : SymbolTable} {inner outer : List NodeId}
    (isChain : program.Chain start (inner ++ scope :: outer))
    (isTable : program.symbolsAt? scope = some symbols)
    (noTable : ∀ id ∈ inner, program.symbolsAt? id = none) :
    program.nearestScope start = .ok (some scope) := by
  rw [nearestScope_eq_firstAbove, firstAbove_of_chain _ isChain, List.findSome?_append,
    findSome?_eq_none_of_noTable noTable, Option.none_or, List.findSome?_cons, isTable]
  rfl

section

variable {id parent : NodeId} {node : Node} {name : String}

/-- A name that is declared in the code block at hand is found there. -/
theorem lookupFrom_of_declared
    {symbol : Symbol}
    (found : program.node? id = some node)
    (declared : program.symbolAt? id name = some symbol)
    (steps : Nat) :
    program.lookupFrom name (steps + 1) id = .ok (some (id, symbol)) := by
  rw [symbolAt?_of_node? found] at declared
  simp only [lookupFrom, Program.node, found, ok_bind, declared]
  rfl

/-- Nothing is found at the top if the name is not declared there. -/
theorem lookupFrom_of_top
    (found : program.node? id = some node)
    (undeclared : program.symbolAt? id name = none)
    (isTop : node.parent? = none)
    (steps : Nat) :
    program.lookupFrom name (steps + 1) id = .ok none := by
  rw [symbolAt?_of_node? found] at undeclared
  simp only [lookupFrom, Program.node, found, ok_bind, undeclared, isTop]
  rfl

/-- Nothing is found if the name is not declared in the outermost code block. -/
theorem lookupFrom_of_outermost
    (found : program.node? id = some node)
    (undeclared : program.symbolAt? id name = none)
    (isParent : node.parent? = some parent)
    (isOutermost : program.nearestScope parent = .ok none)
    (steps : Nat) :
    program.lookupFrom name (steps + 1) id = .ok none := by
  rw [symbolAt?_of_node? found] at undeclared
  simp only [lookupFrom, Program.node, found, ok_bind, undeclared, isParent, isOutermost]
  rfl

/-- A name that is not declared in the code block at hand is looked up in the next one. -/
theorem lookupFrom_of_outer
    {outer : NodeId}
    (found : program.node? id = some node)
    (undeclared : program.symbolAt? id name = none)
    (isParent : node.parent? = some parent)
    (isNext : program.nearestScope parent = .ok (some outer))
    (steps : Nat) :
    program.lookupFrom name (steps + 1) id = program.lookupFrom name steps outer := by
  rw [symbolAt?_of_node? found] at undeclared
  simp only [lookupFrom, Program.node, found, ok_bind, undeclared, isParent, isNext]

end

/-- From a code block a name is looked up in the code blocks of its chain, each of which is
reached, one after the other.

The induction is on the steps, and every step goes on at the next code block above: the nodes
between the two hold no symbols, so nothing is passed over. -/
theorem lookupFrom_of_chain
    (name : String)
    (isChain : program.Chain start chain)
    (enough : chain.length ≤ steps) :
    program.lookupFrom name steps start =
      .ok (chain.findSome? fun id => (program.symbolsAt? id).bind (pickSymbol name id)) := by
  induction steps generalizing start chain with
  | zero =>
      obtain ⟨above, rfl⟩ := isChain.exists_eq_cons
      cases enough
  | succ steps inductionHypothesis =>
      cases isHere : program.symbolAt? start name with
      | some symbol =>
          obtain ⟨above, rfl⟩ := isChain.exists_eq_cons
          obtain ⟨node, found⟩ := isChain.exists_node_of_mem List.mem_cons_self
          rw [lookupFrom_of_declared found isHere, List.findSome?_cons, bind_pickSymbol, isHere]
          rfl
      | none =>
          have nothingHere : (program.symbolsAt? start).bind (pickSymbol name start) = none := by
            rw [bind_pickSymbol, isHere, Option.map_none]
          cases isChain with
          | @top _ node found isTop =>
              rw [lookupFrom_of_top found isHere isTop, List.findSome?_cons, nothingHere]
              rfl
          | @step _ parent node above found isParent further =>
              rw [List.findSome?_cons, nothingHere]
              rcases program.noTable_or_exists_split above with
                noTable | ⟨before, outer, after, symbols, rfl, isTable, noTable⟩
              · rw [lookupFrom_of_outermost found isHere isParent
                  (nearestScope_of_noTable further noTable)]
                exact congrArg Except.ok (findSome?_eq_none_of_noTable noTable).symm
              · have shorter : (outer :: after).length ≤ steps := by
                  simp only [List.length_cons, List.length_append] at enough ⊢
                  omega
                rw [lookupFrom_of_outer found isHere isParent
                    (nearestScope_of_split further isTable noTable),
                  inductionHypothesis (further.suffix rfl) shorter]
                simp only [List.findSome?_append, findSome?_eq_none_of_noTable noTable,
                  Option.none_or]

/-- A name is looked up in the first code block that has a symbol for it. -/
theorem lookup?_eq_firstAbove (name : String) (isChain : program.Chain start chain) :
    program.lookup? start name =
      program.enclosingScope start >>= fun _ =>
        program.firstAbove (picking (pickSymbol name)) start := by
  rw [firstAbove_of_chain _ isChain, lookup?, enclosingScope]
  rcases program.noTable_or_exists_split chain with
    noTable | ⟨before, scope, after, symbols, rfl, isTable, noTable⟩
  · rw [nearestScope_of_noTable isChain noTable, ok_bind]
    dsimp only
    cases program.node start <;> rfl
  · have further := isChain.suffix rfl
    rw [nearestScope_of_split isChain isTable noTable, ok_bind]
    dsimp only
    rw [pure_eq_ok, ok_bind, ok_bind,
      lookupFrom_of_chain name further (Nat.le_succ_of_le further.length_le),
      List.findSome?_append, findSome?_eq_none_of_noTable noTable, Option.none_or]

end Program
end ScriptLang
