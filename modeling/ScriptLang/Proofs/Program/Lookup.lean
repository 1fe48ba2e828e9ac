import ScriptLang.Proofs.Program.Links

/-!
# Lookup of names

In a program without cycles of parents the lookup of a name is settled by the chain
of its start: it fails only where the chain has no code block, and otherwise finds
the declaration in the first code block of the chain that has one.  Between two code
blocks of a chain there may be any number of other nodes, and any number of code
blocks may stand around the start.
-/

namespace ScriptLang
namespace Program

open Source (Position)

/-- What a name means on a chain of parents: its symbol in the first code block that declares it,
or nothing if no code block does. -/
inductive Innermost (program : Program) (name : String) (chain : List NodeId) :
    Option (NodeId × Symbol) -> Prop
  | declared
      {scope : NodeId} {symbol : Symbol} (inner outer : List NodeId)
      (isSplit : chain = inner ++ scope :: outer)
      (declares : program.symbolAt? scope name = some symbol)
      (isFirst : ∀ id ∈ inner, program.symbolAt? id name = none) :
      Innermost program name chain (some (scope, symbol))
  | undeclared
      (isNowhere : ∀ id ∈ chain, program.symbolAt? id name = none) :
      Innermost program name chain none

variable {program : Program} {start : NodeId} {chain : List NodeId} {node : Node}

/-- The meaning of a name is what a search of the chain finds. -/
theorem innermost_iff_findSome?_eq
    (program : Program) (name : String) (chain : List NodeId) (found? : Option (NodeId × Symbol)) :
    program.Innermost name chain found? ↔
      (chain.findSome? fun id => (program.symbolsAt? id).bind (pickSymbol name id)) = found? := by
  simp only [bind_pickSymbol]
  constructor
  · intro isInnermost
    cases isInnermost with
    | declared inner outer isSplit declares isFirst =>
        apply List.findSome?_eq_some_iff.mpr
        refine ⟨inner, _, outer, isSplit, ?_, fun id member => ?_⟩
        · rw [declares, Option.map_some]
        · rw [isFirst id member, Option.map_none]
    | undeclared isNowhere =>
        apply List.findSome?_eq_none_iff.mpr
        intro id member
        rw [isNowhere id member, Option.map_none]
  · intro isFound
    cases found? with
    | none =>
        refine .undeclared fun id member => ?_
        exact Option.map_eq_none_iff.mp (List.findSome?_eq_none_iff.mp isFound id member)
    | some found =>
        obtain ⟨inner, scope, outer, isSplit, isHere, isFirst⟩ :=
          List.findSome?_eq_some_iff.mp isFound
        obtain ⟨symbol, declares, rfl⟩ := Option.map_eq_some_iff.mp isHere
        exact .declared inner outer isSplit declares fun id member =>
          Option.map_eq_none_iff.mp (isFirst id member)

/-! ## The nearest code block -/

/-- A chain without code blocks leads to no scope, which is reported at its start. -/
theorem enclosingScope_of_noTable
    (isChain : program.Chain start chain)
    (found : program.node? start = some node)
    (noTable : ∀ id ∈ chain, program.symbolsAt? id = none) :
    program.enclosingScope start = .error (.ofInternal (.noScope start) node.position) := by
  rw [enclosingScope, nearestScope_of_noTable isChain noTable, ok_bind]
  simp only [Program.node, found, ok_bind, throw_eq_error]

theorem enclosingScope_of_split
    {scope : NodeId} {symbols : SymbolTable} {inner outer : List NodeId}
    (isChain : program.Chain start (inner ++ scope :: outer))
    (isTable : program.symbolsAt? scope = some symbols)
    (noTable : ∀ id ∈ inner, program.symbolsAt? id = none) :
    program.enclosingScope start = .ok scope := by
  rw [enclosingScope, nearestScope_of_split isChain isTable noTable, ok_bind]
  rfl

/-! ## The meaning of a name -/

theorem lookup?_of_noTable
    (isChain : program.Chain start chain)
    (found : program.node? start = some node)
    (noTable : ∀ id ∈ chain, program.symbolsAt? id = none)
    (name : String) :
    program.lookup? start name = .error (.ofInternal (.noScope start) node.position) := by
  rw [lookup?, enclosingScope_of_noTable isChain found noTable, error_bind]

theorem lookup?_of_table
    {scope : NodeId} {symbols : SymbolTable}
    (isChain : program.Chain start chain)
    (onChain : scope ∈ chain)
    (isTable : program.symbolsAt? scope = some symbols)
    (name : String) :
    program.lookup? start name =
      .ok (chain.findSome? fun id => (program.symbolsAt? id).bind (pickSymbol name id)) := by
  rcases program.noTable_or_exists_split chain with
    noTable | ⟨_, _, _, _, rfl, isFirst, noTable⟩
  · rw [noTable scope onChain] at isTable
    cases isTable
  · rw [lookup?_eq_firstAbove name isChain, enclosingScope_of_split isChain isFirst noTable,
      ok_bind, firstAbove_of_chain _ isChain]

/-- From a node with a code block around it a name is looked up as its innermost declaration. -/
theorem lookup?_eq_ok_iff
    {scope : NodeId} {symbols : SymbolTable}
    (isChain : program.Chain start chain)
    (onChain : scope ∈ chain)
    (isTable : program.symbolsAt? scope = some symbols)
    (name : String) (found? : Option (NodeId × Symbol)) :
    program.lookup? start name = .ok found? ↔ program.Innermost name chain found? := by
  rw [lookup?_of_table isChain onChain isTable, Except.ok.injEq, innermost_iff_findSome?_eq]

section

variable (climbable : program.Climbable) (inRange : start < program.size)

include climbable inRange

/-- The nearest scope of a node is the first code block of its chain. -/
theorem exists_split_of_nearestScope
    {scope : NodeId}
    (isScope : program.nearestScope start = .ok (some scope)) :
    ∃ inner outer, program.Chain start (inner ++ scope :: outer) ∧
      ∀ id ∈ inner, program.symbolsAt? id = none := by
  obtain ⟨chain, isChain⟩ := climbable.exists_chain inRange
  rcases program.noTable_or_exists_split chain with
    noTable | ⟨inner, first, outer, _, rfl, isTable, noTable⟩
  · rw [nearestScope_of_noTable isChain noTable] at isScope
    cases isScope
  · rw [nearestScope_of_split isChain isTable noTable] at isScope
    cases isScope
    exact ⟨inner, outer, isChain, noTable⟩

/-- What a lookup finds is the innermost declaration. -/
theorem exists_innermost_of_lookup?
    {name : String} {found? : Option (NodeId × Symbol)}
    (isFound : program.lookup? start name = .ok found?) :
    ∃ chain, program.Chain start chain ∧ program.Innermost name chain found? := by
  obtain ⟨chain, isChain⟩ := climbable.exists_chain inRange
  obtain ⟨node, found⟩ := exists_node_of_lt inRange
  refine ⟨chain, isChain, ?_⟩
  rcases program.noTable_or_exists_split chain with
    noTable | ⟨inner, scope, outer, _, rfl, isTable, _⟩
  · rw [lookup?_of_noTable isChain found noTable] at isFound
    cases isFound
  · have onChain : scope ∈ inner ++ scope :: outer :=
      List.mem_append_right _ List.mem_cons_self
    exact (lookup?_eq_ok_iff isChain onChain isTable _ _).mp isFound

end

/-- The lookup of a name finds its innermost declaration.  Where no parents form a cycle, a lookup
ends from every node; it fails exactly where the chain of the node has no code block, and reports
this at the place of the node.  Otherwise it finds the symbol in the first code block of the chain
that declares the name, and nothing if there is none.  A name that must be declared is resolved to
the same symbol, or reported in the same way, or reported as undeclared. -/
theorem lookup?_innermost
    (climbable : program.Climbable)
    (inRange : start < program.size)
    (name : String) (position : Position) :
    ∃ chain node, program.Chain start chain ∧ program.node? start = some node ∧
      (program.lookup? start name = .error (.ofInternal (.noScope start) node.position) ↔
        ∀ id ∈ chain, program.symbolsAt? id = none) ∧
      (∀ fault, program.lookup? start name = .error fault ->
        fault = .ofInternal (.noScope start) node.position) ∧
      (∀ found?, program.lookup? start name = .ok found? ↔
        (∃ id ∈ chain, ∃ symbols, program.symbolsAt? id = some symbols) ∧
          program.Innermost name chain found?) ∧
      (∀ found, program.resolve start name position = .ok found ↔
        program.lookup? start name = .ok (some found)) ∧
      ∀ fault, program.resolve start name position = .error fault ↔
        program.lookup? start name = .error fault ∨
          program.lookup? start name = .ok none ∧
            fault = .report ⟨.undeclared name, position⟩ := by
  obtain ⟨chain, isChain⟩ := climbable.exists_chain inRange
  obtain ⟨node, found⟩ := exists_node_of_lt inRange
  refine ⟨chain, node, isChain, found, ?_⟩
  rw [resolve]
  by_cases hasTable : ∃ id ∈ chain, ∃ symbols, program.symbolsAt? id = some symbols
  · obtain ⟨scope, onChain, symbols, isTable⟩ := hasTable
    have isInnermost := lookup?_eq_ok_iff isChain onChain isTable name
    rw [lookup?_of_table isChain onChain isTable name] at isInnermost ⊢
    refine ⟨?_, ?_, ?_, ?_, ?_⟩
    · constructor
      · intro isError
        cases isError
      · intro noTable
        rw [noTable scope onChain] at isTable
        cases isTable
    · intro fault isError
      cases isError
    · intro found?
      rw [isInnermost, and_iff_right ⟨scope, onChain, symbols, isTable⟩]
    · intro pair
      cases chain.findSome? _ <;> simp
    · intro fault
      cases chain.findSome? _ <;> simp [eq_comm]
  · have noTable : ∀ id ∈ chain, program.symbolsAt? id = none := by
      intro id member
      apply Option.eq_none_iff_forall_ne_some.mpr
      intro symbols isTable
      exact hasTable ⟨id, member, symbols, isTable⟩
    rw [lookup?_of_noTable isChain found noTable name]
    refine ⟨?_, ?_, ?_, ?_, ?_⟩
    · exact iff_of_true rfl noTable
    · intro fault isError
      cases isError
      rfl
    · intro found?
      exact iff_of_false (by intro isOk; cases isOk) (fun both => hasTable both.1)
    · intro pair
      simp
    · intro fault
      simp

/-- The table of one symbol. -/
def tableOf (symbol : Symbol) : SymbolTable := SymbolTable.empty.insert symbol rfl

/-- Three code blocks with other nodes between them, of which the first and the last declare the
same name, and a node outside of all code blocks. -/
def interleavedBlocks : Program where
  nodes := #[
    ⟨.codeBlock [2] (tableOf ⟨"x", .int, true, 1⟩), ⟨1, 0, ""⟩, some 1⟩,
    ⟨.program 0, ⟨1, 0, ""⟩, none⟩,
    ⟨.statement (.output 3), ⟨2, 0, ""⟩, some 0⟩,
    ⟨.codeBlock [4] (tableOf ⟨"y", .bool, true, 3⟩), ⟨3, 0, ""⟩, some 2⟩,
    ⟨.expression ⟨.single 5, none⟩, ⟨4, 0, ""⟩, some 3⟩,
    ⟨.codeBlock [6] (tableOf ⟨"x", .float, true, 5⟩), ⟨5, 0, ""⟩, some 4⟩,
    ⟨.leaf (.identifier "y"), ⟨6, 0, ""⟩, some 5⟩,
    ⟨.leaf (.identifier "x"), ⟨7, 0, ""⟩, none⟩]
  root := 1
  code := 0

theorem interleavedBlocks_climbable : interleavedBlocks.Climbable :=
  (wellLinked_of_ranked
    (by decide : interleavedBlocks.ranked [7, 8, 6, 5, 4, 3, 2, 1] [1, 0, 2, 3, 4, 5, 6, 0] = true)
    ).climbable

/-- From the innermost block a name of the middle one is found, past the block between them, and
from the node outside nothing is. -/
theorem lookup?_innermost_of_interleaved_blocks :
    (∃ chain, interleavedBlocks.Chain 6 chain ∧
      interleavedBlocks.Innermost "y" chain (some (3, ⟨"y", .bool, true, 3⟩)) ∧
      interleavedBlocks.resolve 6 "y" Source.nowhere = .ok (3, ⟨"y", .bool, true, 3⟩)) ∧
    ∃ chain, interleavedBlocks.Chain 7 chain ∧
      ∀ id ∈ chain, interleavedBlocks.symbolsAt? id = none := by
  obtain ⟨inside, _, isChain, _, _, _, lookup, resolve, _⟩ :=
    lookup?_innermost interleavedBlocks_climbable (by decide : 6 < interleavedBlocks.size) "y"
      Source.nowhere
  obtain ⟨outside, _, isOutside, found, noTable, _⟩ :=
    lookup?_innermost interleavedBlocks_climbable (by decide : 7 < interleavedBlocks.size) "x"
      Source.nowhere
  cases found
  exact ⟨⟨inside, isChain, ((lookup _).mp rfl).2, (resolve _).mpr rfl⟩,
    outside, isOutside, noTable.mp rfl⟩

end Program
end ScriptLang
