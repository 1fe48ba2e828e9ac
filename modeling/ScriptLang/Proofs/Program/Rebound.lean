import ScriptLang.Proofs.Program.Lookup

/-!
# Rebound names

Programs that differ in what one name means in one code block, and in nothing else.
The change is told by what is found before it and after it, at every node and under
every name, whatever writes the tables.
-/

namespace ScriptLang
namespace Program

/-- A program is changed in one code block, where one name means a given symbol after the change
and every other name means what it meant before. -/
structure Rebinds
    (program changed : Program)
    (scope : NodeId)
    (name : String)
    (symbol : Symbol) : Prop where
  root_eq : changed.root = program.root
  code_eq : changed.code = program.code
  /-- All other nodes are as they were. -/
  node?_eq : ∀ id, id ≠ scope -> changed.node? id = program.node? id
  /-- The code block has its statements, its place and its parent as before. -/
  exists_tables : ∃ statements before after position parent?,
    program.node? scope = some ⟨.codeBlock statements before, position, parent?⟩ ∧
      changed.node? scope = some ⟨.codeBlock statements after, position, parent?⟩ ∧
      ∀ other, after.get? other = if other = name then some symbol else before.get? other

/-- A program is changed by one symbol, whose name is new in its code block. -/
structure Gains (program changed : Program) (scope : NodeId) (symbol : Symbol) : Prop
    extends Rebinds program changed scope symbol.identifier symbol where
  fresh : program.symbolAt? scope symbol.identifier = none

/-- The nearest code block around a node, the first one on its chain, gains a symbol. -/
def DeclaresAt (program changed : Program) (id : NodeId) (symbol : Symbol) : Prop :=
  ∃ inner scope outer, program.Chain id (inner ++ scope :: outer) ∧
    (∀ between ∈ inner, program.symbolsAt? between = none) ∧
    program.Gains changed scope symbol

/-- The symbol that is found for a name at a node, its innermost declaration, is given a value. -/
def InitializesAt (program changed : Program) (id : NodeId) (name : String) : Prop :=
  ∃ chain scope symbol, program.Chain id chain ∧
    program.Innermost name chain (some (scope, symbol)) ∧
    program.lookup? id name = .ok (some (scope, symbol)) ∧
    program.Rebinds changed scope name { symbol with initialized := true }

variable {program changed : Program} {id scope : NodeId} {symbols : SymbolTable} {symbol : Symbol}
  {name : String}

/-! ## Tables that are written -/

/-- A table that differs from the former one in one name is written into a code block. -/
theorem rebinds_withSymbols
    {after : SymbolTable}
    (isTable : program.symbolsAt? scope = some symbols)
    (looksUp : ∀ other,
      after.get? other = if other = name then some symbol else symbols.get? other) :
    program.Rebinds (program.modifyKind scope (.withSymbols after)) scope name symbol where
  root_eq := rfl
  code_eq := rfl
  node?_eq := by
    intro id differs
    rw [modifyKind, node?_modifyNode, if_neg (Ne.symm differs)]
  exists_tables := by
    obtain ⟨⟨kind, position, parent?⟩, found, hasSymbols⟩ := Option.bind_eq_some_iff.mp isTable
    cases kind <;> cases hasSymbols
    refine ⟨_, symbols, after, position, parent?, found, ?_, looksUp⟩
    rw [modifyKind, node?_modifyNode, if_pos rfl, found]
    rfl

/-- A symbol that is inserted into the table of a code block is declared there. -/
theorem gains_insert
    (isTable : program.symbolsAt? scope = some symbols)
    (fresh : symbols.get? symbol.identifier = none) :
    program.Gains (program.modifyKind scope (.withSymbols (symbols.insert symbol fresh)))
      scope symbol where
  toRebinds := by
    refine rebinds_withSymbols isTable fun other => ?_
    rw [SymbolTable.get?_insert]
    simp only [eq_comm]
  fresh := by rw [symbolAt?, isTable, Option.bind_some, fresh]

/-- A symbol that is marked in the table of a code block is given a value there. -/
theorem rebinds_markInitialized
    (isTable : program.symbolsAt? scope = some symbols)
    (inTable : symbols.get? name = some symbol) :
    program.Rebinds (program.modifyKind scope (.withSymbols (symbols.markInitialized name)))
      scope name { symbol with initialized := true } := by
  refine rebinds_withSymbols isTable fun other => ?_
  rw [SymbolTable.get?_markInitialized]
  by_cases isName : other = name
  · subst isName
    rw [if_pos rfl, if_pos rfl, inTable]
    rfl
  · rw [if_neg (Ne.symm isName), if_neg isName]

/-! ## What is found after a change -/

namespace Rebinds

variable (rebinds : program.Rebinds changed scope name symbol)

include rebinds

/-- The change concerns symbols only. -/
theorem bare_eq : changed.bare = program.bare := by
  obtain ⟨statements, before, after, position, parent?, found, foundAfter, _⟩ :=
    rebinds.exists_tables
  refine ext_node? (fun id => ?_) rebinds.root_eq rebinds.code_eq
  rw [bare, bare, node?_mapNodes, node?_mapNodes]
  by_cases isScope : id = scope
  · subst isScope
    rw [found, foundAfter]
    rfl
  · rw [rebinds.node?_eq id isScope]

theorem isSome_symbolsAt?_eq (id : NodeId) :
    (changed.symbolsAt? id).isSome = (program.symbolsAt? id).isSome := by
  obtain ⟨statements, before, after, position, parent?, found, foundAfter, _⟩ :=
    rebinds.exists_tables
  by_cases isScope : id = scope
  · subst isScope
    rw [symbolsAt?_of_node? found, symbolsAt?_of_node? foundAfter]
    rfl
  · rw [symbolsAt?, symbolsAt?, rebinds.node?_eq id isScope]

/-- A node holds symbols after the change if it held some before. -/
theorem exists_symbolsAt?
    (isTable : program.symbolsAt? id = some symbols) :
    ∃ symbols, changed.symbolsAt? id = some symbols := by
  have isSome := rebinds.isSome_symbolsAt?_eq id
  rw [isTable, Option.isSome_some] at isSome
  exact Option.isSome_iff_exists.mp isSome

/-- The code block holds symbols before the change. -/
theorem isTable : ∃ symbols, program.symbolsAt? scope = some symbols := by
  obtain ⟨statements, before, after, position, parent?, found, _⟩ := rebinds.exists_tables
  exact ⟨before, symbolsAt?_of_node? found⟩

/-- One name means something else in one code block. -/
theorem symbolAt?_eq (id : NodeId) (other : String) :
    changed.symbolAt? id other =
      if id = scope ∧ other = name then some symbol else program.symbolAt? id other := by
  obtain ⟨statements, before, after, position, parent?, found, foundAfter, looksUp⟩ :=
    rebinds.exists_tables
  by_cases isScope : id = scope
  · subst isScope
    rw [symbolAt?_of_node? foundAfter, symbolAt?_of_node? found]
    simp only [true_and]
    exact looksUp other
  · rw [if_neg fun both => isScope both.1, symbolAt?, symbolAt?, symbolsAt?, symbolsAt?,
      rebinds.node?_eq id isScope]

end Rebinds

theorem DeclaresAt.bare_eq (declares : program.DeclaresAt changed id symbol) :
    changed.bare = program.bare := by
  obtain ⟨_, _, _, _, _, gains⟩ := declares
  exact gains.bare_eq

theorem InitializesAt.bare_eq (initializes : program.InitializesAt changed id name) :
    changed.bare = program.bare := by
  obtain ⟨_, _, _, _, _, _, rebinds⟩ := initializes
  exact rebinds.bare_eq

end Program
end ScriptLang
