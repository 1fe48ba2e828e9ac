import ScriptLang.Diagnostic.Basic

/-!
# Symbol tables

The symbols that one scope declares, at most one for each identifier.  The first
declaration of an identifier wins: a later one is refused, and no operation
removes a symbol or takes its initialization back.

A table is kept in the order of the identifiers, so that tables with the same
symbols are equal.  It has no keys apart from its symbols: that a symbol is found
under the identifier that it holds, and under no other name, is so by this
representation and not an invariant that operations have to keep.
-/

namespace ScriptLang

open Source (Position)

/-- A declared variable. -/
structure Symbol where
  identifier : String
  ty : Ty
  /-- Whether the variable has been given a value. -/
  initialized : Bool
  /-- The line of the declaration. -/
  line : Nat
  deriving DecidableEq, Repr

namespace Symbol

/-- The symbol after it has been given a value. -/
def giveValue (symbol : Symbol) : Symbol := { symbol with initialized := true }

@[simp] theorem identifier_giveValue (symbol : Symbol) :
    symbol.giveValue.identifier = symbol.identifier := rfl

/-- Whether one symbol comes before another in the order of identifiers. -/
def Before (first second : Symbol) : Prop := first.identifier < second.identifier

/-- Put a symbol behind all symbols that come before it. -/
def insertInto (symbol : Symbol) : List Symbol -> List Symbol
  | [] => [symbol]
  | first :: rest =>
      if symbol.identifier < first.identifier then symbol :: first :: rest
      else first :: symbol.insertInto rest

theorem mem_insertInto (symbol other : Symbol) (symbols : List Symbol) :
    other ∈ symbol.insertInto symbols ↔ other = symbol ∨ other ∈ symbols := by
  induction symbols with
  | nil => simp [insertInto]
  | cons first rest inductionHypothesis =>
      by_cases before : symbol.identifier < first.identifier
      · simp [insertInto, before]
      · simp [insertInto, before, inductionHypothesis, or_left_comm]

theorem length_insertInto (symbol : Symbol) (symbols : List Symbol) :
    (symbol.insertInto symbols).length = symbols.length + 1 := by
  induction symbols with
  | nil => simp [insertInto]
  | cons first rest inductionHypothesis =>
      simp only [insertInto]
      split <;> simp [inductionHypothesis]

/-- Inserting a symbol with a new identifier keeps the order. -/
theorem pairwise_insertInto
    {symbol : Symbol} {symbols : List Symbol}
    (ordered : symbols.Pairwise Before)
    (fresh : ∀ other ∈ symbols, other.identifier ≠ symbol.identifier) :
    (symbol.insertInto symbols).Pairwise Before := by
  induction symbols with
  | nil => simp [insertInto]
  | cons first rest inductionHypothesis =>
      obtain ⟨firstBefore, restOrdered⟩ := List.pairwise_cons.1 ordered
      by_cases before : symbol.identifier < first.identifier
      · simp only [insertInto, before, if_true, List.pairwise_cons]
        refine ⟨?_, firstBefore, restOrdered⟩
        intro other member
        rcases List.mem_cons.1 member with rfl | member
        · exact before
        · exact String.lt_trans before (firstBefore other member)
      · simp only [insertInto, before, if_false, List.pairwise_cons]
        refine ⟨?_, inductionHypothesis restOrdered fun other member =>
          fresh other (List.mem_cons_of_mem _ member)⟩
        intro other member
        rcases (mem_insertInto symbol other rest).1 member with rfl | member
        · have := fresh first (List.mem_cons_self ..)
          unfold Before
          grind
        · exact firstBefore other member

/-- Give the variable with a given identifier a value. -/
def giveValueIn (identifier : String) (symbols : List Symbol) : List Symbol :=
  symbols.map fun symbol =>
    if symbol.identifier = identifier then symbol.giveValue else symbol

theorem pairwise_giveValueIn
    {symbols : List Symbol}
    (ordered : symbols.Pairwise Before)
    (identifier : String) :
    (giveValueIn identifier symbols).Pairwise Before := by
  refine List.pairwise_map.2 (ordered.imp ?_)
  intro first second before
  simp only [Before] at before ⊢
  split <;> split <;> simpa using before

end Symbol

/-- The symbols of one scope. -/
structure SymbolTable where
  /-- The symbols in the order of their identifiers. -/
  symbols : List Symbol
  /-- Each identifier comes before the next one. -/
  ordered : symbols.Pairwise Symbol.Before
  deriving DecidableEq

namespace SymbolTable

/-- The table without symbols. -/
def empty : SymbolTable := ⟨[], .nil⟩

instance : Inhabited SymbolTable := ⟨empty⟩

/-- The symbol of an identifier. -/
def get? (table : SymbolTable) (identifier : String) : Option Symbol :=
  table.symbols.find? fun symbol => symbol.identifier = identifier

/-- The number of symbols. -/
def size (table : SymbolTable) : Nat := table.symbols.length

/-- Whether a table has no symbols. -/
def isEmpty (table : SymbolTable) : Bool := table.symbols.isEmpty

/-- A symbol is found under its own identifier. -/
theorem identifier_of_get?
    {table : SymbolTable} {identifier : String} {symbol : Symbol}
    (found : table.get? identifier = some symbol) :
    symbol.identifier = identifier := by
  simpa using List.find?_some found

/-- A symbol of a table is what is found under its identifier, since there is no other. -/
theorem get?_eq_some_iff (table : SymbolTable) (identifier : String) (symbol : Symbol) :
    table.get? identifier = some symbol ↔
      symbol ∈ table.symbols ∧ symbol.identifier = identifier := by
  constructor
  · intro found
    exact ⟨List.mem_of_find?_eq_some found, identifier_of_get? found⟩
  · rintro ⟨member, rfl⟩
    obtain ⟨symbols, ordered⟩ := table
    simp only [get?] at member ⊢
    induction symbols with
    | nil => simp at member
    | cons first rest inductionHypothesis =>
        obtain ⟨firstBefore, restOrdered⟩ := List.pairwise_cons.1 ordered
        rcases List.mem_cons.1 member with rfl | member
        · simp
        · have before := firstBefore symbol member
          have differs : first.identifier ≠ symbol.identifier := by
            intro equal
            simp [Symbol.Before, equal] at before
          simp [differs]
          exact inductionHypothesis restOrdered member

/-- An identifier that is not found belongs to none of the symbols. -/
theorem get?_eq_none_iff (table : SymbolTable) (identifier : String) :
    table.get? identifier = none ↔
      ∀ symbol ∈ table.symbols, symbol.identifier ≠ identifier := by
  simp [get?]

/-- Add a symbol whose identifier is new. -/
def insert
    (table : SymbolTable)
    (symbol : Symbol)
    (fresh : table.get? symbol.identifier = none) : SymbolTable :=
  ⟨symbol.insertInto table.symbols,
    Symbol.pairwise_insertInto table.ordered ((table.get?_eq_none_iff _).1 fresh)⟩

/-- An inserted symbol is found under its identifier, and all others are found as before. -/
theorem get?_insert
    (table : SymbolTable)
    (symbol : Symbol)
    (fresh : table.get? symbol.identifier = none)
    (identifier : String) :
    (table.insert symbol fresh).get? identifier =
      if symbol.identifier = identifier then some symbol else table.get? identifier := by
  ext found
  rw [get?_eq_some_iff]
  simp only [insert, Symbol.mem_insertInto]
  split
  · next same =>
      subst same
      constructor
      · rintro ⟨rfl | member, sameIdentifier⟩
        · rfl
        · exact absurd sameIdentifier ((table.get?_eq_none_iff _).1 fresh found member)
      · rintro ⟨⟩
        exact ⟨.inl rfl, rfl⟩
  · next differs =>
      rw [get?_eq_some_iff]
      constructor
      · rintro ⟨rfl | member, sameIdentifier⟩
        · exact absurd sameIdentifier differs
        · exact ⟨member, sameIdentifier⟩
      · rintro ⟨member, sameIdentifier⟩
        exact ⟨.inr member, sameIdentifier⟩

@[simp] theorem size_insert
    (table : SymbolTable)
    (symbol : Symbol)
    (fresh : table.get? symbol.identifier = none) :
    (table.insert symbol fresh).size = table.size + 1 :=
  Symbol.length_insertInto symbol table.symbols

/-- Declare a symbol.  An identifier that is declared already is refused with the line
of its first declaration. -/
def register (table : SymbolTable) (symbol : Symbol) : Except Issue SymbolTable :=
  match found : table.get? symbol.identifier with
  | some first => .error (.duplicate symbol.identifier first.line)
  | none => .ok (table.insert symbol found)

/-- A symbol with a new identifier is declared. -/
theorem register_of_get?_eq_none
    {table : SymbolTable} {symbol : Symbol}
    (fresh : table.get? symbol.identifier = none) :
    table.register symbol = .ok (table.insert symbol fresh) := by
  unfold register
  split
  · next first found => simp [fresh] at found
  · rfl

/-- A symbol with the identifier of another one is refused. -/
theorem register_of_get?_eq_some
    {table : SymbolTable} {symbol first : Symbol}
    (found : table.get? symbol.identifier = some first) :
    table.register symbol = .error (.duplicate symbol.identifier first.line) := by
  unfold register
  split
  · next other otherFound =>
      rw [found] at otherFound
      cases otherFound
      rfl
  · next fresh => simp [fresh] at found

/-- Give the variable with a given identifier a value; a table without it stays as it is. -/
def markInitialized (table : SymbolTable) (identifier : String) : SymbolTable :=
  ⟨Symbol.giveValueIn identifier table.symbols,
    Symbol.pairwise_giveValueIn table.ordered identifier⟩

/-- Only the symbol of the identifier is given a value. -/
theorem get?_markInitialized (table : SymbolTable) (identifier other : String) :
    (table.markInitialized identifier).get? other =
      if identifier = other then (table.get? other).map Symbol.giveValue
      else table.get? other := by
  simp only [get?, markInitialized, Symbol.giveValueIn, List.find?_map]
  have sameTest :
      ((fun symbol : Symbol => decide (symbol.identifier = other)) ∘ fun symbol =>
        if symbol.identifier = identifier then symbol.giveValue else symbol) =
      fun symbol => decide (symbol.identifier = other) := by
    funext symbol
    simp only [Function.comp_apply]
    split <;> rfl
  rw [sameTest]
  cases found : table.symbols.find? fun symbol => decide (symbol.identifier = other) with
  | none => simp
  | some symbol =>
      have same : symbol.identifier = other := by simpa using List.find?_some found
      subst same
      by_cases equal : identifier = symbol.identifier
      · simp [equal]
      · have differs : ¬ symbol.identifier = identifier := fun same => equal same.symm
        simp [equal, differs]

@[simp] theorem size_markInitialized (table : SymbolTable) (identifier : String) :
    (table.markInitialized identifier).size = table.size := by
  simp [size, markInitialized, Symbol.giveValueIn]

/-- Whether a table has a symbol for an identifier. -/
def contains (table : SymbolTable) (identifier : String) : Bool :=
  (table.get? identifier).isSome

@[simp] theorem get?_empty (identifier : String) : empty.get? identifier = none := rfl

end SymbolTable
end ScriptLang
