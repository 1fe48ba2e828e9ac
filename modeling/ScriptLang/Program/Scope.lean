import ScriptLang.Program.Basic

/-!
# Scopes

Code blocks are the scopes of a program.  A name is looked up along the chain of
parents, innermost code block first, and a declaration goes into the innermost
code block.  A walk up the chain ends at a node without a parent; a chain that
comes back to one of its own nodes is reported as a cycle.
-/

namespace ScriptLang

open Source (Position)

namespace Program

/-- Walk up the chain of parents to the first node for which something is selected. -/
def climb
    (program : Program)
    (select : NodeId -> Node -> Option α) : Nat -> NodeId -> Except Fault (Option α)
  | 0, id => .error (.cycle id)
  | steps + 1, id => do
      let node ← program.node id
      match select id node, node.parent? with
      | some result, _ => return some result
      | none, none => return none
      | none, some parent => program.climb select steps parent

/-- The first thing that is selected on the chain of parents, the node itself included.

A chain without a cycle meets every node at most once, so one step more than
there are nodes is enough, also to find that a parent is missing. -/
def firstAbove
    (program : Program)
    (select : NodeId -> Node -> Option α)
    (start : NodeId) : Except Fault (Option α) :=
  program.climb select (program.size + 1) start

/-- The innermost code block around a node, the node itself included. -/
def nearestScope (program : Program) (start : NodeId) : Except Fault (Option NodeId) :=
  program.firstAbove (fun id node => node.kind.symbols?.map fun _ => id) start

/-- The innermost code block around a node, which every statement should have. -/
def enclosingScope (program : Program) (start : NodeId) : Except Fault NodeId := do
  match ← program.nearestScope start with
  | some scope => return scope
  | none =>
      let node ← program.node start
      throw (.ofInternal (.noScope start) node.position)

/-- Look a name up in a code block, and as long as it is not declared there, in the next code
block around it.

A chain without a cycle meets every code block at most once. -/
def lookupFrom
    (program : Program)
    (identifier : String) : Nat -> NodeId -> Except Fault (Option (NodeId × Symbol))
  | 0, scope => .error (.cycle scope)
  | steps + 1, scope => do
      let node ← program.node scope
      match node.kind.symbols?.bind (·.get? identifier), node.parent? with
      | some symbol, _ => return some (scope, symbol)
      | none, none => return none
      | none, some parent =>
          match ← program.nearestScope parent with
          | some outer => program.lookupFrom identifier steps outer
          | none => return none

/-- The symbol of an identifier in the innermost code block that declares it, and the
number of that code block. -/
def lookup? (program : Program) (start : NodeId) (identifier : String) :
    Except Fault (Option (NodeId × Symbol)) := do
  let scope ← program.enclosingScope start
  program.lookupFrom identifier (program.size + 1) scope

/-- The symbol of an identifier, which must be declared. -/
def resolve
    (program : Program)
    (start : NodeId)
    (identifier : String)
    (position : Position) : Except Fault (NodeId × Symbol) := do
  match ← program.lookup? start identifier with
  | some result => return result
  | none => throw (.report ⟨.undeclared identifier, position⟩)

/-- Declare a symbol in a given code block. -/
def declareIn
    (program : Program)
    (scope : NodeId)
    (symbol : Symbol)
    (position : Position) : Except Fault Program := do
  let node ← program.node scope
  match node.kind.symbols? with
  | none => throw (.ofInternal (.noSymbolTable scope) position)
  | some symbols =>
      match symbols.register symbol with
      | .ok extended => return program.modifyKind scope (.withSymbols extended)
      | .error issue => throw (.report ⟨issue, position⟩)

/-- Declare a symbol in the innermost code block around a node. -/
def declare
    (program : Program)
    (start : NodeId)
    (symbol : Symbol)
    (position : Position) : Except Fault Program := do
  let scope ← program.enclosingScope start
  program.declareIn scope symbol position

/-- Give a variable of a scope a value and say whether the scope has that variable; nothing
if the node is no scope. -/
def markInitialized (program : Program) (scope : NodeId) (identifier : String) :
    Except Fault (Option (Bool × Program)) := do
  let node ← program.node scope
  return node.kind.symbols?.map fun symbols =>
    (symbols.contains identifier,
      program.modifyKind scope (.withSymbols (symbols.markInitialized identifier)))

end Program
end ScriptLang
