import ScriptLang.Log
import ScriptLang.Program.Scope
import ScriptLang.Typing.Rules

/-!
# Analysis

The statements of a program are analyzed in order.  Every expression gets its
type recorded at its node, every declaration adds a symbol to its scope, and an
assignment or an input marks the symbol that it gives a value.  The first fault
stops the analysis and leaves the program as it is at that point.
-/

namespace ScriptLang
namespace Typing

open Source (Position)

/-- Inference that records types in a program. -/
abbrev Inferring := EStateM Fault Program

/-- The type of a leaf that stands as an operand. -/
def leafTy (program : Program) (id : NodeId) (position : Position) : Leaf -> Except Fault Ty
  | .literal value => .ok value.ty
  | .typeKeyword ty => .error (.ofInternal (.typeAsExpression ty) position)
  | .identifier name => do
      let (_, symbol) ← program.resolve id name position
      if symbol.initialized then return symbol.ty
      else throw (.report ⟨.uninitialized name, position⟩)

/-- The result of a typing rule, with a wrong operand reported at the operator. -/
def reportAt (position : Position) : Except TypeCause Ty -> Except Fault Ty
  | .ok ty => .ok ty
  | .error cause => .error (.ofType cause position)

/-- Infer the type of an expression from the inferred types of its parts. -/
def formTy
    (infer : NodeId -> Inferring Ty)
    (position : Position) : ExpressionForm -> Inferring Ty
  | .binary operator left right => do
      let leftTy ← infer left
      let rightTy ← infer right
      liftExcept (reportAt position (operator.resultTy leftTy rightTy))
  | .unary operator operand => do
      let operandTy ← infer operand
      liftExcept (reportAt position (operator.resultTy operandTy))
  | .single leaf => infer leaf

/-- Infer the types of an expression down to a given depth and record them. -/
def inferAt : Nat -> NodeId -> Inferring Ty
  | 0, id => throw (.cycle id)
  | depth + 1, id => do
      let program ← get
      let node ← liftExcept (program.node id)
      match node.kind with
      | .leaf leaf => liftExcept (leafTy program id node.position leaf)
      | .expression expression => do
          let ty ← formTy (inferAt depth) node.position expression.form
          modify fun program => program.tag id ty
          return ty
      | _ => throw (.ofInternal (.notAnExpression id) node.position)

/-- Infer the types of an expression and of its parts and record them.  In a tree no part lies
deeper than there are nodes. -/
def infer (id : NodeId) : Inferring Ty := do
  inferAt ((← get).size + 1) id

/-- The name of an identifier node. -/
def identifierName (program : Program) (id : NodeId) : Except Fault String := do
  let node ← program.node id
  match node.kind with
  | .leaf (.identifier name) => return name
  | _ => throw (.ofInternal (.notAnIdentifier id) node.position)

/-- The type that a type keyword names. -/
def keywordTy (program : Program) (id : NodeId) : Except Fault Ty := do
  let node ← program.node id
  match node.kind with
  | .leaf (.typeKeyword ty) => return ty
  | _ => throw (.ofInternal (.notATypeKeyword id) node.position)

/-- The state of an analysis. -/
structure State where
  program : Program
  log : Log

/-- Analysis of statements. -/
abbrev Analyzing := EStateM Fault State

/-- Infer types as a step of an analysis. -/
def inferring (action : Inferring α) : Analyzing α := fun state =>
  match action state.program with
  | .ok result program => .ok result { state with program := program }
  | .error fault program => .error fault { state with program := program }

/-- Look something up in the program of an analysis. -/
def lookingUp (query : Program -> Except Fault α) : Analyzing α := do
  liftExcept (query (← get).program)

/-- Report an event. -/
def report (event : Event) : Analyzing Unit :=
  modify fun state => { state with log := state.log ++ [event] }

/-- The type that a declaration gives its variable, and whether it gives a value as well. -/
def declaredTy
    (name : String)
    (position : Position)
    (typeKeyword expression : Option NodeId) : Analyzing (Ty × Bool) :=
  match typeKeyword, expression with
  | some typeKeyword, some expression => do
      let declared ← lookingUp fun program => keywordTy program typeKeyword
      let inferred ← inferring (infer expression)
      if declared = inferred then return (declared, true)
      else
        let node ← lookingUp fun program => program.node expression
        throw (.ofType (.declarationMismatch name declared inferred) node.position)
  | none, some expression => return (← inferring (infer expression), true)
  | some typeKeyword, none =>
      return (← lookingUp fun program => keywordTy program typeKeyword, false)
  | none, none => throw (.ofInternal (.bareDeclaration name) position)

/-- Declare a symbol in the innermost scope around a node. -/
def declareSymbol (start : NodeId) (symbol : Symbol) (position : Position) :
    Analyzing Unit := do
  let scope ← lookingUp fun program => program.enclosingScope start
  report (.declaring symbol.identifier symbol.ty scope)
  let program ← lookingUp fun program => program.declareIn scope symbol position
  modify fun state => { state with program := program }

/-- Find the symbol that a statement gives a value. -/
def resolveTarget (statement identifier : NodeId) (name : String) :
    Analyzing (NodeId × Symbol) := do
  let node ← lookingUp fun program => program.node identifier
  lookingUp fun program => program.resolve statement name node.position

/-- Record that a variable of a scope has been given a value. -/
def markInitialized (scope : NodeId) (name : String) (position : Position) :
    Analyzing Unit := do
  match ← lookingUp fun program => program.markInitialized scope name with
  | some (true, program) => modify fun state => { state with program := program }
  | _ => throw (.ofInternal (.vanishedSymbol name scope) position)

/-- Analyze a statement of the given form at a node. -/
def analyzeForm (id : NodeId) (position : Position) : Statement -> Analyzing Unit
  | .declaration identifier typeKeyword expression => do
      let name ← lookingUp fun program => identifierName program identifier
      let (ty, initialized) ← declaredTy name position typeKeyword expression
      declareSymbol id ⟨name, ty, initialized, position.line⟩ position
  | .assignment identifier expression => do
      let name ← lookingUp fun program => identifierName program identifier
      let (scope, symbol) ← resolveTarget id identifier name
      let inferred ← inferring (infer expression)
      if symbol.ty = inferred then markInitialized scope name position
      else
        let node ← lookingUp fun program => program.node expression
        throw (.ofType (.assignmentMismatch name symbol.ty inferred) node.position)
  | .input identifier => do
      let name ← lookingUp fun program => identifierName program identifier
      let (scope, _) ← resolveTarget id identifier name
      markInitialized scope name position
  | .output expression => do
      let _ ← inferring (infer expression)

/-- Analyze the statement at a node. -/
def analyzeStatement (id : NodeId) : Analyzing Unit := do
  let node ← lookingUp fun program => program.node id
  match node.kind with
  | .statement statement => analyzeForm id node.position statement
  | _ => throw (.ofInternal (.notAStatement id) node.position)

/-- Analyze several statements in order. -/
def analyzeAll : List NodeId -> Analyzing Unit
  | [] => return
  | statement :: rest => do
      analyzeStatement statement
      analyzeAll rest

/-- The listing of a symbol table, in the order of its texts. -/
def listing (table : SymbolTable) : Log :=
  (table.symbols.map Event.declared).mergeSort fun first second =>
    first.message ≤ second.message

/-- Analyze the statements of the outermost code block. -/
def analyzeProgram : Analyzing Unit := do
  let statements := (← get).program.statements
  report (.analyzing statements.length)
  analyzeAll statements
  modify fun state => { state with log := state.log ++ listing state.program.symbols }

/-- What an analysis leaves: nothing or the fault that stopped it, the program with the types
and symbols found so far, and what happened. -/
structure Outcome where
  result : Except Fault Unit
  program : Program
  log : Log

/-- Analyze a program. -/
def analyze (program : Program) : Outcome :=
  match analyzeProgram ⟨program, []⟩ with
  | .ok () state => ⟨.ok (), state.program, state.log⟩
  | .error fault state => ⟨.error fault, state.program, state.log⟩

end Typing
end ScriptLang
