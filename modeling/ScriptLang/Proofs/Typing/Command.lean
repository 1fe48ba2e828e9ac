import Mathlib.Logic.Function.Basic
import ScriptLang.Program.Basic
import ScriptLang.Typing.Rules

/-!
# Commands

The statements of a program as commands, in which names, types and expressions can
only stand where they belong, and the check of commands in an environment, which
maps names to variables.  A program is viewed as commands by reading the tree below
each of its statements.
-/

namespace ScriptLang

open Source (Position)

/-- An expression; its leaves and operators know where they stand. -/
inductive Term
  | literal (value : Literal) (position : Position)
  | reference (name : String) (position : Position)
  | unary (operator : UnaryOperator) (position : Position) (operand : Term)
  | binary (operator : BinaryOperator) (position : Position) (left right : Term)
  deriving DecidableEq, Repr

/-- What a declaration says about its variable: a type, a value to infer the type from, or
both. -/
inductive Declared
  | bare (ty : Ty)
  | inferred (value : Term)
  | annotated (ty : Ty) (value : Term)
  deriving DecidableEq, Repr

/-- A statement.  A declaration knows where it starts, an assignment and an input where the name
of their target stands. -/
inductive Command
  | declare (position : Position) (name : String) (declared : Declared)
  | assign (name : String) (target : Position) (value : Term)
  | input (name : String) (target : Position)
  | output (value : Term)
  deriving DecidableEq, Repr

/-- What is known of a declared name. -/
structure Variable where
  ty : Ty
  /-- Whether the variable has been given a value. -/
  initialized : Bool
  /-- The line of the declaration. -/
  line : Nat
  deriving DecidableEq, Repr

/-- The variables of all declared names. -/
abbrev Environment := String -> Option Variable

namespace Environment

/-- Nothing is declared. -/
def empty : Environment := fun _ => none

/-- The variable of a name, which must be declared. -/
def find (environment : Environment) (name : String) (position : Position) :
    Except Diagnostic Variable :=
  match environment name with
  | some found => .ok found
  | none => .error ⟨.undeclared name, position⟩

/-- One more variable. -/
def declare (environment : Environment) (name : String) (declared : Variable) : Environment :=
  Function.update environment name (some declared)

/-- The variable of a name has been given a value. -/
def giveValue (environment : Environment) (name : String) : Environment :=
  Function.update environment name
    ((environment name).map fun found => { found with initialized := true })

end Environment

namespace Term

/-- The place of an expression. -/
def position : Term -> Position
  | .literal _ position => position
  | .reference _ position => position
  | .unary _ position _ => position
  | .binary _ position _ _ => position

/-- The type of an expression.  Operands are checked from left to right, and then the rule of
their operator. -/
def typeIn (environment : Environment) : Term -> Except Diagnostic Ty
  | .literal value _ => .ok value.ty
  | .reference name position => do
      let found ← environment.find name position
      if found.initialized then return found.ty
      else throw ⟨.uninitialized name, position⟩
  | .unary operator position operand => do
      let operandTy ← operand.typeIn environment
      (operator.resultTy operandTy).mapError fun cause => .ofType cause position
  | .binary operator position left right => do
      let leftTy ← left.typeIn environment
      let rightTy ← right.typeIn environment
      (operator.resultTy leftTy rightTy).mapError fun cause => .ofType cause position

end Term

namespace Declared

/-- The type of a declared variable.  A value is checked before it is compared with a type. -/
def typeIn (environment : Environment) (name : String) : Declared -> Except Diagnostic Ty
  | .bare ty => .ok ty
  | .inferred value => value.typeIn environment
  | .annotated ty value => do
      let inferred ← value.typeIn environment
      if ty = inferred then return ty
      else throw (.ofType (.declarationMismatch name ty inferred) value.position)

/-- Whether a declared variable is given a value. -/
def initializes : Declared -> Bool
  | .bare _ => false
  | .inferred _ => true
  | .annotated _ _ => true

end Declared

namespace Command

/-- The environment after a command.  A name is declared after its value has been checked and if
it is new; the target of an assignment is looked up before its value is checked. -/
def check (environment : Environment) : Command -> Except Diagnostic Environment
  | .declare position name declared => do
      let ty ← declared.typeIn environment name
      match environment name with
      | some first => throw ⟨.duplicate name first.line, position⟩
      | none => return environment.declare name ⟨ty, declared.initializes, position.line⟩
  | .assign name target value => do
      let found ← environment.find name target
      let inferred ← value.typeIn environment
      if found.ty = inferred then return environment.giveValue name
      else throw (.ofType (.assignmentMismatch name found.ty inferred) value.position)
  | .input name target => do
      let _ ← environment.find name target
      return environment.giveValue name
  | .output value => do
      let _ ← value.typeIn environment
      return environment

/-- The environment after commands that are checked in order. -/
def checkAll (environment : Environment) : List Command -> Except Diagnostic Environment
  | [] => .ok environment
  | first :: rest => do
      let next ← first.check environment
      checkAll next rest

end Command

namespace Program

/-- The expression at a node, read down to a given depth. -/
def termTo? (program : Program) : Nat -> NodeId -> Option Term
  | 0, _ => none
  | depth + 1, id => do
      let node ← program.node? id
      match node.kind with
      | .leaf (.literal value) => return .literal value node.position
      | .leaf (.identifier name) => return .reference name node.position
      | .expression ⟨.single leaf, _⟩ => program.termTo? depth leaf
      | .expression ⟨.unary operator operand, _⟩ =>
          return .unary operator node.position (← program.termTo? depth operand)
      | .expression ⟨.binary operator left right, _⟩ =>
          return .binary operator node.position (← program.termTo? depth left)
            (← program.termTo? depth right)
      | _ => none

/-- The expression at a node.  In a tree no part lies deeper than there are nodes. -/
def term? (program : Program) (id : NodeId) : Option Term :=
  program.termTo? (program.size + 1) id

/-- The name at a node, and where it stands. -/
def nameAt? (program : Program) (id : NodeId) : Option (String × Position) := do
  let node ← program.node? id
  match node.kind with
  | .leaf (.identifier name) => return (name, node.position)
  | _ => none

/-- The type that the keyword at a node names. -/
def keyword? (program : Program) (id : NodeId) : Option Ty := do
  match (← program.node? id).kind with
  | .leaf (.typeKeyword ty) => return ty
  | _ => none

/-- What a declaration with the given parts says about its variable. -/
def declared? (program : Program) (typeKeyword expression : Option NodeId) : Option Declared :=
  match typeKeyword, expression with
  | some typeKeyword, some expression =>
      return .annotated (← program.keyword? typeKeyword) (← program.term? expression)
  | some typeKeyword, none => return .bare (← program.keyword? typeKeyword)
  | none, some expression => return .inferred (← program.term? expression)
  | none, none => none

/-- The command at a node. -/
def command? (program : Program) (id : NodeId) : Option Command := do
  let node ← program.node? id
  match node.kind with
  | .statement (.declaration identifier typeKeyword expression) =>
      let (name, _) ← program.nameAt? identifier
      return .declare node.position name (← program.declared? typeKeyword expression)
  | .statement (.assignment identifier expression) =>
      let (name, target) ← program.nameAt? identifier
      return .assign name target (← program.term? expression)
  | .statement (.input identifier) =>
      let (name, target) ← program.nameAt? identifier
      return .input name target
  | .statement (.output expression) => return .output (← program.term? expression)
  | _ => none

/-- The commands of a program, in the order of its statements. -/
def commands? (program : Program) : Option (List Command) :=
  program.statements.mapM program.command?

end Program
end ScriptLang
