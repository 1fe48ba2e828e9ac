import ScriptLang.Proofs.Program.StatementTree
import ScriptLang.Proofs.Running
import ScriptLang.Typing.Analysis

/-!
# Checking trees

The analysis once more, as functions of trees and of a symbol table, apart from
the nodes of a program.  Operands are typed from left to right and before their
operator, and the first fault is the result.
-/

namespace ScriptLang

open Source (Position)
open Typing (reportAt)

/-- The symbol of a name, which must be declared. -/
def SymbolTable.resolve (symbols : SymbolTable) (name : String) (position : Position) :
    Except Fault Symbol :=
  match symbols.get? name with
  | some symbol => .ok symbol
  | none => .error (.report ⟨.undeclared name, position⟩)

/-- The type of a leaf that stands as an operand. -/
def Leaf.typeIn (symbols : SymbolTable) (position : Position) : Leaf -> Except Fault Ty
  | .literal value => .ok value.ty
  | .typeKeyword ty => .error (.ofInternal (.typeAsExpression ty) position)
  | .identifier name => do
      let symbol ← symbols.resolve name position
      if symbol.initialized then return symbol.ty
      else throw (.report ⟨.uninitialized name, position⟩)

namespace Tree

/-- The type of a tree, or what is wrong with it. -/
def typeIn (symbols : SymbolTable) : Tree -> Except Fault Ty
  | .leaf content position => content.typeIn symbols position
  | .unary operator position operand => do
      let operandTy ← operand.typeIn symbols
      reportAt position (operator.resultTy operandTy)
  | .binary operator position left right => do
      let leftTy ← left.typeIn symbols
      let rightTy ← right.typeIn symbols
      reportAt position (operator.resultTy leftTy rightTy)

/-- The types of all well-typed trees. -/
def typing (symbols : SymbolTable) : Tagging := fun tree => (tree.typeIn symbols).toOption

theorem typing_of_typeIn_eq_ok
    {symbols : SymbolTable} {tree : Tree} {ty : Ty}
    (typed : tree.typeIn symbols = .ok ty) :
    tree.typing symbols = some ty := by
  rw [typing, typed]
  rfl

theorem typing_of_typeIn_eq_error
    {symbols : SymbolTable} {tree : Tree} {fault : Fault}
    (failed : tree.typeIn symbols = .error fault) :
    tree.typing symbols = none := by
  rw [typing, failed]
  rfl

/-- All parts of a well-typed tree are well typed. -/
theorem exists_typeIn_of_part
    {symbols : SymbolTable} {part tree : Tree} {ty : Ty}
    (isPart : part.Part tree)
    (typed : tree.typeIn symbols = .ok ty) :
    ∃ ty, part.typeIn symbols = .ok ty := by
  induction isPart generalizing ty with
  | whole => exact ⟨ty, typed⟩
  | operand operator position _ inductionHypothesis =>
      obtain ⟨operandTy, operandTyped, _⟩ := (bind_eq_ok_iff _ _ _).mp typed
      exact inductionHypothesis operandTyped
  | left operator position right _ inductionHypothesis =>
      obtain ⟨leftTy, leftTyped, _⟩ := (bind_eq_ok_iff _ _ _).mp typed
      exact inductionHypothesis leftTyped
  | right operator position left _ inductionHypothesis =>
      obtain ⟨leftTy, _, rest⟩ := (bind_eq_ok_iff _ _ _).mp typed
      obtain ⟨rightTy, rightTyped, _⟩ := (bind_eq_ok_iff _ _ _).mp rest
      exact inductionHypothesis rightTyped

end Tree

namespace StatementTree

/-- The name that a leaf with a given number stands for. -/
def nameOf (id : NodeId) (leaf : LeafAt) : Except Fault String :=
  match leaf.content with
  | .identifier name => .ok name
  | _ => .error (.ofInternal (.notAnIdentifier id) leaf.position)

/-- The type that a leaf with a given number names. -/
def keywordTy (id : NodeId) (leaf : LeafAt) : Except Fault Ty :=
  match leaf.content with
  | .typeKeyword ty => .ok ty
  | _ => .error (.ofInternal (.notATypeKeyword id) leaf.position)

/-- The type that a declaration gives its variable, and whether it gives a value as well. -/
def declaredTy
    (start : Nat) (symbols : SymbolTable) (name : String) (position : Position)
    (typeKeyword : Option LeafAt) (expression : Option Tree) : Except Fault (Ty × Bool) :=
  match typeKeyword, expression with
  | some typeKeyword, some expression => do
      let declared ← keywordTy (start + 1) typeKeyword
      let inferred ← expression.typeIn symbols
      if declared = inferred then return (declared, true)
      else throw (.ofType (.declarationMismatch name declared inferred) expression.position)
  | none, some expression => return (← expression.typeIn symbols, true)
  | some typeKeyword, none => return (← keywordTy (start + 1) typeKeyword, false)
  | none, none => throw (.ofInternal (.bareDeclaration name) position)

/-- The symbols after a declaration of one more. -/
def declare (symbols : SymbolTable) (symbol : Symbol) (position : Position) :
    Except Fault SymbolTable :=
  match symbols.register symbol with
  | .ok extended => .ok extended
  | .error issue => .error (.report ⟨issue, position⟩)

/-- The symbols after a statement whose first node has number `start`. -/
def check (start : Nat) (symbols : SymbolTable) : StatementTree -> Except Fault SymbolTable
  | .declaration position identifier typeKeyword expression => do
      let name ← nameOf start identifier
      let (ty, initialized) ← declaredTy start symbols name position typeKeyword expression
      declare symbols ⟨name, ty, initialized, position.line⟩ position
  | .assignment _ identifier expression => do
      let name ← nameOf start identifier
      let symbol ← symbols.resolve name identifier.position
      let inferred ← expression.typeIn symbols
      if symbol.ty = inferred then return symbols.markInitialized name
      else throw (.ofType (.assignmentMismatch name symbol.ty inferred) expression.position)
  | .input _ identifier => do
      let name ← nameOf start identifier
      let _ ← symbols.resolve name identifier.position
      return symbols.markInitialized name
  | .output _ expression => do
      let _ ← expression.typeIn symbols
      return symbols

/-- Whether the check of a statement comes to its expression. -/
def reachesExpression (start : Nat) (symbols : SymbolTable) : StatementTree -> Bool
  | .declaration _ identifier typeKeyword _ =>
      (nameOf start identifier).isOk &&
        typeKeyword.all fun leaf => (keywordTy (start + 1) leaf).isOk
  | .assignment _ identifier _ =>
      match nameOf start identifier with
      | .ok name => (symbols.resolve name identifier.position).isOk
      | .error _ => false
  | .input _ _ => false
  | .output _ _ => true

/-- What the check of a statement reports. -/
def events (start : Nat) (symbols : SymbolTable) : StatementTree -> Log
  | .declaration position identifier typeKeyword expression =>
      match nameOf start identifier with
      | .error _ => []
      | .ok name =>
          match declaredTy start symbols name position typeKeyword expression with
          | .error _ => []
          | .ok (ty, _) => [.declaring name ty 0]
  | .assignment .. => []
  | .input .. => []
  | .output .. => []

/-- The symbols after statements whose first node has number `start`. -/
def checkAll (start : Nat) (symbols : SymbolTable) :
    List StatementTree -> Except Fault SymbolTable
  | [] => .ok symbols
  | first :: rest => do
      let next ← first.check start symbols
      checkAll (start + first.descendants + 1) next rest

end StatementTree
end ScriptLang
