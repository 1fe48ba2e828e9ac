import ScriptLang.Proofs.Program.Unplaced
import ScriptLang.Proofs.Typing.Refinement

/-!
# Checking without places

The check of statements does not depend on places: without their places they are
accepted with the same types and the same symbols, or refused with the same fault.
-/

namespace ScriptLang

open Source (Position nowhere)

/-- An issue without the line that it names. -/
def Issue.unplaced : Issue -> Issue
  | .duplicate identifier _ => .duplicate identifier nowhere.line
  | issue => issue

/-- A fault without its place. -/
def Fault.unplaced : Fault -> Fault
  | .report diagnostic => .report ⟨diagnostic.issue.unplaced, nowhere⟩
  | fault => fault

variable {α β γ δ : Type}

/-- A result whose value is changed, without the place of its fault. -/
def forgetting (change : α -> β) : Except Fault α -> Except Fault β
  | .ok value => .ok (change value)
  | .error fault => .error fault.unplaced

@[simp] theorem forgetting_ok (change : α -> β) (value : α) :
    forgetting change (.ok value) = .ok (change value) := rfl

@[simp] theorem forgetting_error (change : α -> β) (fault : Fault) :
    forgetting change (.error fault) = .error fault.unplaced := rfl

/-- Places may be forgotten after every step. -/
theorem forgetting_bind
    {change : α -> β} {laterChange : γ -> δ}
    {first : Except Fault α} {next : α -> Except Fault γ}
    {otherFirst : Except Fault β} {otherNext : β -> Except Fault δ}
    (firstAgrees : otherFirst = forgetting change first)
    (nextAgrees : ∀ value, otherNext (change value) = forgetting laterChange (next value)) :
    (otherFirst >>= otherNext) = forgetting laterChange (first >>= next) := by
  rw [firstAgrees]
  cases first with
  | error fault => rfl
  | ok value => exact nextAgrees value

namespace SymbolTable

theorem resolve_unplaced
    (symbols : SymbolTable) (name : String) (position : Position) :
    symbols.unplaced.resolve name nowhere =
      forgetting Symbol.unplaced (symbols.resolve name position) := by
  unfold resolve
  rw [get?_unplaced]
  cases symbols.get? name <;> rfl

theorem register_unplaced (symbols : SymbolTable) (symbol : Symbol) :
    symbols.unplaced.register symbol.unplaced =
      match symbols.register symbol with
      | .ok extended => .ok extended.unplaced
      | .error issue => .error issue.unplaced := by
  have looked : symbols.unplaced.get? symbol.unplaced.identifier = _ :=
    get?_unplaced symbols symbol.identifier
  cases found : symbols.get? symbol.identifier with
  | some first =>
      rw [found] at looked
      rw [register_of_get?_eq_some found, register_of_get?_eq_some looked]
      rfl
  | none =>
      rw [found] at looked
      rw [register_of_get?_eq_none found, register_of_get?_eq_none looked]
      apply congrArg Except.ok
      apply eq_of_symbols_eq
      exact (unplaced_insertInto symbol symbols.symbols).symm

end SymbolTable

theorem Leaf.typeIn_unplaced (symbols : SymbolTable) (content : Leaf) (position : Position) :
    content.typeIn symbols.unplaced nowhere =
      forgetting id (content.typeIn symbols position) := by
  cases content with
  | literal value => rfl
  | typeKeyword ty => rfl
  | identifier name =>
      apply forgetting_bind (symbols.resolve_unplaced name position)
      intro symbol
      have same : symbol.unplaced.initialized = symbol.initialized := rfl
      rw [same]
      split <;> rfl

theorem reportAt_unplaced (position : Position) (result : Except TypeCause Ty) :
    Typing.reportAt nowhere result = forgetting id (Typing.reportAt position result) := by
  cases result <;> rfl

namespace Tree

/-- The type of a tree does not depend on places. -/
theorem typeIn_unplaced (symbols : SymbolTable) (tree : Tree) :
    tree.unplaced.typeIn symbols.unplaced = forgetting id (tree.typeIn symbols) := by
  induction tree with
  | leaf content position => exact Leaf.typeIn_unplaced symbols content position
  | unary operator position operand inductionHypothesis =>
      apply forgetting_bind inductionHypothesis
      intro ty
      exact reportAt_unplaced position _
  | binary operator position left right leftHypothesis rightHypothesis =>
      apply forgetting_bind leftHypothesis
      intro leftTy
      apply forgetting_bind rightHypothesis
      intro rightTy
      exact reportAt_unplaced position _

theorem agrees_typing (symbols : SymbolTable) :
    Agrees (typing symbols) (typing symbols.unplaced) := by
  intro tree
  unfold typing
  rw [typeIn_unplaced]
  cases tree.typeIn symbols <;> rfl

end Tree

namespace StatementTree

theorem nameOf_unplaced (id : NodeId) (leaf : LeafAt) :
    nameOf id leaf.unplaced = forgetting (fun name => name) (nameOf id leaf) := by
  unfold nameOf LeafAt.unplaced
  cases leaf.content <;> rfl

theorem keywordTy_unplaced (id : NodeId) (leaf : LeafAt) :
    keywordTy id leaf.unplaced = forgetting (fun ty => ty) (keywordTy id leaf) := by
  unfold keywordTy LeafAt.unplaced
  cases leaf.content <;> rfl

theorem declaredTy_unplaced
    (start : Nat) (symbols : SymbolTable) (name : String) (position : Position)
    (typeKeyword : Option LeafAt) (expression : Option Tree) :
    declaredTy start symbols.unplaced name nowhere (typeKeyword.map LeafAt.unplaced)
        (expression.map Tree.unplaced) =
      forgetting (fun declared => declared)
        (declaredTy start symbols name position typeKeyword expression) := by
  cases typeKeyword with
  | none =>
      cases expression with
      | none => rfl
      | some tree =>
          apply forgetting_bind (tree.typeIn_unplaced symbols)
          intro ty
          rfl
  | some leaf =>
      cases expression with
      | none =>
          apply forgetting_bind (keywordTy_unplaced _ leaf)
          intro ty
          rfl
      | some tree =>
          apply forgetting_bind (keywordTy_unplaced _ leaf)
          intro declared
          apply forgetting_bind (tree.typeIn_unplaced symbols)
          intro inferred
          rw [Tree.position_unplaced]
          simp only [id]
          split <;> rfl

theorem declare_unplaced (symbols : SymbolTable) (symbol : Symbol) (position : Position) :
    declare symbols.unplaced symbol.unplaced nowhere =
      forgetting SymbolTable.unplaced (declare symbols symbol position) := by
  unfold declare
  rw [SymbolTable.register_unplaced]
  cases symbols.register symbol <;> rfl

/-- The check of a statement does not depend on places. -/
theorem check_unplaced (start : Nat) (symbols : SymbolTable) (statement : StatementTree) :
    statement.unplaced.check start symbols.unplaced =
      forgetting SymbolTable.unplaced (statement.check start symbols) := by
  cases statement with
  | declaration position identifier typeKeyword expression =>
      apply forgetting_bind (nameOf_unplaced start identifier)
      intro name
      apply forgetting_bind
        (declaredTy_unplaced start symbols name position typeKeyword expression)
      rintro ⟨ty, initialized⟩
      exact declare_unplaced symbols ⟨name, ty, initialized, position.line⟩ position
  | assignment position identifier tree =>
      apply forgetting_bind (nameOf_unplaced start identifier)
      intro name
      apply forgetting_bind (symbols.resolve_unplaced name identifier.position)
      intro symbol
      apply forgetting_bind (tree.typeIn_unplaced symbols)
      intro inferred
      have same : symbol.unplaced.ty = symbol.ty := rfl
      rw [same, ← SymbolTable.unplaced_markInitialized, Tree.position_unplaced]
      simp only [id]
      split <;> rfl
  | input position identifier =>
      apply forgetting_bind (nameOf_unplaced start identifier)
      intro name
      apply forgetting_bind (symbols.resolve_unplaced name identifier.position)
      intro symbol
      rw [← SymbolTable.unplaced_markInitialized]
      rfl
  | output position tree =>
      apply forgetting_bind (tree.typeIn_unplaced symbols)
      intro ty
      rfl

/-- The check of statements does not depend on places. -/
theorem checkAll_unplaced
    (start : Nat) (symbols : SymbolTable) (statements : List StatementTree) :
    checkAll start symbols.unplaced (statements.map unplaced) =
      forgetting SymbolTable.unplaced (checkAll start symbols statements) := by
  induction statements generalizing start symbols with
  | nil => rfl
  | cons first rest inductionHypothesis =>
      rw [List.map_cons, checkAll, descendants_unplaced]
      apply forgetting_bind (check_unplaced start symbols first)
      intro next
      exact inductionHypothesis _ next

/-- The types of statements do not depend on places. -/
theorem agree_typedAll
    (start : Nat) (symbols : SymbolTable) (statements : List StatementTree) :
    List.Forall₂ Tagged.Agrees (typedAll start symbols statements)
      (typedAll start symbols.unplaced (statements.map unplaced)) := by
  induction statements generalizing start symbols with
  | nil => exact .nil
  | cons first rest inductionHypothesis =>
      rw [List.map_cons, typedAll, typedAll, descendants_unplaced, check_unplaced]
      have next : (forgetting SymbolTable.unplaced (first.check start symbols)).toOption.getD
            symbols.unplaced =
          ((first.check start symbols).toOption.getD symbols).unplaced := by
        cases first.check start symbols <;> rfl
      rw [next]
      exact .cons ⟨rfl, Tree.agrees_typing symbols⟩ (inductionHypothesis _ _)

end StatementTree

namespace Typing

/-- A program that is analyzed without a fault has the types and symbols of its statements
without their places. -/
theorem unplaced_analyzedProgram
    {statements : List StatementTree} {symbols : SymbolTable}
    (position : Position)
    (checked : StatementTree.checkAll 2 .empty statements = .ok symbols) :
    (analyzedProgram position statements).unplaced =
      Program.assemble nowhere symbols.unplaced
        (StatementTree.typedAll 2 .empty (statements.map StatementTree.unplaced)) := by
  rw [analyzedProgram_of_checkAll_eq_ok position checked]
  exact Program.unplaced_assemble (StatementTree.agree_typedAll 2 .empty statements) _ _

end Typing
end ScriptLang
