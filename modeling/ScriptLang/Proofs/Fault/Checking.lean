import ScriptLang.Proofs.Fault.Sorts
import ScriptLang.Proofs.Typing.Checker

/-!
# Faults of checking

The check of well-formed statements finds undeclared and uninitialized names, names
that are declared twice, and wrong types, and nothing else.
-/

namespace ScriptLang

open Source (Position)
open Fault (IsFinding)

namespace SymbolTable

theorem resolve_yields (symbols : SymbolTable) (name : String) (position : Position) :
    Yields (fun _ => True) IsFinding (symbols.resolve name position) := by
  unfold resolve
  split
  · trivial
  · exact .undeclared name position

end SymbolTable

namespace Leaf

theorem typeIn_yields
    {content : Leaf}
    (symbols : SymbolTable) (position : Position)
    (notType : ∀ ty, content ≠ .typeKeyword ty) :
    Yields (fun _ => True) IsFinding (content.typeIn symbols position) := by
  cases content with
  | literal value => trivial
  | typeKeyword ty => exact absurd rfl (notType ty)
  | identifier name =>
      refine .bind (symbols.resolve_yields name position) ?_
      intro symbol _
      split
      · trivial
      · exact .uninitialized name position

end Leaf

theorem reportAt_yields (position : Position) (result : Except TypeCause Ty) :
    Yields (fun _ => True) IsFinding (Typing.reportAt position result) := by
  cases result with
  | ok ty => trivial
  | error cause => exact .type cause position

namespace Tree

/-- The check of an expression fails with findings only. -/
theorem typeIn_yields
    {good : Leaf -> Prop} {tree : Tree}
    (symbols : SymbolTable)
    (wellFormed : tree.WellFormed good) :
    Yields (fun _ => True) IsFinding (tree.typeIn symbols) := by
  replace wellFormed := wellFormed.1
  induction tree with
  | leaf content position => exact content.typeIn_yields symbols position wellFormed.1
  | unary operator position operand inductionHypothesis =>
      refine .bind (inductionHypothesis wellFormed) ?_
      intro ty _
      exact reportAt_yields position _
  | binary operator position left right leftHypothesis rightHypothesis =>
      refine .bind (leftHypothesis wellFormed.1) ?_
      intro leftTy _
      refine .bind (rightHypothesis wellFormed.2) ?_
      intro rightTy _
      exact reportAt_yields position _

end Tree

namespace StatementTree

theorem nameOf_yields
    {leaf : LeafAt}
    (id : NodeId)
    (isName : leaf.IsName) :
    Yields (fun _ => True) IsFinding (nameOf id leaf) := by
  obtain ⟨name, content⟩ := isName
  rw [nameOf, content]
  trivial

theorem keywordTy_yields
    {leaf : LeafAt}
    (id : NodeId)
    (isType : leaf.IsType) :
    Yields (fun _ => True) IsFinding (keywordTy id leaf) := by
  obtain ⟨ty, content⟩ := isType
  rw [keywordTy, content]
  trivial

theorem declaredTy_yields
    {good : Leaf -> Prop} {typeKeyword : Option LeafAt} {expression : Option Tree}
    (start : Nat) (symbols : SymbolTable) (name : String) (position : Position)
    (isType : ∀ leaf ∈ typeKeyword, leaf.IsType)
    (wellFormed : ∀ tree ∈ expression, tree.WellFormed good)
    (typed : typeKeyword.isSome ∨ expression.isSome) :
    Yields (fun _ => True) IsFinding
      (declaredTy start symbols name position typeKeyword expression) := by
  cases typeKeyword with
  | none =>
      cases expression with
      | none => simp at typed
      | some tree =>
          refine .bind (tree.typeIn_yields symbols (wellFormed tree rfl)) ?_
          intro ty _
          trivial
  | some leaf =>
      have keyword := keywordTy_yields (start + 1) (isType leaf rfl)
      cases expression with
      | none =>
          refine .bind keyword ?_
          intro ty _
          trivial
      | some tree =>
          refine .bind keyword ?_
          intro declared _
          refine .bind (tree.typeIn_yields symbols (wellFormed tree rfl)) ?_
          intro inferred _
          split
          · trivial
          · exact .type _ _

theorem declare_yields (symbols : SymbolTable) (symbol : Symbol) (position : Position) :
    Yields (fun _ => True) IsFinding (declare symbols symbol position) := by
  unfold declare
  cases found : symbols.get? symbol.identifier with
  | none =>
      rw [SymbolTable.register_of_get?_eq_none found]
      trivial
  | some first =>
      rw [SymbolTable.register_of_get?_eq_some found]
      exact .duplicate _ _ _

/-- The check of a statement fails with findings only. -/
theorem check_yields
    {good : Leaf -> Prop} {statement : StatementTree}
    (start : Nat) (symbols : SymbolTable)
    (wellFormed : statement.WellFormed good) :
    Yields (fun _ => True) IsFinding (statement.check start symbols) := by
  cases statement with
  | declaration position identifier typeKeyword expression =>
      obtain ⟨⟨isName, _⟩, isType, expressionWellFormed, typed⟩ := wellFormed
      refine .bind (nameOf_yields start isName) ?_
      intro name _
      refine .bind (declaredTy_yields _ _ _ _ isType expressionWellFormed typed) ?_
      intro declared _
      exact declare_yields symbols _ position
  | assignment position identifier tree =>
      obtain ⟨⟨isName, _⟩, expressionWellFormed⟩ := wellFormed
      refine .bind (nameOf_yields start isName) ?_
      intro name _
      refine .bind (symbols.resolve_yields name identifier.position) ?_
      intro symbol _
      refine .bind (tree.typeIn_yields symbols expressionWellFormed) ?_
      intro inferred _
      split
      · trivial
      · exact .type _ _
  | input position identifier =>
      obtain ⟨isName, _⟩ := wellFormed
      refine .bind (nameOf_yields start isName) ?_
      intro name _
      refine .bind (symbols.resolve_yields name identifier.position) ?_
      intro symbol _
      trivial
  | output position tree =>
      refine .bind (tree.typeIn_yields symbols wellFormed) ?_
      intro ty _
      trivial

/-- The check of statements fails with findings only. -/
theorem checkAll_yields
    {good : Leaf -> Prop} {statements : List StatementTree}
    (start : Nat) (symbols : SymbolTable)
    (wellFormed : ∀ statement ∈ statements, statement.WellFormed good) :
    Yields (fun _ => True) IsFinding (checkAll start symbols statements) := by
  induction statements generalizing start symbols with
  | nil => trivial
  | cons first rest inductionHypothesis =>
      obtain ⟨firstWellFormed, restWellFormed⟩ := List.forall_mem_cons.mp wellFormed
      refine .bind (check_yields start symbols firstWellFormed) ?_
      intro next _
      exact inductionHypothesis _ next restWellFormed

end StatementTree
end ScriptLang
