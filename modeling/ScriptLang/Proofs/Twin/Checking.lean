import ScriptLang.Proofs.Twin.Relation
import ScriptLang.Proofs.Typing.Checker

/-!
# Checking twins

The check of twin statements with twin symbols leaves twin symbols or fails with
twin faults.  The line of a first declaration in a report is that of the place of
this declaration.
-/

namespace ScriptLang

open Source (Position)

variable {same : Position -> Position -> Prop}

namespace Symbol.Twin

variable {symbol other : Symbol}

theorem identifier_eq
    (twin : Symbol.Twin same symbol other) :
    symbol.identifier = other.identifier := by
  cases twin
  rfl

theorem ty_eq
    (twin : Symbol.Twin same symbol other) :
    symbol.ty = other.ty := by
  cases twin
  rfl

theorem initialized_eq
    (twin : Symbol.Twin same symbol other) :
    symbol.initialized = other.initialized := by
  cases twin
  rfl

theorem giveValue
    (twin : Symbol.Twin same symbol other) :
    Symbol.Twin same symbol.giveValue other.giveValue := by
  cases twin with
  | intro identifier ty initialized samePlace => exact .intro identifier ty true samePlace

end Symbol.Twin

namespace SymbolTable

variable {symbols others : SymbolTable}

theorem twin_empty : SymbolTable.Twin same empty empty := fun _ => .none

theorem Twin.markInitialized
    (twin : SymbolTable.Twin same symbols others)
    (name : String) :
    SymbolTable.Twin same (symbols.markInitialized name) (others.markInitialized name) := by
  intro identifier
  have found := twin identifier
  rw [get?_markInitialized, get?_markInitialized]
  split
  · revert found
    rcases symbols.get? identifier with _ | symbol <;> rcases others.get? identifier with _ | other
    · exact id
    · rintro ⟨⟩
    · rintro ⟨⟩
    · rintro ⟨symbolTwin⟩
      exact .some symbolTwin.giveValue
  · exact found

theorem Twin.insert
    {symbol other : Symbol}
    (twin : SymbolTable.Twin same symbols others)
    (symbolTwin : Symbol.Twin same symbol other)
    (fresh : symbols.get? symbol.identifier = none)
    (otherFresh : others.get? other.identifier = none) :
    SymbolTable.Twin same (symbols.insert symbol fresh) (others.insert other otherFresh) := by
  intro identifier
  rw [get?_insert, get?_insert, symbolTwin.identifier_eq]
  split
  · exact .some symbolTwin
  · exact twin identifier

theorem Twin.resolve
    {position other : Position}
    (twin : SymbolTable.Twin same symbols others)
    (name : String)
    (samePlace : same position other) :
    TwinResults same (Symbol.Twin same) (symbols.resolve name position)
      (others.resolve name other) := by
  have found := twin name
  unfold SymbolTable.resolve
  revert found
  rcases symbols.get? name with _ | symbol <;> rcases others.get? name with _ | otherSymbol
  · exact fun _ => .error (.report (.undeclared name) samePlace)
  · rintro ⟨⟩
  · rintro ⟨⟩
  · rintro ⟨symbolTwin⟩
    exact .ok symbolTwin

end SymbolTable

section

variable {symbols others : SymbolTable} {position other : Position}

theorem Leaf.typeIn_twin
    (content : Leaf)
    (twin : SymbolTable.Twin same symbols others)
    (samePlace : same position other) :
    TwinResults same Eq (content.typeIn symbols position) (content.typeIn others other) := by
  cases content with
  | literal value => exact .ok rfl
  | typeKeyword ty => exact .ofInternal (.unplaced _) samePlace
  | identifier name =>
      refine .bind (twin.resolve name samePlace) ?_
      intro symbol otherSymbol symbolTwin
      rw [symbolTwin.initialized_eq]
      split
      · exact .ok symbolTwin.ty_eq
      · exact .error (.report (.uninitialized name) samePlace)

theorem reportAt_twin
    (result : Except TypeCause Ty)
    (samePlace : same position other) :
    TwinResults same Eq (Typing.reportAt position result) (Typing.reportAt other result) := by
  cases result with
  | ok ty => exact .ok rfl
  | error cause => exact .ofType cause samePlace

/-- Twin expressions have the same type. -/
theorem Tree.typeIn_twin
    {tree otherTree : Tree}
    (twin : SymbolTable.Twin same symbols others)
    (trees : Tree.Twin same tree otherTree) :
    TwinResults same Eq (tree.typeIn symbols) (otherTree.typeIn others) := by
  induction trees with
  | leaf content samePlace => exact content.typeIn_twin twin samePlace
  | unary operator samePlace operands inductionHypothesis =>
      refine .bind inductionHypothesis ?_
      rintro ty _ rfl
      exact reportAt_twin _ samePlace
  | binary operator samePlace lefts rights leftHypothesis rightHypothesis =>
      refine .bind leftHypothesis ?_
      rintro leftTy _ rfl
      refine .bind rightHypothesis ?_
      rintro rightTy _ rfl
      exact reportAt_twin _ samePlace

end

namespace StatementTree

variable {symbols others : SymbolTable} {position other : Position}

theorem nameOf_twin
    {leaf otherLeaf : LeafAt}
    (id : NodeId)
    (leaves : LeafAt.Twin same leaf otherLeaf) :
    TwinResults same Eq (nameOf id leaf) (nameOf id otherLeaf) := by
  cases leaves with
  | intro content samePlace =>
      cases content with
      | identifier name => exact .ok rfl
      | literal value => exact .ofInternal (.unplaced _) samePlace
      | typeKeyword ty => exact .ofInternal (.unplaced _) samePlace

theorem keywordTy_twin
    {leaf otherLeaf : LeafAt}
    (id : NodeId)
    (leaves : LeafAt.Twin same leaf otherLeaf) :
    TwinResults same Eq (keywordTy id leaf) (keywordTy id otherLeaf) := by
  cases leaves with
  | intro content samePlace =>
      cases content with
      | typeKeyword ty => exact .ok rfl
      | identifier name => exact .ofInternal (.unplaced _) samePlace
      | literal value => exact .ofInternal (.unplaced _) samePlace

theorem declaredTy_twin
    {typeKeyword otherTypeKeyword : Option LeafAt} {expression otherExpression : Option Tree}
    (start : Nat) (name : String)
    (twin : SymbolTable.Twin same symbols others)
    (samePlace : same position other)
    (typeKeywords : Option.Rel (LeafAt.Twin same) typeKeyword otherTypeKeyword)
    (expressions : Option.Rel (Tree.Twin same) expression otherExpression) :
    TwinResults same Eq (declaredTy start symbols name position typeKeyword expression)
      (declaredTy start others name other otherTypeKeyword otherExpression) := by
  cases typeKeywords with
  | none =>
      cases expressions with
      | none => exact .ofInternal (.unplaced _) samePlace
      | some trees =>
          refine .bind (Tree.typeIn_twin twin trees) ?_
          rintro ty _ rfl
          exact .ok rfl
  | some leaves =>
      have keywords := keywordTy_twin (start + 1) leaves
      cases expressions with
      | none =>
          refine .bind keywords ?_
          rintro ty _ rfl
          exact .ok rfl
      | some trees =>
          refine .bind keywords ?_
          rintro declared _ rfl
          refine .bind (Tree.typeIn_twin twin trees) ?_
          rintro inferred _ rfl
          split
          · exact .ok rfl
          · exact .ofType _ trees.position

theorem declare_twin
    {symbol otherSymbol : Symbol}
    (twin : SymbolTable.Twin same symbols others)
    (symbolTwin : Symbol.Twin same symbol otherSymbol)
    (samePlace : same position other) :
    TwinResults same (SymbolTable.Twin same) (declare symbols symbol position)
      (declare others otherSymbol other) := by
  have found := twin symbol.identifier
  unfold declare
  rcases isFound : symbols.get? symbol.identifier with _ | first <;>
    rcases otherFound : others.get? otherSymbol.identifier with _ | otherFirst <;>
    rw [isFound, symbolTwin.identifier_eq, otherFound] at found
  · rw [SymbolTable.register_of_get?_eq_none isFound,
      SymbolTable.register_of_get?_eq_none otherFound]
    exact .ok (twin.insert symbolTwin isFound otherFound)
  · cases found
  · cases found
  · rw [SymbolTable.register_of_get?_eq_some isFound,
      SymbolTable.register_of_get?_eq_some otherFound, symbolTwin.identifier_eq]
    cases found with
    | some firstTwin =>
        cases firstTwin with
        | intro identifier ty initialized sameFirst =>
            exact .error (.report (.duplicate _ sameFirst) samePlace)

/-- Twin statements are checked in the same way. -/
theorem check_twin
    {statement otherStatement : StatementTree}
    (start : Nat)
    (twin : SymbolTable.Twin same symbols others)
    (statements : StatementTree.Twin same statement otherStatement) :
    TwinResults same (SymbolTable.Twin same) (statement.check start symbols)
      (otherStatement.check start others) := by
  cases statements with
  | declaration samePlace identifiers typeKeywords expressions =>
      refine .bind (nameOf_twin start identifiers) ?_
      rintro name _ rfl
      refine .bind (declaredTy_twin start name twin samePlace typeKeywords expressions) ?_
      rintro ⟨ty, initialized⟩ _ rfl
      exact declare_twin twin (.intro name ty initialized samePlace) samePlace
  | assignment samePlace identifiers expressions =>
      refine .bind (nameOf_twin start identifiers) ?_
      rintro name _ rfl
      refine .bind (twin.resolve name identifiers.position) ?_
      intro symbol otherSymbol symbolTwin
      refine .bind (Tree.typeIn_twin twin expressions) ?_
      rintro inferred _ rfl
      rw [symbolTwin.ty_eq]
      split
      · exact .ok (twin.markInitialized name)
      · exact .ofType _ expressions.position
  | input samePlace identifiers =>
      refine .bind (nameOf_twin start identifiers) ?_
      rintro name _ rfl
      refine .bind (twin.resolve name identifiers.position) ?_
      intro symbol otherSymbol symbolTwin
      exact .ok (twin.markInitialized name)
  | output samePlace expressions =>
      refine .bind (Tree.typeIn_twin twin expressions) ?_
      rintro ty _ rfl
      exact .ok twin

/-- Twin statements are checked one after the other in the same way. -/
theorem checkAll_twin
    {statements otherStatements : List StatementTree}
    (start : Nat)
    (twin : SymbolTable.Twin same symbols others)
    (twins : List.Forall₂ (StatementTree.Twin same) statements otherStatements) :
    TwinResults same (SymbolTable.Twin same) (checkAll start symbols statements)
      (checkAll start others otherStatements) := by
  induction twins generalizing start symbols others with
  | nil => exact .ok twin
  | cons first rest inductionHypothesis =>
      refine .bind (check_twin start twin first) ?_
      intro next otherNext nextTwin
      rw [first.descendants_eq]
      exact inductionHypothesis _ nextTwin

end StatementTree
end ScriptLang
