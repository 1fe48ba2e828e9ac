import ScriptLang.Proofs.Typing.Tags

/-!
# What comes in front of an expression

The analysis of a statement looks at its name, its type keyword and its target before
it comes to its expression.  The check of the tree of a statement fails there, in the
expression, or behind it, and in a program the parts of the statement tell whether it
fails there.
-/

namespace ScriptLang

open Source (Position)

namespace Statement

/-- The node of the name, unless the statement is an output. -/
def identifier? : Statement -> Option NodeId
  | .declaration identifier _ _ => some identifier
  | .assignment identifier _ => some identifier
  | .input identifier => some identifier
  | .output _ => none

/-- The node of the name that has to be declared already. -/
def target? : Statement -> Option NodeId
  | .assignment identifier _ => some identifier
  | .input identifier => some identifier
  | _ => none

/-- The node of the type keyword of a declaration. -/
def typeKeyword? : Statement -> Option NodeId
  | .declaration _ typeKeyword _ => typeKeyword
  | _ => none

/-- A target is the name of its statement. -/
theorem identifier?_of_target?
    {statement : Statement} {id : NodeId}
    (isTarget : statement.target? = some id) :
    statement.identifier? = some id := by
  cases statement with
  | declaration identifier typeKeyword expression => cases isTarget
  | assignment identifier expression => exact isTarget
  | input identifier => exact isTarget
  | output expression => cases isTarget

end Statement

/-- The faults of a statement whose expression has a type: that this is not the declared one, or
that the variable has been declared already. -/
inductive Fault.IsLate : Fault -> Prop
  | declarationMismatch (name : String) (declared inferred : Ty) (position : Position) :
      IsLate (.ofType (.declarationMismatch name declared inferred) position)
  | assignmentMismatch (name : String) (declared inferred : Ty) (position : Position) :
      IsLate (.ofType (.assignmentMismatch name declared inferred) position)
  | duplicate (name : String) (firstLine : Nat) (position : Position) :
      IsLate (.report ⟨.duplicate name firstLine, position⟩)

namespace Program

/-- What stops a statement in front of its expression: its target is not declared, or its parts
are not what its form calls for. -/
inductive Unready (program : Program) (symbols : SymbolTable) (id : NodeId) : Fault -> Prop
  | target
      (statement : Statement) (identifier : NodeId) (node : Node) (name : String)
      (isStatement : program.kind? id = some (.statement statement))
      (isTarget : statement.target? = some identifier)
      (isNode : program.node? identifier = some node)
      (isName : node.kind = .leaf (.identifier name))
      (undeclared : symbols.get? name = none) :
      Unready program symbols id (.report ⟨.undeclared name, node.position⟩)
  | name
      (statement : Statement) (identifier : NodeId) (node : Node)
      (isStatement : program.kind? id = some (.statement statement))
      (isIdentifier : statement.identifier? = some identifier)
      (isNode : program.node? identifier = some node)
      (noName : ∀ name, node.kind ≠ .leaf (.identifier name)) :
      Unready program symbols id (.ofInternal (.notAnIdentifier identifier) node.position)
  | keyword
      (statement : Statement) (keyword : NodeId) (node : Node)
      (isStatement : program.kind? id = some (.statement statement))
      (isKeyword : statement.typeKeyword? = some keyword)
      (isNode : program.node? keyword = some node)
      (noType : ∀ ty, node.kind ≠ .leaf (.typeKeyword ty)) :
      Unready program symbols id (.ofInternal (.notATypeKeyword keyword) node.position)
  | bare
      (identifier : NodeId) (name : String) (position : Position)
      (isStatement : program.kind? id = some (.statement (.declaration identifier none none))) :
      Unready program symbols id (.ofInternal (.bareDeclaration name) position)

end Program

/-! ## Checks of trees -/

namespace StatementTree

/-- The part of a declaration that comes before its expression and behind its name. -/
def prepareTy (start : Nat) (name : String) (position : Position) :
    Option LeafAt -> Option Tree -> Except Fault Unit
  | some keyword, _ => (keywordTy (start + 1) keyword).map fun _ => ()
  | none, some _ => .ok ()
  | none, none => .error (.ofInternal (.bareDeclaration name) position)

/-- The part of the check of a statement that comes before its expression. -/
def prepare (start : Nat) (symbols : SymbolTable) : StatementTree -> Except Fault Unit
  | .declaration position identifier typeKeyword expression => do
      let name ← nameOf start identifier
      prepareTy start name position typeKeyword expression
  | .assignment _ identifier _ => do
      let name ← nameOf start identifier
      (symbols.resolve name identifier.position).map fun _ => ()
  | .input _ identifier => do
      let name ← nameOf start identifier
      (symbols.resolve name identifier.position).map fun _ => ()
  | .output _ _ => .ok ()

variable {symbols : SymbolTable} {start : Nat} {fault : Fault}

section

variable {name : String} {position : Position} {typeKeyword : Option LeafAt}
  {expression : Option Tree}

/-- A declaration that gets its type has come to its expression, which has one. -/
theorem prepareTy_of_declaredTy_eq_ok
    {result : Ty × Bool}
    (declared : declaredTy start symbols name position typeKeyword expression = .ok result) :
    prepareTy start name position typeKeyword expression = .ok () ∧
      ∀ tree ∈ expression, ∃ ty, tree.typeIn symbols = .ok ty := by
  cases expression with
  | none =>
      cases typeKeyword with
      | none => cases declared
      | some keyword =>
          obtain ⟨ty, isKeyword, _⟩ := (bind_eq_ok_iff _ _ _).mp declared
          refine ⟨?_, fun tree isTree => by cases isTree⟩
          rw [prepareTy, isKeyword]
          rfl
  | some tree =>
      obtain ⟨keywords, typed⟩ := exists_typeIn_of_declaredTy declared
      refine ⟨?_, ?_⟩
      · cases typeKeyword with
        | none => rfl
        | some keyword =>
            obtain ⟨ty, isKeyword, _⟩ := (bind_eq_ok_iff _ _ _).mp declared
            rw [prepareTy, isKeyword]
            rfl
      · rintro _ ⟨⟩
        exact typed

/-- A declaration that gets no type fails in front of its expression, in it, or because its type
is not the declared one. -/
theorem cases_of_declaredTy_eq_error
    (failed : declaredTy start symbols name position typeKeyword expression = .error fault) :
    prepareTy start name position typeKeyword expression = .error fault ∨
    prepareTy start name position typeKeyword expression = .ok () ∧
      ∃ tree, expression = some tree ∧
        (tree.typeIn symbols = .error fault ∨
          fault.IsLate ∧ ∃ ty, tree.typeIn symbols = .ok ty) := by
  cases typeKeyword with
  | none =>
      cases expression with
      | none => exact .inl (congrArg Except.error (Except.error.inj failed))
      | some tree =>
          refine .inr ⟨rfl, tree, rfl, ?_⟩
          rcases (bind_eq_error_iff _ _ _).mp failed with untyped | ⟨ty, typed, done⟩
          · exact .inl untyped
          · cases done
  | some keyword =>
      rw [prepareTy]
      cases expression with
      | none =>
          rcases (bind_eq_error_iff _ _ _).mp failed with noKeyword | ⟨ty, isKeyword, done⟩
          · rw [noKeyword]
            exact .inl rfl
          · cases done
      | some tree =>
          rcases (bind_eq_error_iff _ _ _).mp failed with noKeyword | ⟨declared, isKeyword, rest⟩
          · rw [noKeyword]
            exact .inl rfl
          · rw [isKeyword]
            refine .inr ⟨rfl, tree, rfl, ?_⟩
            rcases (bind_eq_error_iff _ _ _).mp rest with untyped | ⟨inferred, typed, mismatch⟩
            · exact .inl untyped
            · split at mismatch
              · cases mismatch
              · cases mismatch
                exact .inr ⟨.declarationMismatch .., inferred, typed⟩

/-- A variable that has been declared already is reported behind the expression. -/
theorem isLate_of_declare
    {symbol : Symbol}
    (failed : declare symbols symbol position = .error fault) :
    fault.IsLate := by
  unfold declare at failed
  cases found : symbols.get? symbol.identifier with
  | none =>
      rw [SymbolTable.register_of_get?_eq_none found] at failed
      cases failed
  | some first =>
      rw [SymbolTable.register_of_get?_eq_some found] at failed
      cases failed
      exact .duplicate ..

end

variable {statement : StatementTree}

/-- A statement fails in front of its expression, in its expression, or behind it. -/
theorem cases_of_check
    (failed : statement.check start symbols = .error fault) :
    statement.prepare start symbols = .error fault ∨
    statement.prepare start symbols = .ok () ∧
      ((∃ tree, statement.expression? = some tree ∧ tree.typeIn symbols = .error fault) ∨
        fault.IsLate ∧
          ∀ tree ∈ statement.expression?, ∃ ty, tree.typeIn symbols = .ok ty) := by
  cases statement with
  | declaration position identifier typeKeyword expression =>
      rw [prepare]
      rcases (bind_eq_error_iff _ _ _).mp failed with noName | ⟨name, named, rest⟩
      · rw [noName]
        exact .inl rfl
      · rw [named, ok_bind]
        rcases (bind_eq_error_iff _ _ _).mp rest with noTy | ⟨result, declared, declares⟩
        · rcases cases_of_declaredTy_eq_error noTy with
            unprepared | ⟨prepared, tree, isTree, untyped | ⟨late, typed⟩⟩
          · exact .inl unprepared
          · exact .inr ⟨prepared, .inl ⟨tree, isTree, untyped⟩⟩
          · refine .inr ⟨prepared, .inr ⟨late, fun other isOther => ?_⟩⟩
            obtain rfl := Option.some.inj (isTree.symm.trans isOther)
            exact typed
        · obtain ⟨prepared, typed⟩ := prepareTy_of_declaredTy_eq_ok declared
          exact .inr ⟨prepared, .inr ⟨isLate_of_declare declares, typed⟩⟩
  | assignment position identifier expression =>
      rw [prepare]
      rcases (bind_eq_error_iff _ _ _).mp failed with noName | ⟨name, named, rest⟩
      · rw [noName]
        exact .inl rfl
      · rw [named, ok_bind]
        rcases (bind_eq_error_iff _ _ _).mp rest with undeclared | ⟨symbol, resolved, last⟩
        · rw [undeclared]
          exact .inl rfl
        · rw [resolved]
          refine .inr ⟨rfl, ?_⟩
          rcases (bind_eq_error_iff _ _ _).mp last with untyped | ⟨inferred, typed, mismatch⟩
          · exact .inl ⟨expression, rfl, untyped⟩
          · split at mismatch
            · cases mismatch
            · cases mismatch
              refine .inr ⟨.assignmentMismatch .., ?_⟩
              rintro _ ⟨⟩
              exact ⟨inferred, typed⟩
  | input position identifier =>
      rw [prepare]
      rcases (bind_eq_error_iff _ _ _).mp failed with noName | ⟨name, named, rest⟩
      · rw [noName]
        exact .inl rfl
      · rw [named, ok_bind]
        rcases (bind_eq_error_iff _ _ _).mp rest with undeclared | ⟨symbol, resolved, done⟩
        · rw [undeclared]
          exact .inl rfl
        · cases done
  | output position expression =>
      refine .inr ⟨rfl, .inl ⟨expression, rfl, ?_⟩⟩
      rcases (bind_eq_error_iff _ _ _).mp failed with untyped | ⟨ty, typed, done⟩
      · exact untyped
      · cases done

/-- The check comes to the expression of a statement if nothing fails in front of it. -/
theorem reachesExpression_eq_isOk
    {tree : Tree}
    (isExpression : statement.expression? = some tree) :
    statement.reachesExpression start symbols = (statement.prepare start symbols).isOk := by
  cases statement with
  | declaration position identifier typeKeyword expression =>
      cases isExpression
      rw [reachesExpression, prepare]
      cases nameOf start identifier with
      | error fault => rfl
      | ok name =>
          cases typeKeyword with
          | none => rfl
          | some keyword =>
              rw [ok_bind, prepareTy, Option.all_some]
              cases keywordTy (start + 1) keyword <;> rfl
  | assignment position identifier expression =>
      rw [reachesExpression, prepare]
      cases nameOf start identifier with
      | error fault => rfl
      | ok name =>
          rw [ok_bind]
          dsimp only
          cases symbols.resolve name identifier.position <;> rfl
  | input position identifier => cases isExpression
  | output position expression => rfl

/-! ## What is found in front of an expression -/

theorem nameOf_eq_error
    {id : NodeId} {leaf : LeafAt} {fault : Fault}
    (failed : nameOf id leaf = .error fault) :
    fault = .ofInternal (.notAnIdentifier id) leaf.position ∧
      ∀ name, leaf.content ≠ .identifier name := by
  unfold nameOf at failed
  split at failed
  · cases failed
  · next noName => exact ⟨(Except.error.inj failed).symm, noName⟩

theorem keywordTy_eq_error
    {id : NodeId} {leaf : LeafAt} {fault : Fault}
    (failed : keywordTy id leaf = .error fault) :
    fault = .ofInternal (.notATypeKeyword id) leaf.position ∧
      ∀ ty, leaf.content ≠ .typeKeyword ty := by
  unfold keywordTy at failed
  split at failed
  · cases failed
  · next noType => exact ⟨(Except.error.inj failed).symm, noType⟩

section

variable {statement : StatementTree} {start : Nat} {symbols : SymbolTable}

/-- The name of a statement is its first leaf. -/
theorem exists_leaf_of_identifier?
    {id : NodeId}
    (isIdentifier : (statement.form start).identifier? = some id) :
    id = start ∧ ∃ leaf, statement.leaves[0]? = some leaf := by
  cases statement <;> cases isIdentifier <;> exact ⟨rfl, _, rfl⟩

/-- The type keyword of a declaration is its second leaf. -/
theorem exists_leaf_of_typeKeyword?
    {id : NodeId}
    (isKeyword : (statement.form start).typeKeyword? = some id) :
    id = start + 1 ∧ ∃ leaf, statement.leaves[1]? = some leaf := by
  cases statement with
  | declaration position identifier typeKeyword expression =>
      cases typeKeyword with
      | none => cases isKeyword
      | some keyword =>
          cases isKeyword
          exact ⟨rfl, keyword, rfl⟩
  | assignment position identifier expression => cases isKeyword
  | input position identifier => cases isKeyword
  | output position expression => cases isKeyword

variable (prepared : statement.prepare start symbols = .ok ())

include prepared

/-- A statement that is prepared has a name, which is declared if it is a target. -/
theorem exists_name_of_prepare
    {leaf : LeafAt}
    (isFirst : statement.leaves[0]? = some leaf) :
    ∃ name, leaf.content = .identifier name ∧
      ((statement.form start).target? ≠ none -> symbols.get? name ≠ none) := by
  have declared : ∀ (name : String) (position : Position),
      ((symbols.resolve name position).map fun _ => ()) = .ok () -> symbols.get? name ≠ none := by
    intro name position resolved undeclared
    rw [SymbolTable.resolve, undeclared] at resolved
    cases resolved
  cases statement with
  | declaration position identifier typeKeyword expression =>
      cases isFirst
      obtain ⟨name, named, _⟩ := (bind_eq_ok_iff _ _ _).mp prepared
      exact ⟨name, (nameAt?_of_nameOf named).1, fun isTarget => absurd rfl isTarget⟩
  | assignment position identifier expression =>
      cases isFirst
      obtain ⟨name, named, resolved⟩ := (bind_eq_ok_iff _ _ _).mp prepared
      exact ⟨name, (nameAt?_of_nameOf named).1, fun _ => declared name _ resolved⟩
  | input position identifier =>
      cases isFirst
      obtain ⟨name, named, resolved⟩ := (bind_eq_ok_iff _ _ _).mp prepared
      exact ⟨name, (nameAt?_of_nameOf named).1, fun _ => declared name _ resolved⟩
  | output position expression => cases isFirst

/-- The type keyword of a declaration that is prepared names a type. -/
theorem exists_type_of_prepare
    {leaf : LeafAt}
    (isSecond : statement.leaves[1]? = some leaf) :
    ∃ ty, leaf.content = .typeKeyword ty := by
  cases statement with
  | declaration position identifier typeKeyword expression =>
      cases typeKeyword with
      | none => cases isSecond
      | some keyword =>
          cases isSecond
          obtain ⟨name, _, rest⟩ := (bind_eq_ok_iff _ _ _).mp prepared
          cases isKeyword : keywordTy (start + 1) leaf with
          | error fault =>
              rw [prepareTy, isKeyword] at rest
              cases rest
          | ok ty =>
              unfold keywordTy at isKeyword
              split at isKeyword
              · next named => exact ⟨_, named⟩
              · cases isKeyword
  | assignment position identifier expression => cases isSecond
  | input position identifier => cases isSecond
  | output position expression => cases isSecond

/-- A declaration without a type and an expression is not prepared. -/
theorem form_ne_bare_of_prepare (identifier : NodeId) :
    statement.form start ≠ .declaration identifier none none := by
  intro isBare
  cases statement with
  | declaration position first typeKeyword expression =>
      cases typeKeyword with
      | some keyword => cases isBare
      | none =>
          cases expression with
          | some tree => cases isBare
          | none =>
              obtain ⟨name, _, rest⟩ := (bind_eq_ok_iff _ _ _).mp prepared
              cases rest
  | assignment position first expression => cases isBare
  | input position first => cases isBare
  | output position expression => cases isBare

end

end StatementTree

/-! ## Statements of programs -/

namespace Program

section

variable {program : Program} {symbols : SymbolTable} {tag : Tree.Tagging} {start : Nat}
  {parent? : Option NodeId} {statement : StatementTree} {fault : Fault}

/-- The leaves of a statement have the first numbers. -/
theorem node?_of_statement_leaf
    {index : Nat} {leaf : LeafAt}
    (holds : program.Holds start (statement.layout tag start parent?))
    (isLeaf : statement.leaves[index]? = some leaf) :
    program.node? (start + index) =
      some (leaf.node (some (start + statement.descendants))) := by
  obtain ⟨inRange, _⟩ := List.getElem?_eq_some_iff.mp isLeaf
  rw [(holds_statement holds).1 index (by rw [List.length_map]; exact inRange),
    List.getElem?_map, isLeaf]
  rfl

theorem kind?_of_statement
    (holds : program.Holds start (statement.layout tag start parent?)) :
    program.kind? (start + statement.descendants) = some (.statement (statement.form start)) :=
  kind?_of_node? (holds_statement holds).2.2

section

variable {leaf : LeafAt} (holds : program.Holds start (statement.layout tag start parent?))

include holds

theorem unready_of_nameOf
    (isFirst : statement.leaves[0]? = some leaf)
    (isIdentifier : (statement.form start).identifier? = some start)
    (failed : StatementTree.nameOf start leaf = .error fault) :
    program.Unready symbols (start + statement.descendants) fault := by
  obtain ⟨rfl, noName⟩ := StatementTree.nameOf_eq_error failed
  apply Unready.name _ start _ (kind?_of_statement holds) isIdentifier
    (node?_of_statement_leaf holds isFirst)
  intro name isName
  exact noName name (NodeKind.leaf.inj isName)

theorem unready_of_keywordTy
    (isSecond : statement.leaves[1]? = some leaf)
    (isKeyword : (statement.form start).typeKeyword? = some (start + 1))
    (failed : StatementTree.keywordTy (start + 1) leaf = .error fault) :
    program.Unready symbols (start + statement.descendants) fault := by
  obtain ⟨rfl, noType⟩ := StatementTree.keywordTy_eq_error failed
  apply Unready.keyword _ (start + 1) _ (kind?_of_statement holds) isKeyword
    (node?_of_statement_leaf holds isSecond)
  intro ty isType
  exact noType ty (NodeKind.leaf.inj isType)

theorem unready_of_resolve
    {name : String}
    (isFirst : statement.leaves[0]? = some leaf)
    (isTarget : (statement.form start).target? = some start)
    (named : StatementTree.nameOf start leaf = .ok name)
    (failed : ((symbols.resolve name leaf.position).map fun _ => ()) = .error fault) :
    program.Unready symbols (start + statement.descendants) fault := by
  have isName := (StatementTree.nameAt?_of_nameOf named).1
  cases found : symbols.get? name with
  | some symbol =>
      rw [SymbolTable.resolve, found] at failed
      cases failed
  | none =>
      rw [SymbolTable.resolve, found] at failed
      cases failed
      exact .target _ start _ name (kind?_of_statement holds) isTarget
        (node?_of_statement_leaf holds isFirst) (congrArg NodeKind.leaf isName) found

end

/-- What fails in front of the expression of a tree stops the statement there. -/
theorem unready_of_prepare
    (holds : program.Holds start (statement.layout tag start parent?))
    (failed : statement.prepare start symbols = .error fault) :
    program.Unready symbols (start + statement.descendants) fault := by
  cases statement with
  | declaration position identifier typeKeyword expression =>
      rcases (bind_eq_error_iff _ _ _).mp failed with unnamed | ⟨name, named, rest⟩
      · exact unready_of_nameOf holds rfl rfl unnamed
      · cases typeKeyword with
        | none =>
            cases expression with
            | none =>
                cases rest
                exact .bare start name position (kind?_of_statement holds)
            | some tree => cases rest
        | some keyword =>
            rw [StatementTree.prepareTy] at rest
            cases isKeyword : StatementTree.keywordTy (start + 1) keyword with
            | ok ty =>
                rw [isKeyword] at rest
                cases rest
            | error other =>
                rw [isKeyword] at rest
                cases rest
                exact unready_of_keywordTy holds rfl rfl isKeyword
  | assignment position identifier expression =>
      rcases (bind_eq_error_iff _ _ _).mp failed with unnamed | ⟨name, named, rest⟩
      · exact unready_of_nameOf holds rfl rfl unnamed
      · exact unready_of_resolve holds rfl rfl named rest
  | input position identifier =>
      rcases (bind_eq_error_iff _ _ _).mp failed with unnamed | ⟨name, named, rest⟩
      · exact unready_of_nameOf holds rfl rfl unnamed
      · exact unready_of_resolve holds rfl rfl named rest
  | output position expression => cases failed

/-- Nothing stops a statement in front of its expression if nothing fails there. -/
theorem ready_of_prepare
    (holds : program.Holds start (statement.layout tag start parent?))
    (prepared : statement.prepare start symbols = .ok ()) :
    ∀ other, ¬ program.Unready symbols (start + statement.descendants) other := by
  have sameForm : ∀ other : Statement,
      program.kind? (start + statement.descendants) = some (.statement other) ->
        statement.form start = other := by
    intro other isOther
    rw [kind?_of_statement holds] at isOther
    exact NodeKind.statement.inj (Option.some.inj isOther)
  intro other unready
  cases unready with
  | target form identifier node name isForm isTarget isNode isName undeclared =>
      obtain rfl := sameForm form isForm
      obtain ⟨rfl, leaf, isFirst⟩ :=
        StatementTree.exists_leaf_of_identifier? (Statement.identifier?_of_target? isTarget)
      obtain ⟨declared, isDeclared, found⟩ :=
        StatementTree.exists_name_of_prepare prepared isFirst
      obtain rfl := Option.some.inj ((node?_of_statement_leaf holds isFirst).symm.trans isNode)
      rw [LeafAt.node, isDeclared] at isName
      cases isName
      exact found (by rw [isTarget]; exact Option.some_ne_none _) undeclared
  | name form identifier node isForm isIdentifier isNode noName =>
      obtain rfl := sameForm form isForm
      obtain ⟨rfl, leaf, isFirst⟩ := StatementTree.exists_leaf_of_identifier? isIdentifier
      obtain ⟨name, isName, _⟩ := StatementTree.exists_name_of_prepare prepared isFirst
      obtain rfl := Option.some.inj ((node?_of_statement_leaf holds isFirst).symm.trans isNode)
      exact noName name (congrArg NodeKind.leaf isName)
  | keyword form keyword node isForm isKeyword isNode noType =>
      obtain rfl := sameForm form isForm
      obtain ⟨rfl, leaf, isSecond⟩ := StatementTree.exists_leaf_of_typeKeyword? isKeyword
      obtain ⟨ty, isType⟩ := StatementTree.exists_type_of_prepare prepared isSecond
      obtain rfl := Option.some.inj ((node?_of_statement_leaf holds isSecond).symm.trans isNode)
      exact noType ty (congrArg NodeKind.leaf isType)
  | bare identifier name position isForm =>
      exact StatementTree.form_ne_bare_of_prepare prepared identifier (sameForm _ isForm)

end

end Program
end ScriptLang
