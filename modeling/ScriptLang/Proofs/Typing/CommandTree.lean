import ScriptLang.Proofs.Program.Frontier
import ScriptLang.Proofs.Typing.Command

/-!
# Commands of trees

The command that a statement tree is, and the fact that a program in whose nodes
the tree is laid out is viewed as that command.  Every well-formed statement is a
command.
-/

namespace ScriptLang

open Source (Position)

/-- The expression that a tree is, unless a type keyword stands in it. -/
def Tree.term? : Tree -> Option Term
  | .leaf (.literal value) position => some (.literal value position)
  | .leaf (.identifier name) position => some (.reference name position)
  | .leaf (.typeKeyword _) _ => none
  | .unary operator position operand => return .unary operator position (← operand.term?)
  | .binary operator position left right =>
      return .binary operator position (← left.term?) (← right.term?)

/-- The name that a leaf is, and where it stands. -/
def LeafAt.nameAt? (leaf : LeafAt) : Option (String × Position) :=
  match leaf.content with
  | .identifier name => some (name, leaf.position)
  | _ => none

/-- The type that a leaf names. -/
def LeafAt.keyword? (leaf : LeafAt) : Option Ty :=
  match leaf.content with
  | .typeKeyword ty => some ty
  | _ => none

namespace StatementTree

/-- What a declaration with the given parts says about its variable. -/
def declared? (typeKeyword : Option LeafAt) (expression : Option Tree) : Option Declared :=
  match typeKeyword, expression with
  | some typeKeyword, some expression =>
      return .annotated (← typeKeyword.keyword?) (← expression.term?)
  | some typeKeyword, none => return .bare (← typeKeyword.keyword?)
  | none, some expression => return .inferred (← expression.term?)
  | none, none => none

/-- The command that a statement is. -/
def command? : StatementTree -> Option Command
  | .declaration position identifier typeKeyword expression => do
      let (name, _) ← identifier.nameAt?
      return .declare position name (← declared? typeKeyword expression)
  | .assignment _ identifier expression => do
      let (name, target) ← identifier.nameAt?
      return .assign name target (← expression.term?)
  | .input _ identifier => do
      let (name, target) ← identifier.nameAt?
      return .input name target
  | .output _ expression => return .output (← expression.term?)

end StatementTree

section

variable {good : Leaf -> Prop}

/-- A tree without type keywords is an expression. -/
theorem Tree.exists_term?
    {tree : Tree}
    (every : tree.Every fun content => (∀ ty, content ≠ .typeKeyword ty) ∧ good content) :
    ∃ term, tree.term? = some term := by
  induction tree with
  | leaf content position =>
      cases content with
      | identifier name => exact ⟨_, rfl⟩
      | literal value => exact ⟨_, rfl⟩
      | typeKeyword ty => exact absurd rfl (every.1 ty)
  | unary operator position operand inductionHypothesis =>
      obtain ⟨operandTerm, isTerm⟩ := inductionHypothesis every
      exact ⟨_, by rw [term?, isTerm]; rfl⟩
  | binary operator position left right leftHypothesis rightHypothesis =>
      obtain ⟨leftTerm, leftIsTerm⟩ := leftHypothesis every.1
      obtain ⟨rightTerm, rightIsTerm⟩ := rightHypothesis every.2
      exact ⟨_, by rw [term?, leftIsTerm, rightIsTerm]; rfl⟩

theorem LeafAt.nameAt?_of_isName
    {leaf : LeafAt}
    (isName : leaf.IsName) :
    ∃ name, leaf.nameAt? = some (name, leaf.position) := by
  obtain ⟨name, content⟩ := isName
  exact ⟨name, by rw [nameAt?, content]⟩

theorem LeafAt.keyword?_of_isType
    {leaf : LeafAt}
    (isType : leaf.IsType) :
    ∃ ty, leaf.keyword? = some ty := by
  obtain ⟨ty, content⟩ := isType
  exact ⟨ty, by rw [keyword?, content]⟩

namespace StatementTree

theorem exists_declared?
    {typeKeyword : Option LeafAt} {expression : Option Tree}
    (isType : ∀ leaf ∈ typeKeyword, leaf.IsType)
    (wellFormed : ∀ tree ∈ expression, tree.WellFormed good)
    (typed : typeKeyword.isSome ∨ expression.isSome) :
    ∃ declared, declared? typeKeyword expression = some declared := by
  cases typeKeyword with
  | none =>
      cases expression with
      | none => simp at typed
      | some tree =>
          obtain ⟨term, isTerm⟩ := Tree.exists_term? (wellFormed tree rfl).1
          exact ⟨.inferred term, by rw [declared?, isTerm]; rfl⟩
  | some leaf =>
      obtain ⟨ty, isKeyword⟩ := LeafAt.keyword?_of_isType (isType leaf rfl)
      cases expression with
      | none => exact ⟨.bare ty, by rw [declared?, isKeyword]; rfl⟩
      | some tree =>
          obtain ⟨term, isTerm⟩ := Tree.exists_term? (wellFormed tree rfl).1
          exact ⟨.annotated ty term, by rw [declared?, isKeyword, isTerm]; rfl⟩

/-- Every well-formed statement is a command. -/
theorem exists_command?
    {statement : StatementTree}
    (wellFormed : statement.WellFormed good) :
    ∃ command, statement.command? = some command := by
  cases statement with
  | declaration position identifier typeKeyword expression =>
      obtain ⟨⟨isName, _⟩, isType, expressionWellFormed, typed⟩ := wellFormed
      obtain ⟨name, isNameAt⟩ := LeafAt.nameAt?_of_isName isName
      obtain ⟨declared, isDeclared⟩ := exists_declared? isType expressionWellFormed typed
      exact ⟨.declare position name declared, by rw [command?, isNameAt, isDeclared]; rfl⟩
  | assignment position identifier expression =>
      obtain ⟨⟨isName, _⟩, expressionWellFormed⟩ := wellFormed
      obtain ⟨name, isNameAt⟩ := LeafAt.nameAt?_of_isName isName
      obtain ⟨term, isTerm⟩ := Tree.exists_term? expressionWellFormed.1
      exact ⟨.assign name identifier.position term, by rw [command?, isNameAt, isTerm]; rfl⟩
  | input position identifier =>
      obtain ⟨name, isNameAt⟩ := LeafAt.nameAt?_of_isName wellFormed.1
      exact ⟨.input name identifier.position, by rw [command?, isNameAt]; rfl⟩
  | output position expression =>
      obtain ⟨term, isTerm⟩ := Tree.exists_term? wellFormed.1
      exact ⟨.output term, by rw [command?, isTerm]; rfl⟩

/-- Well-formed statements are commands. -/
theorem exists_commands
    {statements : List StatementTree}
    (wellFormed : ∀ statement ∈ statements, statement.WellFormed good) :
    ∃ commands, statements.mapM command? = some commands := by
  induction statements with
  | nil => exact ⟨[], rfl⟩
  | cons first rest inductionHypothesis =>
      obtain ⟨firstWellFormed, restWellFormed⟩ := List.forall_mem_cons.mp wellFormed
      obtain ⟨command, isCommand⟩ := exists_command? firstWellFormed
      obtain ⟨others, areCommands⟩ := inductionHypothesis restWellFormed
      exact ⟨command :: others, by rw [List.mapM_cons, isCommand, areCommands]; rfl⟩

end StatementTree

end

namespace Program

variable {program : Program} {tag : Tree.Tagging} {start : Nat} {parent? : Option NodeId}

/-- An expression is read as its tree is, unless a type keyword stands in it. -/
theorem termTo?_eq_bind_treeTo? (program : Program) (depth : Nat) (id : NodeId) :
    program.termTo? depth id = (program.treeTo? depth id).bind Tree.term? := by
  induction depth generalizing id with
  | zero => rfl
  | succ depth inductionHypothesis =>
      rw [termTo?, treeTo?]
      cases program.node? id with
      | none => rfl
      | some node =>
          obtain ⟨kind, position, parent?⟩ := node
          rcases kind with _ | _ | _ | ⟨⟨operator, left, right⟩ | ⟨operator, operand⟩ | leaf, ty?⟩ |
            content
          · rfl
          · rfl
          · rfl
          · change (program.termTo? depth left >>= fun _ => program.termTo? depth right >>= _) =
              (program.treeTo? depth left >>= fun _ => program.treeTo? depth right >>= _).bind _
            rw [inductionHypothesis, inductionHypothesis]
            cases program.treeTo? depth left with
            | none => rfl
            | some leftTree =>
                cases program.treeTo? depth right with
                | none =>
                    change (leftTree.term? >>= fun _ => none) = none
                    cases leftTree.term? <;> rfl
                | some rightTree => rfl
          · change (program.termTo? depth operand >>= _) =
              (program.treeTo? depth operand >>= _).bind _
            rw [inductionHypothesis]
            cases program.treeTo? depth operand <;> rfl
          · exact inductionHypothesis leaf
          · cases content <;> rfl

/-- The expression at the top of a tree is that tree. -/
theorem term?_of_layout
    {tree : Tree}
    (holds : program.Holds start (tree.layout tag start parent?)) :
    program.term? (start + tree.descendants) = tree.term? := by
  rw [term?, termTo?_eq_bind_treeTo?, ← tree?, tree?_of_layout holds, Option.bind_some]

/-- The expression at the top of a whole expression is its tree. -/
theorem term?_of_expressionLayout
    {tree : Tree}
    (holds : program.Holds start (tree.expressionLayout tag start parent?)) :
    program.term? (start + tree.expressionDescendants) = tree.term? := by
  rw [term?, termTo?_eq_bind_treeTo?, ← tree?, tree?_of_expressionLayout holds, Option.bind_some]

/-- The parts of a statement as they are viewed in a program. -/
theorem parts_of_statement
    {statement : StatementTree}
    (holds : program.Holds start (statement.layout tag start parent?)) :
    (∀ (index : Nat) (leaf : LeafAt), statement.leaves[index]? = some leaf ->
        program.nameAt? (start + index) = leaf.nameAt? ∧
          program.keyword? (start + index) = leaf.keyword?) ∧
      ∀ tree, statement.expression? = some tree ->
        program.term? (statement.expressionTop start tree) = tree.term? := by
  obtain ⟨leavesHold, expressionHolds, _⟩ := holds_statement holds
  constructor
  · intro index leaf isLeaf
    have inRange := (List.getElem?_eq_some_iff.mp isLeaf).1
    have found := leavesHold index (by rw [List.length_map]; exact inRange)
    rw [List.getElem?_map, isLeaf] at found
    constructor
    · rw [nameAt?, found, LeafAt.nameAt?]
      cases leaf with
      | mk content position => cases content <;> rfl
    · rw [keyword?, found, LeafAt.keyword?]
      cases leaf with
      | mk content position => cases content <;> rfl
  · intro tree isExpression
    rw [isExpression] at expressionHolds
    exact term?_of_expressionLayout expressionHolds

/-- The command at a statement is that of its tree. -/
theorem command?_of_statement
    {statement : StatementTree}
    (holds : program.Holds start (statement.layout tag start parent?)) :
    program.command? (start + statement.descendants) = statement.command? := by
  obtain ⟨leaf, expression⟩ := parts_of_statement holds
  rw [command?, (holds_statement holds).2.2]
  cases statement with
  | declaration position identifier typeKeyword initializer =>
      have name : program.nameAt? start = identifier.nameAt? := (leaf 0 identifier rfl).1
      have declared : program.declared? (typeKeyword.map fun _ => start + 1)
          (initializer.map
            ((StatementTree.declaration position identifier typeKeyword initializer).expressionTop
              start)) = StatementTree.declared? typeKeyword initializer := by
        cases typeKeyword with
        | none =>
            cases initializer with
            | none => rfl
            | some tree =>
                simp only [Option.map_none, Option.map_some, declared?,
                  StatementTree.declared?, expression tree rfl]
        | some keyword =>
            have ty := (leaf 1 keyword rfl).2
            cases initializer with
            | none =>
                simp only [Option.map_none, Option.map_some, declared?,
                  StatementTree.declared?, ty]
            | some tree =>
                simp only [Option.map_some, declared?, StatementTree.declared?, ty,
                  expression tree rfl]
      rw [StatementTree.command?, ← name, ← declared]
      rfl
  | assignment position identifier tree =>
      have name : program.nameAt? start = identifier.nameAt? := (leaf 0 identifier rfl).1
      rw [StatementTree.command?, ← name, ← expression tree rfl]
      rfl
  | input position identifier =>
      have name : program.nameAt? start = identifier.nameAt? := (leaf 0 identifier rfl).1
      rw [StatementTree.command?, ← name]
      rfl
  | output position tree =>
      rw [StatementTree.command?, ← expression tree rfl]
      rfl

/-- The commands at statements are those of their trees. -/
theorem mapM_command?_tops
    {statements : List Tagged}
    (holds : program.Holds start (Tagged.layouts start statements)) :
    (Tagged.tops start statements).mapM program.command? =
      (statements.map Tagged.statement).mapM StatementTree.command? := by
  induction statements generalizing start with
  | nil => rfl
  | cons first rest inductionHypothesis =>
      rw [Tagged.layouts, holds_append, StatementTree.length_layout] at holds
      obtain ⟨firstHolds, restHolds⟩ := holds
      rw [Tagged.tops, List.map_cons, List.mapM_cons, List.mapM_cons,
        command?_of_statement firstHolds]
      have others := inductionHypothesis restHolds
      rw [← Nat.add_assoc] at others
      rw [others]

/-- A program of statements is viewed as their commands. -/
theorem commands?_assemble
    (position : Position) (symbols : SymbolTable) (statements : List Tagged) :
    (assemble position symbols statements).commands? =
      (statements.map Tagged.statement).mapM StatementTree.command? := by
  rw [commands?, statements_assemble]
  exact mapM_command?_tops (holds_extend (frame position (Tagged.tops 2 statements) symbols) _)

end Program
end ScriptLang
