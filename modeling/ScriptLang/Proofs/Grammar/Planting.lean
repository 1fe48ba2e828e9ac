import ScriptLang.Proofs.Grammar.Forest

/-!
# Planted trees

The operands that wait while an expression is read are trees that follow each
other at the end of the program.  The main statement says that reading tokens
into a program and reading them as trees are the same: one succeeds exactly when
the other does, with the same fault otherwise, and the program then ends in the
nodes of the trees that wait.
-/

namespace ScriptLang
namespace Grammar

open Source (Position)

variable {α β γ δ : Type}

/-- The nodes of trees, the latest first, that follow each other from a number on. -/
def planted (start : Nat) : List Tree -> List Node
  | [] => []
  | tree :: others =>
      planted start others ++
        tree.layout Tree.untagged (start + (planted start others).length) none

/-- A program with trees planted at its end. -/
def plant (program : Program) (trees : List Tree) : Program :=
  program.extend (planted program.size trees)

/-- The operands that the trees planted in a program are. -/
def operandsOf (program : Program) : List Tree -> List Operand
  | [] => []
  | tree :: others =>
      ⟨(plant program others).size + tree.descendants, tree.nesting⟩ ::
        operandsOf program others

@[simp] theorem plant_nil (program : Program) : plant program [] = program := by
  simp [plant, planted]

theorem plant_cons (program : Program) (tree : Tree) (others : List Tree) :
    plant program (tree :: others) =
      (plant program others).extend
        (tree.layout Tree.untagged (plant program others).size none) := by
  simp [plant, planted]

theorem size_plant_cons (program : Program) (tree : Tree) (others : List Tree) :
    (plant program (tree :: others)).size =
      (plant program others).size + tree.descendants + 1 := by
  rw [plant_cons, Program.size_extend, Tree.length_layout, Nat.add_assoc]

@[simp] theorem length_operandsOf (program : Program) (trees : List Tree) :
    (operandsOf program trees).length = trees.length := by
  induction trees with
  | nil => rfl
  | cons tree others inductionHypothesis => simp [operandsOf, inductionHypothesis]

/-- A leaf is planted by adding its node. -/
theorem add_leaf_plant
    (program : Program) (trees : List Tree) (content : Leaf) (position : Position) :
    (plant program trees).add (.leaf content) position =
      .ok (plant program (.leaf content position :: trees)) := by
  rw [Tree.add_leaf _ Tree.untagged, plant_cons]

/-- What an operator makes with the last operands is what it makes with the last trees. -/
theorem applyOperator_operandsOf (program : Program) (operator : Token) (trees : List Tree) :
    applyOperator operator (operandsOf program trees) =
      (Forest.applyTo operator trees).map fun applied =>
        (applied.1.form (plant program applied.2).size, applied.1.nesting,
          operandsOf program applied.2) := by
  unfold applyOperator Forest.applyTo
  cases bindingOf operator with
  | error fault => rfl
  | ok binding =>
      obtain ⟨precedence, arity⟩ := binding
      simp only [ok_bind]
      obtain _ | _ | _ | more := arity
      · rfl
      · cases trees with
        | nil => rfl
        | cons operand others => cases operator.kind.unaryOperator? <;> rfl
      · obtain _ | ⟨right, _ | ⟨left, others⟩⟩ := trees
        · rfl
        · rfl
        · have size := size_plant_cons program left others
          cases operator.kind.binaryOperator? with
          | none => rfl
          | some binary =>
              simp only [operandsOf, size, popOperand]
              rfl
      · rfl


/-- The tree that an operator makes is planted by adding one node. -/
theorem add_applied_plant
    (program : Program) {operator : Token} {trees others : List Tree} {tree : Tree}
    (applied : Forest.applyTo operator trees = .ok (tree, others)) :
    (plant program trees).add (.expression ⟨tree.form (plant program others).size, none⟩)
        operator.span.start =
      .ok (plant program (tree :: others)) := by
  obtain ⟨_, unary, operand, _, _, rfl, rfl⟩ | ⟨_, binary, left, right, _, _, rfl, rfl⟩ :=
    Forest.applyTo_eq_ok applied
  · have added := Tree.add_unary (plant program others) Tree.untagged unary
      operator.span.start operand
    rw [plant_cons, plant_cons]
    exact added
  · have added := Tree.add_binary (plant program others) Tree.untagged binary
      operator.span.start left right
    rw [plant_cons, size_plant_cons, plant_cons, plant_cons, Program.extend_extend]
    exact added

/-- The node for what an operator makes of planted trees gets the number of its top. -/
theorem size_plant_of_applyTo
    {operator : Token} {trees others : List Tree} {tree : Tree}
    (program : Program)
    (applied : Forest.applyTo operator trees = .ok (tree, others)) :
    (plant program trees).size = (plant program others).size + tree.descendants := by
  have grown := Program.size_of_add (add_applied_plant program applied)
  rw [size_plant_cons] at grown
  exact Nat.succ.inj grown.symm

/-- An outcome of reading into a program mirrors a reading apart from programs: both succeed or
both fail with one fault.  What is read successfully is put at the end of the program as the
picture says; a failed reading leaves planted trees behind. -/
def Mirrors
    (program : Program)
    (picture : α -> β × List Node) :
    Except Fault α -> EStateM.Result Fault Program β -> Prop
  | .ok value, outcome =>
      outcome = .ok (picture value).1 (program.extend (picture value).2)
  | .error fault, outcome => ∃ trees, outcome = .error fault (plant program trees)

namespace Mirrors

variable {program : Program}

/-- Readings that mirror each other step by step mirror each other as a whole. -/
theorem bind
    {picture : α -> β × List Node}
    {laterPicture : γ -> δ × List Node}
    {first : Except Fault α}
    {building : Building β}
    {next : α -> Except Fault γ}
    {buildingNext : β -> Building δ}
    {start : Program}
    (mirrors : Mirrors program picture first (building start))
    (mirrorsNext : ∀ value, first = .ok value ->
      Mirrors program laterPicture (next value)
        (buildingNext (picture value).1 (program.extend (picture value).2))) :
    Mirrors program laterPicture (first >>= next) ((building >>= buildingNext) start) := by
  cases first with
  | error fault =>
      obtain ⟨trees, failed⟩ := mirrors
      exact ⟨trees, Running.bind_of_error failed buildingNext⟩
  | ok value =>
      rw [ok_bind, Running.bind_of_ok mirrors buildingNext]
      exact mirrorsNext value rfl

/-- A step that does not touch the program. -/
theorem lift
    (trees : List Tree)
    (step : Except Fault α) :
    Mirrors program (fun value => (value, planted program.size trees)) step
      ((liftExcept step : Building α) (plant program trees)) := by
  cases step with
  | error fault => exact ⟨trees, rfl⟩
  | ok value => rfl

/-- A step that succeeds mirrors one that does. -/
theorem exists_of_ok
    {picture : α -> β × List Node} {first : Except Fault α} {result : β} {after : Program}
    (mirrors : Mirrors program picture first (.ok result after)) :
    ∃ value, first = .ok value ∧ result = (picture value).1 ∧
      after = program.extend (picture value).2 := by
  cases first with
  | ok value =>
      obtain ⟨rfl, rfl⟩ := EStateM.Result.ok.inj mirrors
      exact ⟨value, rfl, rfl, rfl⟩
  | error fault =>
      obtain ⟨_, failed⟩ := mirrors
      cases failed

/-- Both fail with the same faults. -/
theorem error_iff
    {picture : α -> β × List Node} {first : Except Fault α}
    {outcome : EStateM.Result Fault Program β}
    (mirrors : Mirrors program picture first outcome)
    (fault : Fault) :
    first = .error fault ↔ ∃ after, outcome = .error fault after := by
  cases first with
  | ok value =>
      constructor
      · exact nofun
      · rintro ⟨after, rfl⟩
        cases mirrors
  | error other =>
      obtain ⟨trees, rfl⟩ := mirrors
      constructor
      · rintro ⟨⟩
        exact ⟨_, rfl⟩
      · rintro ⟨_, ⟨⟩⟩
        rfl

theorem throw
    {picture : α -> β × List Node}
    (trees : List Tree)
    (fault : Fault) :
    Mirrors program picture (.error fault)
      ((throw fault : Building β) (plant program trees)) :=
  ⟨trees, rfl⟩

end Mirrors

/-- The waiting operators and operands that a forest stands for, and its nodes. -/
def waitingOf (program : Program) (forest : Forest) : Waiting × List Node :=
  (⟨forest.operators, operandsOf program forest.trees⟩, planted program.size forest.trees)

/-- The operands that trees stand for, and their nodes. -/
def operandsWith (program : Program) (trees : List Tree) : List Operand × List Node :=
  (operandsOf program trees, planted program.size trees)

theorem reduce_mirrors (program : Program) (operator : Token) (trees : List Tree) :
    Mirrors program (operandsWith program) (Forest.combine greatestDepth operator trees)
      (reduce operator (operandsOf program trees) (plant program trees)) := by
  unfold reduce Forest.combine
  rw [applyOperator_operandsOf]
  cases applied : Forest.applyTo operator trees with
  | error fault => exact ⟨trees, rfl⟩
  | ok result =>
      obtain ⟨tree, others⟩ := result
      simp only [Except.map, ok_bind, Running.bind_apply, Running.liftExcept_ok]
      split
      · exact Mirrors.throw trees _
      · have added := add_applied_plant program applied
        have sizes := size_plant_of_applyTo program applied
        simp only [Running.bind_apply, Program.addNode, added, sizes]
        rfl

theorem reduceStronger_mirrors
    (program : Program) (precedence : Nat) (operators : List Token) (trees : List Tree) :
    Mirrors program (waitingOf program)
      (Forest.settle greatestDepth precedence operators trees)
      (reduceStronger precedence operators (operandsOf program trees)
        (plant program trees)) := by
  induction operators generalizing trees with
  | nil => rfl
  | cons top operators inductionHypothesis =>
      unfold reduceStronger Forest.settle
      split
      · rfl
      · refine Mirrors.bind (Mirrors.lift trees (bindingOf top)) ?_
        intro binding _
        dsimp only
        split
        · rfl
        · refine Mirrors.bind (reduce_mirrors program top trees) ?_
          intro reduced _
          exact inductionHypothesis reduced

theorem closeParenthesis_mirrors
    (program : Program) (closing : Token) (operators : List Token) (trees : List Tree) :
    Mirrors program (waitingOf program)
      (Forest.close greatestDepth closing ⟨operators, trees⟩)
      (closeParenthesis closing operators (operandsOf program trees)
        (plant program trees)) := by
  induction operators generalizing trees with
  | nil => exact Mirrors.throw trees _
  | cons top operators inductionHypothesis =>
      unfold closeParenthesis Forest.close
      split
      · next isOpen =>
          rw [Forest.settle_of_openParenthesis _ _ _ _ isOpen]
          rfl
      · next notOpen =>
          dsimp only
          rw [Forest.settle_zero_cons _ _ _ notOpen, bind_assoc]
          refine Mirrors.bind (reduce_mirrors program top trees) ?_
          intro reduced _
          exact inductionHypothesis reduced

theorem reduceAll_mirrors
    (program : Program) (operators : List Token) (trees : List Tree) :
    Mirrors program (operandsWith program)
      (Forest.finish greatestDepth ⟨operators, trees⟩)
      (reduceAll operators (operandsOf program trees) (plant program trees)) := by
  induction operators generalizing trees with
  | nil => rfl
  | cons top operators inductionHypothesis =>
      unfold reduceAll Forest.finish
      split
      · next isOpen =>
          rw [Forest.settle_of_openParenthesis _ _ _ _ isOpen]
          exact Mirrors.throw trees _
      · next notOpen =>
          dsimp only
          rw [Forest.settle_zero_cons _ _ _ notOpen, bind_assoc]
          refine Mirrors.bind (reduce_mirrors program top trees) ?_
          intro reduced _
          exact inductionHypothesis reduced

theorem readOperator_mirrors (program : Program) (token : Token) (forest : Forest) :
    Mirrors program (waitingOf program)
      (Forest.readOperator greatestDepth token forest)
      (readOperator token (waitingOf program forest).1 (plant program forest.trees)) := by
  unfold readOperator Forest.readOperator
  refine Mirrors.bind (Mirrors.lift forest.trees (bindingOf token)) ?_
  intro binding _
  dsimp only
  split
  · refine Mirrors.bind
      (reduceStronger_mirrors program binding.precedence forest.operators forest.trees) ?_
    intro settled _
    rfl
  · rfl

theorem readToken_mirrors (program : Program) (token : Token) (forest : Forest) :
    Mirrors program (waitingOf program)
      (Forest.readToken greatestDepth token forest)
      (readToken token (waitingOf program forest).1 (plant program forest.trees)) := by
  have operand : Mirrors program (waitingOf program)
      (Forest.leafOf token >>= fun tree =>
        .ok ⟨forest.operators, tree :: forest.trees⟩)
      ((addLeaf token >>= fun node =>
        pure ((waitingOf program forest).1.pushOperand ⟨node, 0⟩))
          (plant program forest.trees)) := by
    unfold Forest.leafOf addLeaf
    cases token.payload with
    | leaf content =>
        have added := add_leaf_plant program forest.trees content token.span.start
        simp only [Running.bind_apply, Program.addNode, added]
        rfl
    | empty => exact Mirrors.throw forest.trees _
    | operator binding => exact Mirrors.throw forest.trees _
  have other : ∀ kind : TokenKind, Mirrors program (waitingOf program)
      (if kind.isOperator then Forest.readOperator greatestDepth token forest
        else throw (.ofSyntax (.notInExpression token.value) token.span.start))
      ((if kind.isOperator then readOperator token (waitingOf program forest).1
        else throw (.ofSyntax (.notInExpression token.value) token.span.start))
          (plant program forest.trees)) := by
    intro kind
    split
    · exact readOperator_mirrors program token forest
    · exact Mirrors.throw forest.trees _
  unfold readToken Forest.readToken
  cases token.kind with
  | identifier => exact operand
  | literal => exact operand
  | openParenthesis => rfl
  | closeParenthesis =>
      exact closeParenthesis_mirrors program token forest.operators forest.trees
  | _ => exact other _

/-- Reading tokens into a program mirrors reading them as trees. -/
theorem readTokens_mirrors (program : Program) (tokens : List Token) (forest : Forest) :
    Mirrors program (waitingOf program)
      (Forest.readTokens greatestDepth tokens forest)
      (readTokens tokens (waitingOf program forest).1 (plant program forest.trees)) := by
  induction tokens generalizing forest with
  | nil => rfl
  | cons token rest inductionHypothesis =>
      refine Mirrors.bind (readToken_mirrors program token forest) ?_
      intro next _
      exact inductionHypothesis next

/-- The number of the top of a whole expression behind a program, and its nodes. -/
def expressionOf (program : Program) (tree : Tree) : NodeId × List Node :=
  (program.size + tree.expressionDescendants,
    tree.expressionLayout Tree.untagged program.size none)

/-- A planted tree becomes a whole expression, unless it is a bare type keyword. -/
theorem wrapLeaf_mirrors (program : Program) (tree : Tree) (position : Position) :
    Mirrors program (expressionOf program) (Forest.single program.size position [tree])
      (wrapLeaf (program.size + tree.descendants) (plant program [tree])) := by
  have planting : plant program [tree] =
      program.extend (tree.layout Tree.untagged program.size none) := by
    rw [plant_cons, plant_nil]
  have found : (plant program [tree]).node (program.size + tree.descendants) =
      .ok (tree.node Tree.untagged program.size none) := by
    rw [planting, Tree.node_extend_layout]
  unfold wrapLeaf
  simp only [Running.bind_apply, Running.get_apply, found, Running.liftExcept_ok]
  cases tree with
  | unary operator place operand =>
      rw [planting]
      rfl
  | binary operator place left right =>
      rw [planting]
      rfl
  | leaf content place =>
      have added : (plant program [.leaf content place]).add
          (.expression ⟨.single program.size, none⟩) place = .ok (program.extend
            ((Tree.leaf content place).expressionLayout Tree.untagged program.size none)) := by
        rw [planting]
        exact Tree.add_single program Tree.untagged content place
      cases content with
      | typeKeyword ty => exact Mirrors.throw _ _
      | identifier name =>
          simp only [Tree.node, Tree.kind, Tree.position, Program.addNode, Tree.descendants_leaf,
            Nat.add_zero, added, size_plant_cons, plant_nil]
          rfl
      | literal value =>
          simp only [Tree.node, Tree.kind, Tree.position, Program.addNode, Tree.descendants_leaf,
            Nat.add_zero, added, size_plant_cons, plant_nil]
          rfl

/-- Reading an expression into a program mirrors reading it as a tree. -/
theorem parseExpression_mirrors
    (program : Program) (tokens : List Token) (position : Position) :
    Mirrors program (expressionOf program) (Forest.parse program.size tokens position)
      (parseExpression tokens position program) := by
  have nothing := plant_nil program
  have reading := readTokens_mirrors program tokens Forest.empty
  rw [show Forest.empty.trees = [] from rfl, nothing] at reading
  unfold parseExpression Forest.parse Forest.readAll
  split
  · exact ⟨[], by rw [nothing]; rfl⟩
  · rw [bind_assoc]
    refine Mirrors.bind reading ?_
    intro forest _
    refine Mirrors.bind (reduceAll_mirrors program forest.operators forest.trees) ?_
    intro trees _
    match trees with
    | [] => exact Mirrors.throw [] _
    | [tree] =>
        have wrapped := wrapLeaf_mirrors program tree position
        simp only [operandsWith, operandsOf, plant_nil]
        exact wrapped
    | first :: second :: others =>
        let trees := first :: second :: others
        have refused : Mirrors program (expressionOf program)
            (.error (.ofInternal (.leftoverOperands trees.length) position))
            ((throw (.ofInternal (.leftoverOperands (operandsOf program trees).length) position) :
              Building NodeId) (plant program trees)) := by
          rw [length_operandsOf]
          exact Mirrors.throw trees _
        exact refused

/-- An expression that is read is a tree whose nodes stand behind the program. -/
theorem parse_of_parseExpression
    {program left : Program} {tokens : List Token} {position : Position} {id : NodeId}
    (parsed : parseExpression tokens position program = .ok id left) :
    ∃ tree, Forest.parse program.size tokens position = .ok tree ∧
      id = program.size + tree.expressionDescendants ∧
      left = program.extend (tree.expressionLayout Tree.untagged program.size none) := by
  have mirrors := parseExpression_mirrors program tokens position
  rw [parsed] at mirrors
  exact mirrors.exists_of_ok

end Grammar
end ScriptLang
