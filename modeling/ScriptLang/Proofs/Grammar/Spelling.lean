import ScriptLang.Proofs.Grammar.Precedence
import ScriptLang.Proofs.Grammar.Whole
import ScriptLang.Proofs.Program.Unplaced

/-!
# Reading spelled trees

Tokens spell a tree when every application of an operator stands in parentheses.
They are read as that tree, apart from places, whatever waits while they are read;
the bindings of the operators play no part.
-/

namespace ScriptLang
namespace Grammar

open Source (Position)

/-- Tokens write a tree with every application in parentheses. -/
inductive Spells : Tree -> List Token -> Prop
  | leaf {content : Leaf} {token : Token} (position : Position) :
      IsOperand token -> token.payload = .leaf content ->
      Spells (.leaf content position) [token]
  | unary {operator : UnaryOperator} {precedence : Nat} {operand : Tree}
      {opening sign closing : Token} {tokens : List Token} (position : Position) :
      opening.kind = .openParenthesis ->
      unaryOf? sign = some (operator, precedence) -> sign.Coherent ->
      Spells operand tokens -> closing.kind = .closeParenthesis ->
      Spells (.unary operator position operand) (opening :: sign :: (tokens ++ [closing]))
  | binary {operator : BinaryOperator} {precedence : Nat} {left right : Tree}
      {opening sign closing : Token} {leftTokens rightTokens : List Token}
      (position : Position) :
      opening.kind = .openParenthesis -> Spells left leftTokens ->
      binaryOf? sign = some (operator, precedence) -> sign.Coherent ->
      Spells right rightTokens -> closing.kind = .closeParenthesis ->
      Spells (.binary operator position left right)
        (opening :: (leftTokens ++ sign :: (rightTokens ++ [closing])))

/-- No token of a tree ends a statement. -/
theorem not_semicolon_of_spells
    {tree : Tree} {tokens : List Token}
    (spells : Spells tree tokens) :
    ∀ token ∈ tokens, token.kind ≠ .semicolon := by
  have operator : ∀ {sign : Token} {binding : Binding},
      sign.kind.binding? = some binding -> sign.kind ≠ .semicolon := by
    intro sign binding bound isSemicolon
    rw [isSemicolon] at bound
    cases bound
  induction spells with
  | leaf position isOperand carries =>
      intro token member
      rw [List.mem_singleton.mp member]
      rcases isOperand with kind | kind <;> simp [kind]
  | unary position isOpen found coherent _ isClose inductionHypothesis =>
      simp only [List.forall_mem_cons, List.forall_mem_append, List.not_mem_nil, false_imp_iff,
        implies_true, and_true]
      exact ⟨by simp [isOpen], operator (unaryOf?_eq_some found).2, inductionHypothesis,
        by simp [isClose]⟩
  | binary position isOpen _ found coherent _ isClose leftHypothesis rightHypothesis =>
      simp only [List.forall_mem_cons, List.forall_mem_append, List.not_mem_nil, false_imp_iff,
        implies_true, and_true]
      exact ⟨by simp [isOpen], leftHypothesis, operator (binaryOf?_eq_some found).2,
        rightHypothesis, by simp [isClose]⟩

namespace Forest

variable {limit : Nat}

/-- A closing parenthesis applies the operator that waits in front of the opening one. -/
theorem close_of_application
    {top opening : Token} {trees combined : List Tree}
    (closing : Token) (operators : List Token)
    (notOpen : top.kind ≠ .openParenthesis)
    (isOpen : opening.kind = .openParenthesis)
    (combines : combine limit top trees = .ok combined) :
    close limit closing ⟨top :: opening :: operators, trees⟩ = .ok ⟨operators, combined⟩ := by
  unfold close
  rw [settle_zero_cons limit _ _ notOpen, combines, ok_bind,
    settle_of_openParenthesis limit 0 _ _ isOpen]
  rfl

/-- Tokens are read as a tree, whatever waits and whatever comes behind them. -/
def Reads (limit : Nat) (tokens : List Token) (tree : Tree) : Prop :=
  ∀ rest forest, readTokens limit (tokens ++ rest) forest =
    readTokens limit rest ⟨forest.operators, tree :: forest.trees⟩

namespace Reads

theorem leaf
    {content : Leaf} {token : Token}
    (isOperand : IsOperand token)
    (carries : token.payload = .leaf content) :
    Reads limit [token] (.leaf content token.span.start) := by
  intro rest forest
  have isLeaf : leafOf token = .ok (.leaf content token.span.start) := by
    rw [leafOf, carries]
  rw [List.singleton_append, readTokens_cons,
    readToken_of_operand limit forest isOperand isLeaf, ok_bind]

/-- The closing parenthesis applies the operator that stands behind the opening one. -/
theorem unary
    {operator : UnaryOperator} {precedence : Nat} {operand : Tree}
    {opening sign closing : Token} {tokens : List Token}
    (isOpen : opening.kind = .openParenthesis)
    (found : unaryOf? sign = some (operator, precedence))
    (coherent : sign.Coherent)
    (reads : Reads limit tokens operand)
    (isClose : closing.kind = .closeParenthesis)
    (inLimit : (Tree.unary operator sign.span.start operand).nesting ≤ limit) :
    Reads limit (opening :: sign :: (tokens ++ [closing]))
      (.unary operator sign.span.start operand) := by
  intro rest forest
  have notOpen := not_openParenthesis_of_binding? (unaryOf?_eq_some found).2
  have combines : combine limit sign (operand :: forest.trees) =
      .ok (.unary operator sign.span.start operand :: forest.trees) :=
    combine_of_unaryOf? forest.trees found coherent inLimit
  rw [List.cons_append, List.cons_append, List.append_assoc, readTokens_cons,
    readToken_of_openParenthesis limit forest isOpen, ok_bind, readTokens_cons,
    readToken_of_unaryOf? limit _ found coherent, ok_bind, reads, List.singleton_append,
    readTokens_cons, readToken_of_closeParenthesis limit _ isClose,
    close_of_application closing _ notOpen isOpen combines, ok_bind]

/-- The opening parenthesis keeps the operator from applying what waits in front of it. -/
theorem binary
    {operator : BinaryOperator} {precedence : Nat} {left right : Tree}
    {opening sign closing : Token} {leftTokens rightTokens : List Token}
    (isOpen : opening.kind = .openParenthesis)
    (leftReads : Reads limit leftTokens left)
    (found : binaryOf? sign = some (operator, precedence))
    (coherent : sign.Coherent)
    (rightReads : Reads limit rightTokens right)
    (isClose : closing.kind = .closeParenthesis)
    (inLimit : (Tree.binary operator sign.span.start left right).nesting ≤ limit) :
    Reads limit (opening :: (leftTokens ++ sign :: (rightTokens ++ [closing])))
      (.binary operator sign.span.start left right) := by
  intro rest forest
  have notOpen := not_openParenthesis_of_binding? (binaryOf?_eq_some found).2
  have combines : combine limit sign (right :: left :: forest.trees) =
      .ok (.binary operator sign.span.start left right :: forest.trees) :=
    combine_of_binaryOf? forest.trees found coherent inLimit
  have untouched : settled limit precedence ⟨opening :: forest.operators, left :: forest.trees⟩ =
      .ok ⟨opening :: forest.operators, left :: forest.trees⟩ :=
    settle_of_openParenthesis limit precedence _ _ isOpen
  rw [List.cons_append, List.append_assoc, readTokens_cons,
    readToken_of_openParenthesis limit forest isOpen, ok_bind, leftReads,
    List.cons_append, List.append_assoc, readTokens_cons,
    readToken_of_binaryOf? limit _ found coherent, untouched, ok_bind, ok_bind, rightReads,
    List.singleton_append, readTokens_cons,
    readToken_of_closeParenthesis limit _ isClose,
    close_of_application closing _ notOpen isOpen combines, ok_bind]

end Reads

/-- Trees that are the same apart from places are nested equally deep. -/
theorem nesting_of_unplaced_eq
    {first second : Tree}
    (same : first.unplaced = second.unplaced) :
    first.nesting = second.nesting := by
  rw [← Tree.nesting_unplaced, same, Tree.nesting_unplaced]

/-- Spelled tokens are read as their tree. -/
theorem exists_reads_of_spells
    {tree : Tree} {tokens : List Token}
    (spells : Spells tree tokens)
    (inLimit : tree.nesting ≤ limit) :
    ∃ again : Tree, again.unplaced = tree.unplaced ∧ Reads limit tokens again := by
  induction spells with
  | leaf position isOperand carries =>
      refine ⟨_, ?_, .leaf isOperand carries⟩
      rw [Tree.unplaced, Tree.unplaced]
  | unary position isOpen found coherent _ isClose inductionHypothesis =>
      rw [Tree.nesting_unary] at inLimit
      obtain ⟨again, same, reads⟩ := inductionHypothesis (by omega)
      refine ⟨_, ?_, .unary isOpen found coherent reads isClose ?_⟩
      · rw [Tree.unplaced, Tree.unplaced, same]
      · rw [Tree.nesting_unary, nesting_of_unplaced_eq same]
        exact inLimit
  | binary position isOpen _ found coherent _ isClose leftHypothesis rightHypothesis =>
      rw [Tree.nesting_binary] at inLimit
      obtain ⟨leftAgain, leftSame, leftReads⟩ := leftHypothesis (by omega)
      obtain ⟨rightAgain, rightSame, rightReads⟩ := rightHypothesis (by omega)
      refine ⟨_, ?_, .binary isOpen leftReads found coherent rightReads isClose ?_⟩
      · rw [Tree.unplaced, Tree.unplaced, leftSame, rightSame]
      · rw [Tree.nesting_binary, nesting_of_unplaced_eq leftSame,
          nesting_of_unplaced_eq rightSame]
        exact inLimit

theorem isExpression_unplaced (tree : Tree) :
    tree.unplaced.isExpression = tree.isExpression := by
  cases tree with
  | leaf content position => cases content <;> rfl
  | unary operator position operand => rfl
  | binary operator position left right => rfl

/-- Spelled tokens are parsed as their tree. -/
theorem parse_of_spells
    {good : Leaf -> Prop} {tree : Tree} {tokens : List Token}
    (spells : Spells tree tokens)
    (wellFormed : tree.WellFormed good) :
    ∃ again : Tree, again.unplaced = tree.unplaced ∧
      ∀ start position, parse start tokens position = .ok again := by
  obtain ⟨again, same, reads⟩ := exists_reads_of_spells spells wellFormed.2
  refine ⟨again, same, ?_⟩
  intro start position
  have nonempty : tokens.isEmpty = false := by
    cases spells <;> rfl
  have read := reads [] empty
  rw [List.append_nil, readTokens_nil] at read
  have isExpression : again.isExpression = true := by
    rw [← isExpression_unplaced, same, isExpression_unplaced]
    exact isExpression_of_every (wellFormed.1.imp fun content isGood => isGood.1)
  unfold parse
  rw [nonempty]
  simp only [Bool.false_eq_true, if_false]
  rw [readAll, read, ok_bind]
  change single start position [again] = .ok again
  rw [single, if_pos isExpression]

end Forest

/-- Tokens write a type keyword that may be absent. -/
inductive SpellsType : Option LeafAt -> List Token -> Prop
  | absent : SpellsType none []
  | present {leaf : LeafAt} {token : Token} :
      token.kind = .typeKeyword -> token.payload = .leaf leaf.content ->
      SpellsType (some leaf) [token]

/-- Tokens write an initial value that may be absent. -/
inductive SpellsInitializer : Option Tree -> List Token -> Prop
  | absent : SpellsInitializer none []
  | present {tree : Tree} {sign : Token} {tokens : List Token} :
      sign.kind = .equal -> Spells tree tokens ->
      SpellsInitializer (some tree) (sign :: tokens)

/-- Tokens write a statement, where a colon stands in every declaration. -/
inductive SpellsStatement : StatementTree -> List Token -> Prop
  | declaration {identifier : LeafAt} {typeKeyword : Option LeafAt} {expression : Option Tree}
      {first name colon : Token} {typeTokens initializer : List Token} (position : Position) :
      first.kind = .declaration ->
      name.kind = .identifier -> name.payload = .leaf identifier.content ->
      colon.kind = .colon ->
      SpellsType typeKeyword typeTokens -> SpellsInitializer expression initializer ->
      SpellsStatement (.declaration position identifier typeKeyword expression)
        (first :: name :: colon :: (typeTokens ++ initializer))
  | assignment {identifier : LeafAt} {expression : Tree}
      {name colon sign : Token} {tokens : List Token} (position : Position) :
      name.kind = .identifier -> name.payload = .leaf identifier.content ->
      colon.kind = .colon -> sign.kind = .equal -> Spells expression tokens ->
      SpellsStatement (.assignment position identifier expression)
        (name :: colon :: sign :: tokens)
  | input {identifier : LeafAt} {first name : Token} (position : Position) :
      first.kind = .standardInput ->
      name.kind = .identifier -> name.payload = .leaf identifier.content ->
      SpellsStatement (.input position identifier) [first, name]
  | output {expression : Tree} {first : Token} {tokens : List Token} (position : Position) :
      first.kind = .standardOutput -> Spells expression tokens ->
      SpellsStatement (.output position expression) (first :: tokens)

/-- No token of a statement ends it. -/
theorem not_semicolon_of_spellsStatement
    {statement : StatementTree} {tokens : List Token}
    (spells : SpellsStatement statement tokens) :
    ∀ token ∈ tokens, token.kind ≠ .semicolon := by
  cases spells with
  | @declaration identifier typeKeyword expression first name colon typeTokens initializer position
      isFirst isName carries isColon spellsType spellsInitializer =>
      have inType : ∀ token ∈ typeTokens, token.kind ≠ .semicolon := by
        cases spellsType with
        | absent => simp
        | present isType _ => simp [isType]
      have inInitializer : ∀ token ∈ initializer, token.kind ≠ .semicolon := by
        cases spellsInitializer with
        | absent => simp
        | present isEqual spells =>
            exact List.forall_mem_cons.mpr ⟨by simp [isEqual], not_semicolon_of_spells spells⟩
      simp only [List.forall_mem_cons, List.forall_mem_append]
      exact ⟨by simp [isFirst], by simp [isName], by simp [isColon], inType, inInitializer⟩
  | assignment position isName carries isColon isEqual spells =>
      simp only [List.forall_mem_cons]
      exact ⟨by simp [isName], by simp [isColon], by simp [isEqual],
        not_semicolon_of_spells spells⟩
  | input position isFirst isName carries => simp [isFirst, isName]
  | output position isFirst spells =>
      exact List.forall_mem_cons.mpr ⟨by simp [isFirst], not_semicolon_of_spells spells⟩

namespace Sentence

theorem leafAt_of_payload
    {token : Token} {content : Leaf}
    (carries : token.payload = .leaf content) :
    leafAt token = .ok ⟨content, token.span.start⟩ := by
  rw [leafAt, carries]

/-- A spelled type keyword is taken, and nothing else. -/
theorem takeType_of_spells
    {typeKeyword : Option LeafAt} {expression : Option Tree}
    {typeTokens initializer : List Token}
    (name : String)
    (spellsType : SpellsType typeKeyword typeTokens)
    (spellsInitializer : SpellsInitializer expression initializer) :
    ∃ again : Option LeafAt, again.map LeafAt.unplaced = typeKeyword.map LeafAt.unplaced ∧
      takeType true name (typeTokens ++ initializer) = .ok (again, initializer) := by
  cases spellsType with
  | absent =>
      refine ⟨none, rfl, ?_⟩
      cases spellsInitializer with
      | absent => rfl
      | present isEqual spells =>
          rw [List.nil_append, takeType, isEqual]
          rfl
  | @present leaf token isType carries =>
      refine ⟨some ⟨leaf.content, token.span.start⟩, rfl, ?_⟩
      rw [List.singleton_append, takeType, if_pos isType, if_pos rfl,
        leafAt_of_payload carries]
      rfl

/-- A spelled initial value is taken. -/
theorem takeInitializer_of_spells
    {good : Leaf -> Prop} {expression : Option Tree} {initializer : List Token}
    (spells : SpellsInitializer expression initializer)
    (wellFormed : ∀ tree ∈ expression, tree.WellFormed good) :
    ∃ again : Option Tree, again.map Tree.unplaced = expression.map Tree.unplaced ∧
      ∀ start stop, takeInitializer start stop initializer = .ok (again, []) := by
  cases spells with
  | absent => exact ⟨none, rfl, fun _ _ => rfl⟩
  | present isEqual spells =>
      obtain ⟨again, same, parses⟩ := Forest.parse_of_spells spells (wellFormed _ rfl)
      refine ⟨some again, congrArg some same, ?_⟩
      intro start stop
      rw [takeInitializer, if_pos isEqual, parses]
      rfl

theorem expectFirst_of_kind
    {token : Token} {kind : TokenKind}
    (expectation : Expectation) (stop : Position) (rest : List Token)
    (isKind : token.kind = kind) :
    expectFirst kind expectation stop (token :: rest) = .ok (token, rest) := by
  rw [expectFirst, if_pos isKind]

/-- A form that leaves no token is a statement. -/
theorem read_of_form
    {start : Nat} {stop : Position} {first : Token} {rest : List Token} {statement : StatementTree}
    (formed : form start stop first rest = .ok (statement, [])) :
    read start stop (first :: rest) = .ok statement := by
  rw [read, formed]
  rfl

/-- Spelled tokens are read as their statement, which starts at the first of them. -/
theorem read_of_spells
    {good : Leaf -> Prop} {statement : StatementTree} {tokens : List Token}
    (spells : SpellsStatement statement tokens)
    (wellFormed : statement.WellFormed good) :
    ∃ again : StatementTree, again.unplaced = statement.unplaced ∧
      (∃ first rest, tokens = first :: rest ∧ again.position = first.span.start) ∧
      ∀ start stop, read start stop tokens = .ok again := by
  cases spells with
  | @declaration identifier typeKeyword expression first name colon typeTokens initializer position
      isFirst isName carries isColon spellsType spellsInitializer =>
      obtain ⟨_, _, expressionWellFormed, typed⟩ := wellFormed
      obtain ⟨typeAgain, sameType, takesType⟩ :=
        takeType_of_spells name.value spellsType spellsInitializer
      obtain ⟨initial, sameInitial, takesInitial⟩ :=
        takeInitializer_of_spells spellsInitializer expressionWellFormed
      refine ⟨.declaration first.span.start ⟨identifier.content, name.span.start⟩ typeAgain
        initial, ?_, ⟨_, _, rfl, rfl⟩, ?_⟩
      · rw [StatementTree.unplaced, StatementTree.unplaced, sameType, sameInitial]
        rfl
      · intro start stop
        have isTyped : (typeAgain.isNone && initial.isNone) = false := by
          have typePresent := congrArg Option.isSome sameType
          have initialPresent := congrArg Option.isSome sameInitial
          simp only [Option.isSome_map] at typePresent initialPresent
          rw [← typePresent, ← initialPresent] at typed
          cases typeAgain <;> cases initial <;> simp at typed ⊢
        have takesColon : takeColon (colon :: (typeTokens ++ initializer)) =
            (true, typeTokens ++ initializer) := by
          rw [takeColon, if_pos isColon]
        apply read_of_form
        rw [form, isFirst]
        simp only [declaration, expectFirst_of_kind _ _ _ isName, ok_bind,
          leafAt_of_payload carries, takesColon, takesType, takesInitial, isTyped,
          Bool.false_eq_true, if_false]
        rfl
  | @assignment identifier expression name colon sign tokens position isName carries isColon
      isEqual spells =>
      obtain ⟨_, expressionWellFormed⟩ := wellFormed
      obtain ⟨again, same, parses⟩ := Forest.parse_of_spells spells expressionWellFormed
      refine ⟨.assignment name.span.start ⟨identifier.content, name.span.start⟩ again, ?_,
        ⟨_, _, rfl, rfl⟩, ?_⟩
      · rw [StatementTree.unplaced, StatementTree.unplaced, same]
        rfl
      · intro start stop
        apply read_of_form
        rw [form, isName]
        simp only [assignment, leafAt_of_payload carries, ok_bind,
          expectFirst_of_kind _ _ _ isColon, expectFirst_of_kind _ _ _ isEqual, parses]
        rfl
  | @input identifier first name position isFirst isName carries =>
      refine ⟨.input first.span.start ⟨identifier.content, name.span.start⟩, rfl,
        ⟨_, _, rfl, rfl⟩, ?_⟩
      intro start stop
      apply read_of_form
      rw [form, isFirst]
      simp only [input, expectFirst_of_kind _ _ _ isName, ok_bind, leafAt_of_payload carries]
      rfl
  | @output expression first tokens position isFirst spells =>
      obtain ⟨again, same, parses⟩ := Forest.parse_of_spells spells wellFormed
      refine ⟨.output first.span.start again, ?_, ⟨_, _, rfl, rfl⟩, ?_⟩
      · rw [StatementTree.unplaced, StatementTree.unplaced, same]
      · intro start stop
        apply read_of_form
        rw [form, isFirst]
        simp only [output, parses, ok_bind]
        rfl

end Sentence
end Grammar
end ScriptLang
