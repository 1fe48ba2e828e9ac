import ScriptLang.Proofs.Grammar.Acceptance
import ScriptLang.Proofs.Grammar.Phrase
import ScriptLang.Proofs.Program.Frontier

/-!
# What becomes of tokens

Reading an expression loses no token, doubles none and moves no operand.  The leaves
of the trees that wait are the operands that have been read, in their order, and the
operators in these trees are, together with those that still wait, the operators that
have been read.  Every step keeps both accounts, whether or not the operands stand
where an infix expression has them.
-/

namespace ScriptLang

open Source (Position)

/-- The operator that a kind stands for. -/
def TokenKind.operator? (kind : TokenKind) : Option AnyOperator :=
  (kind.binaryOperator?.map .binary).or (kind.unaryOperator?.map .unary)

theorem TokenKind.isSome_operator? (kind : TokenKind) :
    kind.operator?.isSome = kind.isOperator := by
  cases kind <;> rfl

theorem TokenKind.operator?_of_unaryOperator?
    {kind : TokenKind} {operator : UnaryOperator}
    (isUnary : kind.unaryOperator? = some operator) :
    kind.operator? = some (.unary operator) := by
  cases kind <;> cases isUnary <;> rfl

theorem TokenKind.operator?_of_binaryOperator?
    {kind : TokenKind} {operator : BinaryOperator}
    (isBinary : kind.binaryOperator? = some operator) :
    kind.operator? = some (.binary operator) := by
  rw [operator?, isBinary, Option.map_some, Option.some_or]

namespace Token

/-- The leaf that an identifier or a literal carries, where the token starts. -/
def leafAt? (token : Token) : Option LeafAt :=
  match token.kind, token.payload with
  | .identifier, .leaf content => some ⟨content, token.span.start⟩
  | .literal, .leaf content => some ⟨content, token.span.start⟩
  | _, _ => none

/-- The operator that a token stands for, where the token starts. -/
def operatorAt? (token : Token) : Option OperatorAt :=
  token.kind.operator?.map fun operator => ⟨operator, token.span.start⟩

/-- A token is an operand with a leaf, an operator or a parenthesis. -/
def InExpression (token : Token) : Prop :=
  token.leafAt?.isSome ∨ token.operatorAt?.isSome ∨
    token.kind = .openParenthesis ∨ token.kind = .closeParenthesis

theorem leafAt?_of_payload
    {token : Token} {content : Leaf}
    (isOperand : Grammar.IsOperand token)
    (carries : token.payload = .leaf content) :
    token.leafAt? = some ⟨content, token.span.start⟩ := by
  rcases isOperand with kind | kind <;> rw [leafAt?, kind, carries]

theorem leafAt?_of_not_isOperand
    {token : Token}
    (noOperand : ¬ Grammar.IsOperand token) :
    token.leafAt? = none := by
  unfold leafAt?
  split
  · next isIdentifier _ => exact absurd (.inl isIdentifier) noOperand
  · next isLiteral _ => exact absurd (.inr isLiteral) noOperand
  · rfl

theorem operatorAt?_of_not_isOperator
    {token : Token}
    (noOperator : token.kind.isOperator = false) :
    token.operatorAt? = none := by
  rw [← TokenKind.isSome_operator?, Option.isSome_eq_false_iff, Option.isNone_iff_eq_none]
    at noOperator
  rw [operatorAt?, noOperator, Option.map_none]

theorem operatorAt?_of_isOperand
    {token : Token}
    (isOperand : Grammar.IsOperand token) :
    token.operatorAt? = none := by
  apply operatorAt?_of_not_isOperator
  rcases isOperand with kind | kind <;> rw [kind] <;> rfl

end Token

namespace Grammar

theorem not_isOperand_of_isOperator
    {token : Token}
    (isOperator : token.kind.isOperator = true) :
    ¬ IsOperand token := by
  rintro (kind | kind) <;> rw [kind] at isOperator <;> cases isOperator

/-- The leaves of trees, the latest of which comes first, from left to right. -/
def frontier : List Tree -> List LeafAt
  | [] => []
  | tree :: others => frontier others ++ tree.leaves

/-- The operators of trees. -/
def applied : List Tree -> List OperatorAt
  | [] => []
  | tree :: others => applied others ++ tree.operators

namespace Forest

/-- The operators of a forest, those in its trees and those that wait. -/
def account (forest : Forest) : List OperatorAt :=
  applied forest.trees ++ forest.operators.filterMap Token.operatorAt?

/-- A forest has become another one by taking in leaves on the right and operators anywhere. -/
structure Takes
    (before after : Forest)
    (leaves : List LeafAt)
    (operators : List OperatorAt) : Prop where
  leaves_eq : frontier after.trees = frontier before.trees ++ leaves
  operators_perm : after.account.Perm (before.account ++ operators)

namespace Takes

theorem nothing (forest : Forest) : Takes forest forest [] [] where
  leaves_eq := (List.append_nil _).symm
  operators_perm := by rw [List.append_nil]

theorem trans
    {first second third : Forest} {leaves moreLeaves : List LeafAt}
    {operators moreOperators : List OperatorAt}
    (takes : Takes first second leaves operators)
    (takesMore : Takes second third moreLeaves moreOperators) :
    Takes first third (leaves ++ moreLeaves) (operators ++ moreOperators) where
  leaves_eq := by rw [takesMore.leaves_eq, takes.leaves_eq, List.append_assoc]
  operators_perm := by
    rw [← List.append_assoc]
    exact takesMore.operators_perm.trans (takes.operators_perm.append_right _)

/-- A token comes to wait. -/
theorem push (forest : Forest) (token : Token) :
    Takes forest ⟨token :: forest.operators, forest.trees⟩ [] token.operatorAt?.toList where
  leaves_eq := (List.append_nil _).symm
  operators_perm := by
    apply List.perm_iff_count.mpr
    intro operator
    simp only [account, List.filterMap_cons, List.count_append]
    cases token.operatorAt? with
    | none => rfl
    | some here =>
        simp only [Option.toList_some, List.count_cons, List.count_nil]
        omega

end Takes

variable {limit : Nat}

/-- An operator that takes its operands goes from those that wait into the trees. -/
theorem takes_of_combine
    {operator : Token} {operators : List Token} {trees result : List Tree}
    (combined : combine limit operator trees = .ok result) :
    Takes ⟨operator :: operators, trees⟩ ⟨operators, result⟩ [] [] := by
  obtain ⟨tree, others, isApplied, _, rfl⟩ := (combine_eq_ok_iff ..).mp combined
  obtain ⟨_, unary, operand, _, isUnary, rfl, rfl⟩ |
    ⟨_, binary, left, right, _, isBinary, rfl, rfl⟩ := applyTo_eq_ok isApplied
  · have here : operator.operatorAt? = some ⟨.unary unary, operator.span.start⟩ := by
      rw [Token.operatorAt?, TokenKind.operator?_of_unaryOperator? isUnary, Option.map_some]
    constructor
    · simp only [frontier, Tree.leaves, List.append_nil]
    · apply List.perm_iff_count.mpr
      intro other
      simp only [account, applied, Tree.operators, List.filterMap_cons, here, List.count_append,
        List.count_cons, List.count_nil]
      omega
  · have here : operator.operatorAt? = some ⟨.binary binary, operator.span.start⟩ := by
      rw [Token.operatorAt?, TokenKind.operator?_of_binaryOperator? isBinary, Option.map_some]
    constructor
    · simp only [frontier, Tree.leaves, List.append_nil, List.append_assoc]
    · apply List.perm_iff_count.mpr
      intro other
      simp only [account, applied, Tree.operators, List.filterMap_cons, here, List.count_append,
        List.count_cons, List.count_nil]
      omega

theorem takes_of_settle
    {precedence : Nat} {operators : List Token} {trees : List Tree} {settled : Forest}
    (settles : settle limit precedence operators trees = .ok settled) :
    Takes ⟨operators, trees⟩ settled [] [] := by
  refine settle_induction (motive := fun forest => Takes ⟨operators, trees⟩ forest [] []) settles
    (.nothing _) ?_
  intro top waiting others combined _ combining takes
  exact takes.trans (takes_of_combine combining)

/-- A parenthesis that waits is no operator. -/
theorem takes_of_pop
    {top : Token} {operators : List Token} {trees : List Tree}
    (isOpen : top.kind = .openParenthesis) :
    Takes ⟨top :: operators, trees⟩ ⟨operators, trees⟩ [] [] where
  leaves_eq := (List.append_nil _).symm
  operators_perm := by
    have noOperator : top.operatorAt? = none :=
      Token.operatorAt?_of_not_isOperator (by rw [isOpen]; rfl)
    simp only [account, List.filterMap_cons, noOperator, List.append_nil, List.Perm.refl]

/-- A leaf comes to stand on the right. -/
theorem takes_of_leaf (forest : Forest) (content : Leaf) (position : Position) :
    Takes forest ⟨forest.operators, .leaf content position :: forest.trees⟩
      [⟨content, position⟩] [] where
  leaves_eq := rfl
  operators_perm := by
    rw [account, account, applied, Tree.operators, List.append_nil, List.append_nil]

/-- A token that is read is an operand with a leaf, an operator or a parenthesis, and nothing but
its leaf and its operator is taken in. -/
theorem takes_of_readToken
    {token : Token} {forest next : Forest}
    (read : readToken limit token forest = .ok next) :
    Takes forest next token.leafAt?.toList token.operatorAt?.toList ∧ token.InExpression := by
  have noLeaf (noOperand : ¬ IsOperand token) : token.leafAt?.toList = [] := by
    rw [Token.leafAt?_of_not_isOperand noOperand, Option.toList_none]
  have inExpression (isOperator : token.kind.isOperator = true) : token.InExpression := by
    refine .inr (.inl ?_)
    rw [Token.operatorAt?, Option.isSome_map, TokenKind.isSome_operator?, isOperator]
  cases step_of_readToken read with
  | operand isOperand carries =>
      have isLeaf := Token.leafAt?_of_payload isOperand carries
      rw [isLeaf, Token.operatorAt?_of_isOperand isOperand]
      exact ⟨takes_of_leaf forest _ _, .inl (by rw [isLeaf, Option.isSome_some])⟩
  | opened isOpen =>
      rw [noLeaf (by simp [IsOperand, isOpen])]
      exact ⟨.push forest token, .inr (.inr (.inl isOpen))⟩
  | closed isClose wasOpen settles =>
      have noOperator : token.operatorAt? = none :=
        Token.operatorAt?_of_not_isOperator (by rw [isClose]; rfl)
      rw [noLeaf (by simp [IsOperand, isClose]), noOperator]
      exact ⟨(takes_of_settle settles).trans (takes_of_pop wasOpen), .inr (.inr (.inr isClose))⟩
  | binaryOperator isOperator _ _ settles =>
      rw [noLeaf (not_isOperand_of_isOperator isOperator)]
      exact ⟨(takes_of_settle settles).trans (.push _ token), inExpression isOperator⟩
  | prefixOperator isOperator _ _ =>
      rw [noLeaf (not_isOperand_of_isOperator isOperator)]
      exact ⟨.push forest token, inExpression isOperator⟩

theorem takes_of_readTokens
    {tokens : List Token} {forest last : Forest}
    (read : readTokens limit tokens forest = .ok last) :
    Takes forest last (tokens.filterMap Token.leafAt?) (tokens.filterMap Token.operatorAt?) ∧
      ∀ token ∈ tokens, token.InExpression := by
  induction tokens generalizing forest with
  | nil =>
      cases read
      exact ⟨.nothing _, List.forall_mem_nil _⟩
  | cons token rest inductionHypothesis =>
      obtain ⟨next, readFirst, readRest⟩ := (bind_eq_ok_iff _ _ _).mp read
      obtain ⟨takes, inExpression⟩ := takes_of_readToken readFirst
      obtain ⟨takesRest, restInExpression⟩ := inductionHypothesis readRest
      refine ⟨?_, List.forall_mem_cons.mpr ⟨inExpression, restInExpression⟩⟩
      have cons {β : Type} (view : Token -> Option β) :
          (token :: rest).filterMap view = (view token).toList ++ rest.filterMap view := by
        rw [List.filterMap_cons]
        cases view token <;> rfl
      rw [cons, cons]
      exact takes.trans takesRest

/-- The trees that are left have the leaves and operators of all tokens. -/
theorem takes_of_readAll
    {tokens : List Token} {trees : List Tree}
    (read : readAll limit tokens = .ok trees) :
    Takes empty ⟨[], trees⟩ (tokens.filterMap Token.leafAt?)
        (tokens.filterMap Token.operatorAt?) ∧
      ∀ token ∈ tokens, token.InExpression := by
  obtain ⟨last, reading, settles⟩ := (readAll_eq_ok_iff ..).mp read
  obtain ⟨takes, inExpression⟩ := takes_of_readTokens reading
  have both := takes.trans (takes_of_settle settles)
  rw [List.append_nil, List.append_nil] at both
  exact ⟨both, inExpression⟩

end Forest

/-- A tree is made of tokens: its leaves are the operands in their order, its operators are the
operators in some order, and everything else among the tokens is parentheses, which match. -/
structure MadeOf (tokens : List Token) (tree : Tree) : Prop where
  leaves_eq : tree.leaves = tokens.filterMap Token.leafAt?
  operators_perm : tree.operators.Perm (tokens.filterMap Token.operatorAt?)
  inExpression : ∀ token ∈ tokens, token.InExpression
  balanced : Balances 0 tokens

theorem Forest.ParsesAs.madeOf
    {tokens : List Token} {tree : Tree}
    (parses : Forest.ParsesAs tokens tree) :
    MadeOf tokens tree := by
  obtain ⟨_, read, _⟩ := (Forest.parsesAs_iff_readAll tokens tree).mp parses
  obtain ⟨takes, inExpression⟩ := Forest.takes_of_readAll read
  have operators := takes.operators_perm
  simp only [Forest.account, Forest.empty, applied, List.filterMap_nil, List.nil_append,
    List.append_nil] at operators
  exact ⟨takes.leaves_eq, operators, inExpression, Forest.balances_of_readAll read⟩

/-- A tree that is made of tokens is a bare leaf exactly if none of them is an operator. -/
theorem MadeOf.isLeaf_eq
    {tokens : List Token} {tree : Tree}
    (madeOf : MadeOf tokens tree) :
    tree.isLeaf = !tokens.any fun token => token.kind.isOperator := by
  have noOperator : tree.operators = [] ↔ ∀ token ∈ tokens, token.operatorAt? = none := by
    rw [← List.length_eq_zero_iff, madeOf.operators_perm.length_eq, List.length_eq_zero_iff,
      List.filterMap_eq_nil_iff]
  rw [Bool.eq_iff_iff, Tree.isLeaf_iff_operators_eq_nil, noOperator]
  simp [Token.operatorAt?, ← TokenKind.isSome_operator?]

/-- An expression keeps its tokens.  Whatever tokens are read as an expression, with whatever
payloads and in whatever order, their parentheses match, and the tree that is read has their
operands as its leaves, from left to right, and their operators as its operators, one for each.
The nodes that are added to the program are these leaves and operators, and one node more that
stands for the expression if there is no operator. -/
theorem parseExpression_keeps_tokens
    {tokens : List Token} {position : Position} {program left : Program} {id : NodeId}
    (accepted : parseExpression tokens position program = .ok id left) :
    ∃ tree nodes, left.tree? id = some tree ∧ left = program.extend nodes ∧
      MadeOf tokens tree ∧
      Comprises nodes tree.leaves tree.operators
        (if tokens.any fun token => token.kind.isOperator then 0 else 1) := by
  obtain ⟨tree, parsed, rfl, rfl⟩ := parse_of_parseExpression accepted
  have madeOf := (Forest.parsesAs_of_parse parsed).madeOf
  refine ⟨tree, _, ?_, rfl, madeOf, ?_⟩
  · exact Program.tree?_of_expressionLayout (Program.holds_extend program _)
  · have comprises := Tree.comprises_expressionLayout Tree.untagged program.size none tree
    rw [madeOf.isLeaf_eq] at comprises
    cases isAny : tokens.any fun token => token.kind.isOperator <;> rw [isAny] at comprises <;>
      exact comprises

/-- An identifier, a literal in parentheses that carries a name, and an operator behind both that
carries a foreign binding. -/
def forgedPostfix : List Token :=
  [⟨.identifier, "a", ⟨⟨1, 0, ""⟩, ⟨1, 1, ""⟩⟩, .leaf (.identifier "a")⟩,
    ⟨.openParenthesis, "(", ⟨⟨1, 2, ""⟩, ⟨1, 3, ""⟩⟩, .empty⟩,
    ⟨.literal, "1", ⟨⟨1, 3, ""⟩, ⟨1, 4, ""⟩⟩, .leaf (.identifier "b")⟩,
    ⟨.closeParenthesis, ")", ⟨⟨1, 4, ""⟩, ⟨1, 5, ""⟩⟩, .empty⟩,
    ⟨.plus, "+", ⟨⟨1, 6, ""⟩, ⟨1, 7, ""⟩⟩, .operator ⟨9, 2⟩⟩]

/-- They are read as a sum of both operands, in three nodes. -/
theorem parseExpression_keeps_tokens_of_forged_postfix :
    ∃ id left tree nodes,
      parseExpression forgedPostfix Source.nowhere (.empty Source.nowhere) = .ok id left ∧
        left.tree? id = some tree ∧ MadeOf forgedPostfix tree ∧
        Comprises nodes [⟨.identifier "a", ⟨1, 0, ""⟩⟩, ⟨.identifier "b", ⟨1, 3, ""⟩⟩]
          [⟨.binary .add, ⟨1, 6, ""⟩⟩] 0 := by
  have accepted : ∃ id left,
      parseExpression forgedPostfix Source.nowhere (.empty Source.nowhere) = .ok id left :=
    ⟨_, _, rfl⟩
  obtain ⟨id, left, accepted⟩ := accepted
  obtain ⟨tree, nodes, isTree, _, madeOf, comprises⟩ := parseExpression_keeps_tokens accepted
  refine ⟨id, left, tree, nodes, accepted, isTree, madeOf, ?_⟩
  have operators := List.perm_singleton.mp madeOf.operators_perm
  rw [madeOf.leaves_eq, operators] at comprises
  exact comprises

end Grammar
end ScriptLang
