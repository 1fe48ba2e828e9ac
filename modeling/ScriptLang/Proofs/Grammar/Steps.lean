import ScriptLang.Proofs.Grammar.Infix

/-!
# Steps of a reading

Everything that the reading of an expression can do when it succeeds: what an
operator makes of its operands, what settling goes through, and what one token does
to the operators and trees that wait.  What a reading keeps is proved from these
cases, without a look at the functions themselves.
-/

namespace ScriptLang
namespace Grammar
namespace Forest

variable {limit : Nat}

theorem applyTo_of_unaryOperator?
    {operator : Token} {precedence : Nat} {unary : UnaryOperator}
    (bound : operator.payload.binding? = some ⟨precedence, 1⟩)
    (isUnary : operator.kind.unaryOperator? = some unary)
    (operand : Tree) (others : List Tree) :
    applyTo operator (operand :: others) =
      .ok (.unary unary operator.span.start operand, others) := by
  simp only [applyTo, bindingOf, bound, ok_bind, isUnary, pure_eq_ok]

theorem applyTo_of_binaryOperator?
    {operator : Token} {precedence : Nat} {binary : BinaryOperator}
    (bound : operator.payload.binding? = some ⟨precedence, 2⟩)
    (isBinary : operator.kind.binaryOperator? = some binary)
    (left right : Tree) (others : List Tree) :
    applyTo operator (right :: left :: others) =
      .ok (.binary binary operator.span.start left right, others) := by
  simp only [applyTo, bindingOf, bound, ok_bind, isBinary, pure_eq_ok]

theorem combine_eq_ok_iff (operator : Token) (trees result : List Tree) :
    combine limit operator trees = .ok result ↔
      ∃ tree others, applyTo operator trees = .ok (tree, others) ∧ tree.nesting ≤ limit ∧
        result = tree :: others := by
  constructor
  · intro combined
    obtain ⟨⟨tree, others⟩, isApplied, checked⟩ := (bind_eq_ok_iff _ _ _).mp combined
    dsimp only at checked
    split at checked
    · cases checked
    · next within =>
        cases checked
        exact ⟨tree, others, isApplied, Nat.le_of_not_lt within, rfl⟩
  · rintro ⟨tree, others, isApplied, within, rfl⟩
    rw [combine, isApplied, ok_bind]
    exact if_neg (Nat.not_lt.mpr within)

/-- Settling lets the last operator take its operands, again and again, so what is kept each time
is kept on the whole. -/
theorem settle_induction
    {motive : Forest -> Prop}
    {precedence : Nat} {operators : List Token} {trees : List Tree} {settled : Forest}
    (settles : settle limit precedence operators trees = .ok settled)
    (start : motive ⟨operators, trees⟩)
    (step : ∀ top operators trees combined, top.kind ≠ .openParenthesis ->
      combine limit top trees = .ok combined ->
      motive ⟨top :: operators, trees⟩ -> motive ⟨operators, combined⟩) :
    motive settled := by
  induction operators generalizing trees with
  | nil =>
      cases settles
      exact start
  | cons top operators inductionHypothesis =>
      unfold settle at settles
      split at settles
      · cases settles
        exact start
      · next notOpen =>
          obtain ⟨binding, _, rest⟩ := (bind_eq_ok_iff _ _ _).mp settles
          split at rest
          · cases rest
            exact start
          · obtain ⟨combined, combining, further⟩ := (bind_eq_ok_iff _ _ _).mp rest
            exact inductionHypothesis further
              (step top operators trees combined notOpen combining start)

/-- When everything is settled, an operator that still waits is a parenthesis. -/
theorem isOpen_of_settle_zero
    {operators rest : List Token} {top : Token} {trees left : List Tree}
    (settled : settle limit 0 operators trees = .ok ⟨top :: rest, left⟩) :
    top.kind = .openParenthesis := by
  induction operators generalizing trees with
  | nil => cases settled
  | cons first operators inductionHypothesis =>
      by_cases isOpen : first.kind = .openParenthesis
      · rw [settle_of_openParenthesis _ _ _ _ isOpen] at settled
        cases settled
        exact isOpen
      · rw [settle_zero_cons _ _ _ isOpen] at settled
        obtain ⟨combined, _, further⟩ := (bind_eq_ok_iff _ _ _).mp settled
        exact inductionHypothesis further

theorem readToken_of_isOperator
    (limit : Nat) {token : Token}
    (forest : Forest)
    (isOperator : token.kind.isOperator = true) :
    readToken limit token forest = readOperator limit token forest := by
  unfold readToken
  split
  · next kind => simp [kind, TokenKind.isOperator, TokenKind.binding?] at isOperator
  · next kind => simp [kind, TokenKind.isOperator, TokenKind.binding?] at isOperator
  · next kind => simp [kind, TokenKind.isOperator, TokenKind.binding?] at isOperator
  · next kind => simp [kind, TokenKind.isOperator, TokenKind.binding?] at isOperator
  · rw [if_pos isOperator]

theorem readToken_of_operand
    (limit : Nat) {token : Token} {leaf : Tree}
    (forest : Forest)
    (isOperand : IsOperand token)
    (isLeaf : leafOf token = .ok leaf) :
    readToken limit token forest = .ok ⟨forest.operators, leaf :: forest.trees⟩ := by
  unfold readToken
  rcases isOperand with kind | kind <;>
    · rw [kind]
      dsimp only
      rw [isLeaf]
      rfl

theorem readToken_of_openParenthesis
    (limit : Nat) {token : Token}
    (forest : Forest)
    (isOpen : token.kind = .openParenthesis) :
    readToken limit token forest = .ok ⟨token :: forest.operators, forest.trees⟩ := by
  unfold readToken
  rw [isOpen]
  rfl

theorem readToken_of_closeParenthesis
    (limit : Nat) {token : Token}
    (forest : Forest)
    (isClose : token.kind = .closeParenthesis) :
    readToken limit token forest = close limit token forest := by
  unfold readToken
  rw [isClose]

/-- Everything that the reading of a token can do. -/
inductive Step (limit : Nat) (token : Token) (forest : Forest) : Forest -> Prop
  | operand
      {content : Leaf}
      (isOperand : IsOperand token)
      (carries : token.payload = .leaf content) :
      Step limit token forest
        ⟨forest.operators, .leaf content token.span.start :: forest.trees⟩
  | opened (isOpen : token.kind = .openParenthesis) :
      Step limit token forest ⟨token :: forest.operators, forest.trees⟩
  /-- A parenthesis is closed that was opened by the last operator which is not settled. -/
  | closed
      {top : Token} {operators : List Token} {trees : List Tree}
      (isClose : token.kind = .closeParenthesis)
      (wasOpen : top.kind = .openParenthesis)
      (settles : settle limit 0 forest.operators forest.trees =
        .ok ⟨top :: operators, trees⟩) :
      Step limit token forest ⟨operators, trees⟩
  | binaryOperator
      {binding : Binding} {settled : Forest}
      (isOperator : token.kind.isOperator = true)
      (bound : bindingOf token = .ok binding)
      (isBinary : binding.arity = 2)
      (settles : settle limit binding.precedence forest.operators forest.trees = .ok settled) :
      Step limit token forest ⟨token :: settled.operators, settled.trees⟩
  | prefixOperator
      {binding : Binding}
      (isOperator : token.kind.isOperator = true)
      (bound : bindingOf token = .ok binding)
      (notBinary : binding.arity ≠ 2) :
      Step limit token forest ⟨token :: forest.operators, forest.trees⟩

/-- A token is read by one of the steps. -/
theorem step_of_readToken
    {token : Token} {forest next : Forest}
    (read : readToken limit token forest = .ok next) :
    Step limit token forest next := by
  have operand (isOperand : IsOperand token)
      (readLeaf : (leafOf token >>= fun tree =>
        (.ok ⟨forest.operators, tree :: forest.trees⟩ : Except Fault Forest)) = .ok next) :
      Step limit token forest next := by
    obtain ⟨_, isLeaf, pushed⟩ := (bind_eq_ok_iff _ _ _).mp readLeaf
    obtain ⟨content, carries, rfl⟩ := leafOf_eq_ok isLeaf
    cases pushed
    exact .operand isOperand carries
  unfold readToken at read
  split at read
  · next isIdentifier => exact operand (.inl isIdentifier) read
  · next isLiteral => exact operand (.inr isLiteral) read
  · next isOpen =>
      cases read
      exact .opened isOpen
  · next isClose =>
      obtain ⟨⟨operators, trees⟩, settles, popped⟩ := (bind_eq_ok_iff _ _ _).mp read
      cases operators with
      | nil => cases popped
      | cons top operators =>
          cases popped
          exact .closed isClose (isOpen_of_settle_zero settles) settles
  · split at read
    · next isOperator =>
        obtain ⟨binding, bound, pushed⟩ := (bind_eq_ok_iff _ _ _).mp read
        split at pushed
        · next isBinary =>
            obtain ⟨settled, settles, result⟩ := (bind_eq_ok_iff _ _ _).mp pushed
            cases result
            exact .binaryOperator isOperator bound isBinary settles
        · next notBinary =>
            cases pushed
            exact .prefixOperator isOperator bound notBinary
    · cases read

/-- Every step is done by reading the token. -/
theorem readToken_of_step
    {token : Token} {forest next : Forest}
    (step : Step limit token forest next) :
    readToken limit token forest = .ok next := by
  cases step with
  | operand isOperand carries =>
      exact readToken_of_operand limit forest isOperand (by rw [leafOf, carries])
  | opened isOpen => exact readToken_of_openParenthesis limit forest isOpen
  | closed isClose _ settles =>
      rw [readToken_of_closeParenthesis limit forest isClose, close, settles]
      rfl
  | binaryOperator isOperator bound isBinary settles =>
      rw [readToken_of_isOperator limit forest isOperator, readOperator, bound, ok_bind,
        if_pos isBinary, settles]
      rfl
  | prefixOperator isOperator bound notBinary =>
      rw [readToken_of_isOperator limit forest isOperator, readOperator, bound, ok_bind,
        if_neg notBinary]
      rfl

/-- Tokens are read to their end when everything is settled behind them. -/
theorem readAll_eq_ok_iff (tokens : List Token) (trees : List Tree) :
    readAll limit tokens = .ok trees ↔
      ∃ last, readTokens limit tokens empty = .ok last ∧
        settle limit 0 last.operators last.trees = .ok ⟨[], trees⟩ := by
  constructor
  · intro read
    obtain ⟨last, reading, finishing⟩ := (bind_eq_ok_iff _ _ _).mp read
    obtain ⟨⟨operators, left⟩, settles, popped⟩ := (bind_eq_ok_iff _ _ _).mp finishing
    cases operators with
    | cons top operators => cases popped
    | nil =>
        cases popped
        exact ⟨last, reading, settles⟩
  · rintro ⟨last, reading, settles⟩
    rw [readAll, reading, ok_bind, finish, settles]
    rfl

end Forest
end Grammar
end ScriptLang
