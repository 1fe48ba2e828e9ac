import ScriptLang.Grammar.Expression
import ScriptLang.Proofs.Program.Tree
import ScriptLang.Proofs.Running

/-!
# Reading expressions as trees

The reading of an expression once more, with whole trees as operands instead of
the nodes of a program.  Closing a parenthesis and ending an expression are both
settled by letting the waiting operators of precedence zero or more take their
operands, which are all operators down to the next opening parenthesis.  The limit
of the nesting is a parameter.
-/

namespace ScriptLang
namespace Grammar

open Source (Position)

/-- The operators and trees that are waiting, the latest first. -/
structure Forest where
  operators : List Token
  trees : List Tree
  deriving DecidableEq, Repr

namespace Forest

/-- Before the first token nothing waits. -/
def empty : Forest := ⟨[], []⟩

/-- The leaf that a token carries. -/
def leafOf (token : Token) : Except Fault Tree :=
  match token.payload with
  | .leaf leaf => .ok (.leaf leaf token.span.start)
  | _ => .error (.ofInternal (.noLeaf token) token.span.start)

theorem leafOf_eq_ok
    {token : Token} {tree : Tree}
    (isLeaf : leafOf token = .ok tree) :
    ∃ content, token.payload = .leaf content ∧ tree = .leaf content token.span.start := by
  unfold leafOf at isLeaf
  split at isLeaf
  · next content carries =>
      cases isLeaf
      exact ⟨content, carries, rfl⟩
  · cases isLeaf

/-- The tree that an operator makes with the last trees, and the trees that go on waiting. -/
def applyTo (operator : Token) (trees : List Tree) : Except Fault (Tree × List Tree) := do
  let binding ← bindingOf operator
  let refusal : Fault :=
    .ofInternal (.notAnOperator operator binding.arity) operator.span.start
  let missing : Fault := .ofSyntax (.missingOperand operator.value) operator.span.start
  match binding.arity, trees with
  | 1, operand :: others =>
      match operator.kind.unaryOperator? with
      | some unary => return (.unary unary operator.span.start operand, others)
      | none => throw refusal
  | 2, right :: left :: others =>
      match operator.kind.binaryOperator? with
      | some binary => return (.binary binary operator.span.start left right, others)
      | none => throw refusal
  | 1, _ => throw missing
  | 2, _ => throw missing
  | _, _ => throw refusal

/-- Everything that the application of an operator can make: it takes one tree if its binding
has one operand and two if it has two. -/
theorem applyTo_eq_ok
    {operator : Token} {trees others : List Tree} {tree : Tree}
    (applied : applyTo operator trees = .ok (tree, others)) :
    (∃ precedence unary operand,
      operator.payload.binding? = some ⟨precedence, 1⟩ ∧
      operator.kind.unaryOperator? = some unary ∧
      trees = operand :: others ∧
      tree = .unary unary operator.span.start operand) ∨
    (∃ precedence binary left right,
      operator.payload.binding? = some ⟨precedence, 2⟩ ∧
      operator.kind.binaryOperator? = some binary ∧
      trees = right :: left :: others ∧
      tree = .binary binary operator.span.start left right) := by
  unfold applyTo bindingOf at applied
  cases bound : operator.payload.binding? with
  | none => simp [bound] at applied
  | some binding =>
      obtain ⟨precedence, arity⟩ := binding
      simp only [bound, ok_bind] at applied
      split at applied
      · next operand rest =>
          split at applied
          · next unary found =>
              cases applied
              exact .inl ⟨precedence, unary, operand, rfl, found, rfl, rfl⟩
          · cases applied
      · next right left rest =>
          split at applied
          · next binary found =>
              cases applied
              exact .inr ⟨precedence, binary, left, right, rfl, found, rfl, rfl⟩
          · cases applied
      all_goals cases applied

/-- Replace the operands of an operator by the tree that applies it. -/
def combine (limit : Nat) (operator : Token) (trees : List Tree) :
    Except Fault (List Tree) := do
  let (tree, others) ← applyTo operator trees
  if tree.nesting > limit then throw (.ofSyntax .nestedTooDeeply operator.span.start)
  else return tree :: others

/-- Let the waiting operators of at least the given precedence take their operands, down to
the next opening parenthesis. -/
def settle (limit precedence : Nat) : List Token -> List Tree -> Except Fault Forest
  | [], trees => return ⟨[], trees⟩
  | top :: operators, trees => do
      if top.kind = .openParenthesis then return ⟨top :: operators, trees⟩
      else
        let binding ← bindingOf top
        if precedence > binding.precedence then return ⟨top :: operators, trees⟩
        else
          let trees ← combine limit top trees
          settle limit precedence operators trees

/-- Close the last parenthesis that is open. -/
def close (limit : Nat) (closing : Token) (forest : Forest) : Except Fault Forest := do
  let settled ← settle limit 0 forest.operators forest.trees
  match settled.operators with
  | [] => throw (.ofSyntax .mismatchedParentheses closing.span.start)
  | _ :: operators => return ⟨operators, settled.trees⟩

/-- End an expression. -/
def finish (limit : Nat) (forest : Forest) : Except Fault (List Tree) := do
  let settled ← settle limit 0 forest.operators forest.trees
  match settled.operators with
  | [] => return settled.trees
  | top :: _ => throw (.ofSyntax .mismatchedParentheses top.span.start)

/-- Let an operator wait, after the operators that bind at least as strongly if it is
binary. -/
def readOperator (limit : Nat) (token : Token) (forest : Forest) : Except Fault Forest := do
  let binding ← bindingOf token
  if binding.arity = 2 then
    let settled ← settle limit binding.precedence forest.operators forest.trees
    return ⟨token :: settled.operators, settled.trees⟩
  else return ⟨token :: forest.operators, forest.trees⟩

/-- Read one token of an expression. -/
def readToken (limit : Nat) (token : Token) (forest : Forest) : Except Fault Forest :=
  match token.kind with
  | .identifier | .literal => do
      let tree ← leafOf token
      return ⟨forest.operators, tree :: forest.trees⟩
  | .openParenthesis => return ⟨token :: forest.operators, forest.trees⟩
  | .closeParenthesis => close limit token forest
  | kind =>
      if kind.isOperator then readOperator limit token forest
      else throw (.ofSyntax (.notInExpression token.value) token.span.start)

/-- Read the tokens of an expression one after the other. -/
def readTokens (limit : Nat) : List Token -> Forest -> Except Fault Forest
  | [], forest => return forest
  | token :: rest, forest => do
      let forest ← readToken limit token forest
      readTokens limit rest forest

/-- The trees that are left at the end of an expression. -/
def readAll (limit : Nat) (tokens : List Token) : Except Fault (List Tree) := do
  let forest ← readTokens limit tokens empty
  finish limit forest

/-- An operator whose binding is unknown is refused before anything else. -/
theorem combine_of_bindingOf_eq_error
    (limit : Nat) {operator : Token} {fault : Fault}
    (trees : List Tree)
    (unbound : bindingOf operator = .error fault) :
    combine limit operator trees = .error fault := by
  simp [combine, applyTo, unbound]

@[simp] theorem settle_nil (limit precedence : Nat) (trees : List Tree) :
    settle limit precedence [] trees = .ok ⟨[], trees⟩ := rfl

theorem settle_of_openParenthesis
    (limit precedence : Nat) {top : Token}
    (operators : List Token) (trees : List Tree)
    (isOpen : top.kind = .openParenthesis) :
    settle limit precedence (top :: operators) trees = .ok ⟨top :: operators, trees⟩ := by
  simp [settle, isOpen]

/-- A stronger operator stops the operators that wait from taking their operands. -/
theorem settle_of_lt
    (limit : Nat) {precedence : Nat} {top : Token} {binding : Binding}
    (operators : List Token) (trees : List Tree)
    (bound : bindingOf top = .ok binding)
    (stronger : binding.precedence < precedence) :
    settle limit precedence (top :: operators) trees = .ok ⟨top :: operators, trees⟩ := by
  simp [settle, bound, stronger]

/-- An operator that is not stronger lets the last operator that waits take its operands. -/
theorem settle_of_le
    (limit : Nat) {precedence : Nat} {top : Token} {binding : Binding}
    (operators : List Token) (trees : List Tree)
    (notOpen : top.kind ≠ .openParenthesis)
    (bound : bindingOf top = .ok binding)
    (notStronger : precedence ≤ binding.precedence) :
    settle limit precedence (top :: operators) trees =
      combine limit top trees >>= settle limit precedence operators := by
  have notLess : ¬ binding.precedence < precedence := by omega
  simp only [settle, if_neg notOpen, bound, ok_bind, gt_iff_lt, if_neg notLess]

/-- No operator is weaker than precedence zero. -/
theorem settle_zero_cons
    (limit : Nat) {top : Token}
    (operators : List Token) (trees : List Tree)
    (notOpen : top.kind ≠ .openParenthesis) :
    settle limit 0 (top :: operators) trees =
      combine limit top trees >>= settle limit 0 operators := by
  cases bound : bindingOf top with
  | error fault =>
      rw [combine_of_bindingOf_eq_error limit trees bound]
      simp [settle, notOpen, bound]
  | ok binding =>
      exact settle_of_le limit operators trees notOpen bound (Nat.zero_le _)

/-- The one tree that is left at the end of an expression, if it may stand as an expression.
The number `start` of its first node is only used to name it in the refusal. -/
def single (start : Nat) (position : Position) : List Tree -> Except Fault Tree
  | [tree] =>
      if tree.isExpression then .ok tree
      else .error (.ofInternal (.notAnOperand start) tree.position)
  | trees => .error (.ofInternal (.leftoverOperands trees.length) position)

/-- The tree of all tokens as one expression that should start at a given position. -/
def parse (start : Nat) (tokens : List Token) (position : Position) : Except Fault Tree := do
  if tokens.isEmpty then throw (.ofSyntax .emptyExpression position)
  else
    let trees ← readAll greatestDepth tokens
    single start position trees

@[simp] theorem readTokens_nil (limit : Nat) (forest : Forest) :
    readTokens limit [] forest = .ok forest := rfl

theorem readTokens_cons
    (limit : Nat) (token : Token) (rest : List Token) (forest : Forest) :
    readTokens limit (token :: rest) forest =
      readToken limit token forest >>= readTokens limit rest := rfl

/-- Tokens are read in the order of the list, so a list may be cut anywhere. -/
theorem readTokens_append (limit : Nat) (first second : List Token) (forest : Forest) :
    readTokens limit (first ++ second) forest =
      readTokens limit first forest >>= readTokens limit second := by
  induction first generalizing forest with
  | nil => rfl
  | cons token rest inductionHypothesis =>
      simp only [List.cons_append, readTokens_cons]
      cases readToken limit token forest with
      | error fault => rfl
      | ok next => exact inductionHypothesis next

end Forest
end Grammar
end ScriptLang
