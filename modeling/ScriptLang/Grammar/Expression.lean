import ScriptLang.Program.Basic
import ScriptLang.Token.Basic

/-!
# Expressions

An expression is read from the tokens of a statement in one pass with two
waiting: operators that wait for their right operand, and operands that are nodes
of the program already.  A binary operator first lets every waiting operator of
at least its own precedence take its operands, so equal precedences group to the
left; a prefix operator waits in any case.  An opening parenthesis keeps what is
below it waiting until it is closed.

Every operand is kept with the nesting of its operators, which is bounded.
-/

namespace ScriptLang
namespace Grammar

open Source (Position)

/-- Reading that adds nodes to a program. -/
abbrev Building := EStateM Fault Program

/-- A node that is an operand, with the nesting of its operators. -/
structure Operand where
  node : NodeId
  depth : Nat
  deriving DecidableEq, Repr

/-- The operators and operands that are waiting, the latest first. -/
structure Waiting where
  operators : List Token
  operands : List Operand
  deriving DecidableEq, Repr

namespace Waiting

/-- Before the first token nothing waits. -/
def empty : Waiting := ⟨[], []⟩

/-- Let an operator wait. -/
def pushOperator (waiting : Waiting) (token : Token) : Waiting :=
  { waiting with operators := token :: waiting.operators }

/-- Let an operand wait. -/
def pushOperand (waiting : Waiting) (operand : Operand) : Waiting :=
  { waiting with operands := operand :: waiting.operands }

end Waiting

/-- The binding of an operator token. -/
def bindingOf (token : Token) : Except Fault Binding :=
  match token.payload.binding? with
  | some binding => .ok binding
  | none => .error (.ofInternal (.noBinding token) token.span.start)

/-- Add the leaf that a token carries. -/
def addLeaf (token : Token) : Building NodeId :=
  match token.payload with
  | .leaf leaf => Program.addNode (.leaf leaf) token.span.start
  | _ => throw (.ofInternal (.noLeaf token) token.span.start)

/-- The last operand and the ones that wait before it. -/
def popOperand (operator : Token) : List Operand -> Except Fault (Operand × List Operand)
  | last :: others => .ok (last, others)
  | [] => .error (.ofSyntax (.missingOperand operator.value) operator.span.start)

/-- The form of the expression that an operator makes with the last operands, its nesting, and
the operands that go on waiting. -/
def applyOperator (operator : Token) (operands : List Operand) :
    Except Fault (ExpressionForm × Nat × List Operand) := do
  let binding ← bindingOf operator
  let refusal : Fault :=
    .ofInternal (.notAnOperator operator binding.arity) operator.span.start
  match binding.arity with
  | 1 =>
      let (operand, others) ← popOperand operator operands
      match operator.kind.unaryOperator? with
      | some unary => return (.unary unary operand.node, operand.depth + 1, others)
      | none => throw refusal
  | 2 =>
      let (right, others) ← popOperand operator operands
      let (left, others) ← popOperand operator others
      match operator.kind.binaryOperator? with
      | some binary =>
          return (.binary binary left.node right.node, max left.depth right.depth + 1, others)
      | none => throw refusal
  | _ => throw refusal

/-- Replace the operands of an operator by the expression that applies it. -/
def reduce (operator : Token) (operands : List Operand) : Building (List Operand) := do
  let (form, depth, others) ← liftExcept (applyOperator operator operands)
  if depth > greatestDepth then
    throw (.ofSyntax .nestedTooDeeply operator.span.start)
  else
    let node ← Program.addNode (.expression ⟨form, none⟩) operator.span.start
    return ⟨node, depth⟩ :: others

/-- Apply the waiting operators of at least the given precedence, down to the next opening
parenthesis. -/
def reduceStronger (precedence : Nat) : List Token -> List Operand -> Building Waiting
  | [], operands => return ⟨[], operands⟩
  | top :: operators, operands => do
      if top.kind = .openParenthesis then return ⟨top :: operators, operands⟩
      else
        let binding ← liftExcept (bindingOf top)
        if precedence > binding.precedence then return ⟨top :: operators, operands⟩
        else
          let operands ← reduce top operands
          reduceStronger precedence operators operands

/-- Apply the waiting operators down to the opening parenthesis that `close` closes. -/
def closeParenthesis (close : Token) : List Token -> List Operand -> Building Waiting
  | [], _ => throw (.ofSyntax .mismatchedParentheses close.span.start)
  | top :: operators, operands => do
      if top.kind = .openParenthesis then return ⟨operators, operands⟩
      else
        let operands ← reduce top operands
        closeParenthesis close operators operands

/-- Apply all waiting operators at the end of an expression. -/
def reduceAll : List Token -> List Operand -> Building (List Operand)
  | [], operands => return operands
  | top :: operators, operands => do
      if top.kind = .openParenthesis then
        throw (.ofSyntax .mismatchedParentheses top.span.start)
      else
        let operands ← reduce top operands
        reduceAll operators operands

/-- Let an operator wait, after the operators that bind at least as strongly if it is binary. -/
def readOperator (token : Token) (waiting : Waiting) : Building Waiting := do
  let binding ← liftExcept (bindingOf token)
  if binding.arity = 2 then
    let waiting ← reduceStronger binding.precedence waiting.operators waiting.operands
    return waiting.pushOperator token
  else return waiting.pushOperator token

/-- Read one token of an expression. -/
def readToken (token : Token) (waiting : Waiting) : Building Waiting :=
  match token.kind with
  | .identifier | .literal => do
      let node ← addLeaf token
      return waiting.pushOperand ⟨node, 0⟩
  | .openParenthesis => return waiting.pushOperator token
  | .closeParenthesis => closeParenthesis token waiting.operators waiting.operands
  | kind =>
      if kind.isOperator then readOperator token waiting
      else throw (.ofSyntax (.notInExpression token.value) token.span.start)

/-- Read the tokens of an expression one after the other. -/
def readTokens : List Token -> Waiting -> Building Waiting
  | [], waiting => return waiting
  | token :: rest, waiting => do
      let waiting ← readToken token waiting
      readTokens rest waiting

/-- The expression that a node stands for: a bare identifier or literal gets an expression of
its own. -/
def wrapLeaf (id : NodeId) : Building NodeId := do
  let node ← liftExcept ((← get).node id)
  match node.kind with
  | .expression _ => return id
  | .leaf (.identifier _) | .leaf (.literal _) =>
      Program.addNode (.expression ⟨.single id, none⟩) node.position
  | _ => throw (.ofInternal (.notAnOperand id) node.position)

/-- Read all tokens as one expression that should start at a given position. -/
def parseExpression (tokens : List Token) (position : Position) : Building NodeId := do
  if tokens.isEmpty then throw (.ofSyntax .emptyExpression position)
  else
    let waiting ← readTokens tokens .empty
    let operands ← reduceAll waiting.operators waiting.operands
    match operands with
    | [operand] => wrapLeaf operand.node
    | _ => throw (.ofInternal (.leftoverOperands operands.length) position)

end Grammar
end ScriptLang
