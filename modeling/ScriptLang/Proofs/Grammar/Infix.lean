import ScriptLang.Proofs.Grammar.Forest

/-!
# Infix expressions

The token lists that are infix expressions, and the tree that such a list stands
for by the precedences of its operators.

    E ::= T | T binary E
    T ::= identifier | literal | ( E ) | prefix T

The tree is found by climbing precedences: after an operand all operators that
are stronger than a given precedence are applied to it, each to a right operand
that is found in the same way for the precedence of the operator itself.
-/

namespace ScriptLang
namespace Grammar

open Source (Position)

/-- Whether a token is an operand by itself. -/
def IsOperand (token : Token) : Prop :=
  token.kind = .identifier ∨ token.kind = .literal

/-- Whether a token stands between two operands. -/
def IsBinary (token : Token) : Prop := token.kind.binaryOperator?.isSome

/-- Whether a token stands in front of its operand. -/
def IsPrefix (token : Token) : Prop := token.kind.unaryOperator?.isSome

/-- The categories of infix expressions. -/
inductive Category
  | expression
  | term
  deriving DecidableEq, Repr

/-- The token lists of each category. -/
inductive Derives : Category -> List Token -> Prop
  | term {tokens : List Token} :
      Derives .term tokens -> Derives .expression tokens
  | binary {left right : List Token} {operator : Token} :
      Derives .term left -> IsBinary operator -> Derives .expression right ->
      Derives .expression (left ++ operator :: right)
  | operand {token : Token} :
      IsOperand token -> Derives .term [token]
  | parenthesised {inner : List Token} {opening closing : Token} :
      opening.kind = .openParenthesis -> Derives .expression inner ->
      closing.kind = .closeParenthesis ->
      Derives .term (opening :: (inner ++ [closing]))
  | application {tokens : List Token} {operator : Token} :
      IsPrefix operator -> Derives .term tokens ->
      Derives .term (operator :: tokens)

/-- The token lists that are infix expressions. -/
def Infix (tokens : List Token) : Prop := Derives .expression tokens

/-- The binary operator that a token stands for, with its precedence. -/
def binaryOf? (token : Token) : Option (BinaryOperator × Nat) := do
  let operator ← token.kind.binaryOperator?
  let binding ← token.kind.binding?
  return (operator, binding.precedence)

/-- The prefix operator that a token stands for, with its precedence. -/
def unaryOf? (token : Token) : Option (UnaryOperator × Nat) := do
  let operator ← token.kind.unaryOperator?
  let binding ← token.kind.binding?
  return (operator, binding.precedence)

/-- Tokens that are left over from others. -/
abbrev Rest (tokens : List Token) : Type :=
  { rest : List Token // rest.length < tokens.length }

/-- Tokens of which some may have been read. -/
abbrev Remainder (tokens : List Token) : Type :=
  { rest : List Token // rest.length ≤ tokens.length }

mutual

/-- Read a leaf, an expression in parentheses, or a prefix operator with what binds tighter
than it. -/
def readTerm (tokens : List Token) : Option (Tree × Rest tokens) :=
  match tokens with
  | [] => none
  | token :: rest =>
      match token.kind with
      | .identifier | .literal =>
          match Forest.leafOf token with
          | .ok leaf => some (leaf, ⟨rest, by simp⟩)
          | .error _ => none
      | .openParenthesis =>
          match readClimbing 0 rest with
          | some (tree, ⟨closing :: others, shorter⟩) =>
              if closing.kind = .closeParenthesis then
                some (tree, ⟨others, by simp only [List.length_cons] at *; omega⟩)
              else none
          | _ => none
      | _ =>
          match unaryOf? token with
          | some (operator, precedence) =>
              match readClimbing precedence rest with
              | some (operand, ⟨others, shorter⟩) =>
                  some (.unary operator token.span.start operand,
                    ⟨others, by simp only [List.length_cons]; omega⟩)
              | none => none
          | none => none
termination_by (tokens.length, 0)

/-- Read a term and apply the operators behind it that are stronger than `least`. -/
def readClimbing (least : Nat) (tokens : List Token) : Option (Tree × Rest tokens) :=
  match readTerm tokens with
  | none => none
  | some (operand, ⟨rest, shorter⟩) =>
      match applyStronger least operand rest with
      | none => none
      | some (tree, ⟨others, notLonger⟩) => some (tree, ⟨others, by omega⟩)
termination_by (tokens.length, 1)

/-- Apply the operators that are stronger than `least` to what was read so far. -/
def applyStronger (least : Nat) (left : Tree) (tokens : List Token) :
    Option (Tree × Remainder tokens) :=
  match tokens with
  | [] => some (left, ⟨[], by simp⟩)
  | token :: rest =>
      match binaryOf? token with
      | some (operator, precedence) =>
          if least < precedence then
            match readClimbing precedence rest with
            | none => none
            | some (right, ⟨others, shorter⟩) =>
                match applyStronger least (.binary operator token.span.start left right)
                    others with
                | none => none
                | some (tree, ⟨remaining, notLonger⟩) =>
                    some (tree, ⟨remaining, by simp only [List.length_cons]; omega⟩)
          else some (left, ⟨token :: rest, by simp⟩)
      | none => some (left, ⟨token :: rest, by simp⟩)
termination_by (tokens.length, 0)

end

/-- The tree that is found by climbing the precedences above `least`, and the tokens behind
it. -/
def climb (least : Nat) (tokens : List Token) : Option (Tree × List Token) :=
  (readClimbing least tokens).map fun read => (read.1, read.2.1)

/-- The term at the start of a token list, and the tokens behind it. -/
def climbTerm (tokens : List Token) : Option (Tree × List Token) :=
  (readTerm tokens).map fun read => (read.1, read.2.1)

/-- What was read so far with the operators behind it that are stronger than `least`, and the
tokens behind them. -/
def climbOn (least : Nat) (left : Tree) (tokens : List Token) : Option (Tree × List Token) :=
  (applyStronger least left tokens).map fun read => (read.1, read.2.1)

theorem climb_eq (least : Nat) (tokens : List Token) :
    climb least tokens = (climbTerm tokens).bind fun read => climbOn least read.1 read.2 := by
  unfold climb climbTerm readClimbing
  cases readTerm tokens with
  | none => rfl
  | some read =>
      obtain ⟨operand, rest, shorter⟩ := read
      simp only [Option.map_some, Option.bind_some, climbOn]
      cases applyStronger least operand rest with
      | none => rfl
      | some last => rfl

theorem climbTerm_of_operand
    {token : Token} {leaf : Tree}
    (rest : List Token)
    (isOperand : IsOperand token)
    (isLeaf : Forest.leafOf token = .ok leaf) :
    climbTerm (token :: rest) = some (leaf, rest) := by
  unfold climbTerm readTerm
  rcases isOperand with kind | kind <;> simp [kind, isLeaf]

theorem climbTerm_of_openParenthesis
    {token : Token}
    (rest : List Token)
    (isOpen : token.kind = .openParenthesis) :
    climbTerm (token :: rest) =
      match climb 0 rest with
      | some (tree, closing :: others) =>
          if closing.kind = .closeParenthesis then some (tree, others) else none
      | _ => none := by
  unfold climbTerm climb readTerm
  simp only [isOpen]
  cases readClimbing 0 rest with
  | none => rfl
  | some read =>
      obtain ⟨tree, ⟨_ | ⟨closing, others⟩, shorter⟩⟩ := read
      · rfl
      · simp only [Option.map_some]
        split <;> rfl

theorem climbTerm_of_unaryOf?
    {token : Token} {operator : UnaryOperator} {precedence : Nat}
    (rest : List Token)
    (isUnary : unaryOf? token = some (operator, precedence)) :
    climbTerm (token :: rest) =
      (climb precedence rest).map fun read =>
        (.unary operator token.span.start read.1, read.2) := by
  have kinds : token.kind = .not ∨ token.kind = .tilde := by
    unfold unaryOf? at isUnary
    cases kind : token.kind <;> simp [kind, TokenKind.unaryOperator?] at isUnary ⊢
  unfold climbTerm climb readTerm
  rcases kinds with kind | kind <;>
    · simp only [kind, isUnary]
      cases readClimbing precedence rest with
      | none => rfl
      | some read => rfl

@[simp] theorem climbOn_nil (least : Nat) (left : Tree) :
    climbOn least left [] = some (left, []) := by
  simp [climbOn, applyStronger]

theorem climbOn_cons (least : Nat) (left : Tree) (token : Token) (rest : List Token) :
    climbOn least left (token :: rest) =
      match binaryOf? token with
      | some (operator, precedence) =>
          if least < precedence then
            (climb precedence rest).bind fun read =>
              climbOn least (.binary operator token.span.start left read.1) read.2
          else some (left, token :: rest)
      | none => some (left, token :: rest) := by
  rw [climbOn, applyStronger]
  cases binaryOf? token with
  | none => rfl
  | some found =>
      obtain ⟨operator, precedence⟩ := found
      dsimp only
      split
      · unfold climb
        cases readClimbing precedence rest with
        | none => rfl
        | some read =>
            obtain ⟨right, others, shorter⟩ := read
            simp only [Option.map_some, Option.bind_some, climbOn]
            cases applyStronger least (.binary operator token.span.start left right) others with
            | none => rfl
            | some last => rfl
      · rfl

end Grammar
end ScriptLang
