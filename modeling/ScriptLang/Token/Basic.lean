import ScriptLang.Language.Literal
import ScriptLang.Language.Operator
import ScriptLang.Source.Position

/-!
# Tokens

A token has a kind, the text that it was read from, the stretch of the source
that it covers, and a payload: the leaf that a word stands for, or the binding
strength of an operator.
-/

namespace ScriptLang

open Source (Span)

/-- How an operator combines its operands. -/
structure Binding where
  /-- The strength of the operator; the stronger one takes its operands first. -/
  precedence : Nat
  /-- The number of its operands. -/
  arity : Nat
  deriving DecidableEq, Repr

/-- The kind of a token. -/
inductive TokenKind
  | identifier
  | literal
  | typeKeyword
  | openParenthesis
  | closeParenthesis
  | equal
  | equals
  | not
  | notEquals
  | less
  | lessEquals
  | greater
  | greaterEquals
  | or
  | and
  | semicolon
  | colon
  | plus
  | minus
  | asterisk
  | slash
  | tilde
  | declaration
  | standardInput
  | standardOutput
  deriving DecidableEq, Repr

namespace TokenKind

/-- All kinds of tokens. -/
def all : List TokenKind :=
  [identifier, literal, typeKeyword, openParenthesis, closeParenthesis, equal, equals,
    not, notEquals, less, lessEquals, greater, greaterEquals, or, and, semicolon, colon,
    plus, minus, asterisk, slash, tilde, declaration, standardInput, standardOutput]

theorem mem_all (kind : TokenKind) : kind ∈ all := by
  cases kind <;> simp [all]

/-- The name of a kind in messages. -/
def name : TokenKind -> String
  | .identifier => "Identifier"
  | .literal => "LiteralValue"
  | .typeKeyword => "TypeKeyword"
  | .openParenthesis => "OpenParen"
  | .closeParenthesis => "CloseParen"
  | .equal => "Equal"
  | .equals => "Equals"
  | .not => "Not"
  | .notEquals => "NotEquals"
  | .less => "Less"
  | .lessEquals => "LessEquals"
  | .greater => "Greater"
  | .greaterEquals => "GreaterEquals"
  | .or => "Or"
  | .and => "And"
  | .semicolon => "Semicolon"
  | .colon => "Colon"
  | .plus => "Plus"
  | .minus => "Minus"
  | .asterisk => "Asterisk"
  | .slash => "Slash"
  | .tilde => "Tilde"
  | .declaration => "Declaration"
  | .standardInput => "StandardInput"
  | .standardOutput => "StandardOutput"

/-- The binding of the kinds that are operators. -/
def binding? : TokenKind -> Option Binding
  | .and | .or => some ⟨1, 2⟩
  | .not => some ⟨2, 1⟩
  | .equals | .notEquals | .less | .lessEquals | .greater | .greaterEquals => some ⟨3, 2⟩
  | .plus | .minus => some ⟨4, 2⟩
  | .asterisk | .slash => some ⟨5, 2⟩
  | .tilde => some ⟨6, 1⟩
  | _ => none

/-- Whether a kind is an operator. -/
def isOperator (kind : TokenKind) : Bool := kind.binding?.isSome

/-- The binary operator that a kind stands for. -/
def binaryOperator? : TokenKind -> Option BinaryOperator
  | .plus => some .add
  | .minus => some .subtract
  | .asterisk => some .multiply
  | .slash => some .divide
  | .equals => some .equals
  | .notEquals => some .notEquals
  | .less => some .less
  | .lessEquals => some .lessEquals
  | .greater => some .greater
  | .greaterEquals => some .greaterEquals
  | .and => some .and
  | .or => some .or
  | _ => none

/-- The unary operator that a kind stands for. -/
def unaryOperator? : TokenKind -> Option UnaryOperator
  | .tilde => some .arithmeticNegation
  | .not => some .logicalNegation
  | _ => none

/-- A kind binds two operands exactly when it stands for a binary operator. -/
theorem binaryOperator?_isSome_iff (kind : TokenKind) :
    kind.binaryOperator?.isSome ↔ ∃ precedence, kind.binding? = some ⟨precedence, 2⟩ := by
  cases kind <;> simp [binaryOperator?, binding?]

/-- A kind binds one operand exactly when it stands for a unary operator. -/
theorem unaryOperator?_isSome_iff (kind : TokenKind) :
    kind.unaryOperator?.isSome ↔ ∃ precedence, kind.binding? = some ⟨precedence, 1⟩ := by
  cases kind <;> simp [unaryOperator?, binding?]

end TokenKind

/-- What a token carries besides its text. -/
inductive Payload
  | empty
  | leaf (leaf : Leaf)
  | operator (binding : Binding)
  deriving DecidableEq, Repr

namespace Payload

/-- The binding that a payload carries. -/
def binding? : Payload -> Option Binding
  | .operator binding => some binding
  | _ => none

@[simp] theorem binding?_operator (binding : Binding) :
    (operator binding).binding? = some binding := rfl

end Payload

/-- A token of the language. -/
structure Token where
  kind : TokenKind
  /-- The text that the token was read from. -/
  value : String
  /-- The stretch of the source that the token covers. -/
  span : Span
  payload : Payload
  deriving DecidableEq, Repr

namespace Token

/-- The kind of a token and the line and column of its start. -/
def toText (token : Token) : String :=
  s!"({token.kind.name}:{token.span.start.line},{token.span.start.column})"

end Token
end ScriptLang
