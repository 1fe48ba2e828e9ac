import ScriptLang.Diagnostic.Cause

/-!
# Typing rules

The type of an operation from the types of its operands.  Arithmetic takes
numbers and stays within whole numbers only if both operands are whole and the
operation is not a division; comparisons take two numbers or two truth values;
the logical operators take truth values.  Of two wrong operands the left one is
named.
-/

namespace ScriptLang

namespace BinaryOperator

/-- The three families of binary operators. -/
inductive Family
  | arithmetic
  | comparison
  | logical
  deriving DecidableEq, Repr

/-- The family of an operator. -/
def family : BinaryOperator -> Family
  | .add | .subtract | .multiply | .divide => .arithmetic
  | .equals | .notEquals | .less | .lessEquals | .greater | .greaterEquals => .comparison
  | .and | .or => .logical

/-- The type of an arithmetic operation on numbers. -/
def arithmeticTy (operator : BinaryOperator) (left right : Ty) : Ty :=
  if operator ≠ .divide ∧ left = .int ∧ right = .int then .int else .float

/-- Whether values of two types can be compared. -/
def comparable (left right : Ty) : Bool :=
  (left.isNumeric && right.isNumeric) || (left = .bool && right = .bool)

/-- The type of an operation, or what is wrong with its operands. -/
def resultTy (operator : BinaryOperator) (left right : Ty) : Except TypeCause Ty :=
  match operator.family with
  | .arithmetic =>
      if !left.isNumeric then .error (.notNumeric .left operator left)
      else if !right.isNumeric then .error (.notNumeric .right operator right)
      else .ok (operator.arithmeticTy left right)
  | .comparison =>
      if comparable left right then .ok .bool
      else .error (.incomparable operator left right)
  | .logical =>
      if left ≠ .bool then .error (.notBoolean .left operator left)
      else if right ≠ .bool then .error (.notBoolean .right operator right)
      else .ok .bool

end BinaryOperator

namespace UnaryOperator

/-- The type of a negation, or what is wrong with its operand. -/
def resultTy (operator : UnaryOperator) (operand : Ty) : Except TypeCause Ty :=
  match operator with
  | .arithmeticNegation =>
      if operand.isNumeric then .ok operand
      else .error (.negatedNotNumeric operator operand)
  | .logicalNegation =>
      if operand = .bool then .ok operand
      else .error (.negatedNotBoolean operator operand)

end UnaryOperator
end ScriptLang
