/-!
# Operators

The operators of expressions and the symbols that the language writes for them.
-/

namespace ScriptLang

/-- An operator that stands between two operands. -/
inductive BinaryOperator
  | add
  | subtract
  | multiply
  | divide
  | equals
  | notEquals
  | less
  | lessEquals
  | greater
  | greaterEquals
  | and
  | or
  deriving DecidableEq, Repr

namespace BinaryOperator

/-- The symbol of an operator. -/
def symbol : BinaryOperator -> String
  | .add => "+"
  | .subtract => "-"
  | .multiply => "*"
  | .divide => "/"
  | .equals => "=="
  | .notEquals => "!="
  | .less => "<"
  | .lessEquals => "<="
  | .greater => ">"
  | .greaterEquals => ">="
  | .and => "&"
  | .or => "|"

end BinaryOperator

/-- An operator that stands in front of its operand. -/
inductive UnaryOperator
  | arithmeticNegation
  | logicalNegation
  deriving DecidableEq, Repr

namespace UnaryOperator

/-- The symbol of an operator. -/
def symbol : UnaryOperator -> String
  | .arithmeticNegation => "~"
  | .logicalNegation => "!"

end UnaryOperator
end ScriptLang
