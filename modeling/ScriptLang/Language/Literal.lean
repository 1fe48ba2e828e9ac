import ScriptLang.Numeric.Shortest

/-!
# Types, literals and leaves

The language has three primitive types with a literal form for each: truth
values, whole numbers of 32 bits with a sign, and floating-point numbers of 64
bits.  A leaf is the smallest part of a program: a name, a literal or the name
of a type.
-/

namespace ScriptLang

open Numeric (Binary64)

/-- A primitive type. -/
inductive Ty
  | bool
  | int
  | float
  deriving DecidableEq, Repr

namespace Ty

/-- The keyword of a type. -/
def toText : Ty -> String
  | .bool => "bool"
  | .int => "int"
  | .float => "float"

/-- Whether the values of a type are numbers. -/
def isNumeric : Ty -> Bool
  | .bool => false
  | .int => true
  | .float => true

end Ty

/-- A literal value. -/
inductive Literal
  | bool (value : Bool)
  | int (value : Int32)
  | float (value : Binary64)
  deriving DecidableEq, Repr

namespace Literal

/-- The type of a literal. -/
def ty : Literal -> Ty
  | .bool _ => .bool
  | .int _ => .int
  | .float _ => .float

/-- The text of a literal.  The language has no exponents, so a floating-point
number is written positionally. -/
def toText : Literal -> String
  | .bool true => "true"
  | .bool false => "false"
  | .int value => toString value.toInt
  | .float value => value.toText

@[simp] theorem ty_bool (value : Bool) : (bool value).ty = .bool := rfl

@[simp] theorem ty_int (value : Int32) : (int value).ty = .int := rfl

@[simp] theorem ty_float (value : Binary64) : (float value).ty = .float := rfl

end Literal

/-- The smallest parts of a program. -/
inductive Leaf
  | identifier (name : String)
  | literal (value : Literal)
  | typeKeyword (ty : Ty)
  deriving DecidableEq, Repr

namespace Leaf

/-- The text of a leaf. -/
def toText : Leaf -> String
  | .identifier name => name
  | .literal value => value.toText
  | .typeKeyword ty => ty.toText

end Leaf
end ScriptLang
