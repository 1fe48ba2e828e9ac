import ScriptLang.Program.NodeId
import ScriptLang.Token.Basic

/-!
# Causes

Everything that can be wrong with a program, as data, and the wording of each
cause in one function per family: what is written wrongly, what has the wrong
type, and what must never happen because an earlier stage rules it out.
-/

namespace ScriptLang

/-- The deepest nesting of operators that an expression may have. -/
def greatestDepth : Nat := 512

/-- What a statement requires at a place. -/
inductive Expectation
  | token (kind : TokenKind)
  | declaredName
  | assignmentSign (name : String)
  | inputName
  | custom (message : String)
  deriving DecidableEq, Repr

namespace Expectation

/-- The wording of an expectation. -/
def message : Expectation -> String
  | .token kind => s!"expected {kind.name}"
  | .declaredName => "expected identifier during variable declaration"
  | .assignmentSign name => s!"expected `:=` after `{name}`"
  | .inputName => "expected identifier after `stdin`"
  | .custom message => message

end Expectation

/-- What can be wrong with the text of a program. -/
inductive SyntaxCause
  | unterminatedComment
  | unterminatedWord (word : String)
  | unknownWord (word : String)
  | floatOutOfRange (word : String)
  | integerOutOfRange (word : String)
  | emptyProgram
  | emptyStatement
  | missingSemicolon (last : String)
  | unknownStatement (found : String)
  | unmet (expectation : Expectation) (found : Option String)
  | leftover (found : String)
  | typeWithoutColon (name : String)
  | untypedDeclaration (name : String)
  | emptyExpression
  | notInExpression (found : String)
  | mismatchedParentheses
  | missingOperand (operator : String)
  | nestedTooDeeply
  | custom (message : String)
  deriving DecidableEq, Repr

namespace SyntaxCause

/-- The wording of a syntax cause. -/
def message : SyntaxCause -> String
  | .unterminatedComment => "a comment must be terminated by a line break"
  | .unterminatedWord word =>
      s!"`{word}` is not terminated, make sure every statement ends with a semicolon"
  | .unknownWord word => s!"`{word}` is not a keyword, literal or identifier"
  | .floatOutOfRange word => s!"float literal `{word}` is out of range"
  | .integerOutOfRange word => s!"integer literal `{word}` does not fit in 32 bits"
  | .emptyProgram => "a program must contain at least one statement"
  | .emptyStatement => "expected a statement before `;`"
  | .missingSemicolon last => s!"missing semicolon after `{last}`"
  | .unknownStatement found => s!"expected a statement, found `{found}`"
  | .unmet expectation (some found) => s!"{expectation.message}, found `{found}`"
  | .unmet expectation none => s!"{expectation.message}, found the end of the statement"
  | .leftover found => s!"unexpected token `{found}`"
  | .typeWithoutColon name => s!"expected `:` before the type of `{name}`"
  | .untypedDeclaration name =>
      s!"declaration of `{name}` has no explicit type and no expression to infer a type from"
  | .emptyExpression => "expected an expression"
  | .notInExpression found => s!"unexpected token `{found}` in expression"
  | .mismatchedParentheses => "mismatched parentheses in expression"
  | .missingOperand operator => s!"operator `{operator}` is missing an operand"
  | .nestedTooDeeply =>
      s!"expression nested too deeply, at most {greatestDepth} levels are allowed"
  | .custom message => message

end SyntaxCause

/-- The side on which an operand stands. -/
inductive Side
  | left
  | right
  deriving DecidableEq, Repr

namespace Side

/-- The name of a side. -/
def name : Side -> String
  | .left => "left"
  | .right => "right"

end Side

/-- What can be wrong with the types of a program. -/
inductive TypeCause
  | notNumeric (side : Side) (operator : BinaryOperator) (found : Ty)
  | notBoolean (side : Side) (operator : BinaryOperator) (found : Ty)
  | incomparable (operator : BinaryOperator) (left right : Ty)
  | negatedNotNumeric (operator : UnaryOperator) (found : Ty)
  | negatedNotBoolean (operator : UnaryOperator) (found : Ty)
  | declarationMismatch (name : String) (declared inferred : Ty)
  | assignmentMismatch (name : String) (declared inferred : Ty)
  | custom (message : String)
  deriving DecidableEq, Repr

namespace TypeCause

/-- The wording of a type cause. -/
def message : TypeCause -> String
  | .notNumeric side operator found =>
      s!"{side.name} operand of `{operator.symbol}` must be int or float, found {found.toText}"
  | .notBoolean side operator found =>
      s!"{side.name} operand of `{operator.symbol}` must be bool, found {found.toText}"
  | .incomparable operator left right =>
      s!"`{operator.symbol}` cannot compare {left.toText} with {right.toText}"
  | .negatedNotNumeric operator found =>
      s!"operand of `{operator.symbol}` must be int or float, found {found.toText}"
  | .negatedNotBoolean operator found =>
      s!"operand of `{operator.symbol}` must be bool, found {found.toText}"
  | .declarationMismatch name declared inferred =>
      s!"type mismatch between the declared type of variable `{name}` ({declared.toText}) " ++
        s!"and the type of its expression ({inferred.toText})"
  | .assignmentMismatch name declared inferred =>
      s!"type mismatch between the type of variable `{name}` ({declared.toText}) " ++
        s!"and the type of the expression ({inferred.toText})"
  | .custom message => message

end TypeCause

/-- What an earlier stage should have ruled out. -/
inductive InternalCause
  | noLeaf (token : Token)
  | noBinding (token : Token)
  | notAnOperator (token : Token) (arity : Nat)
  | leftoverOperands (count : Nat)
  | notAnOperand (node : NodeId)
  | tokenRange (start stop size : Nat)
  | notACodeBlock (node : NodeId)
  | noScope (node : NodeId)
  | noSymbolTable (node : NodeId)
  | vanishedSymbol (name : String) (scope : NodeId)
  | notAStatement (node : NodeId)
  | notAnIdentifier (node : NodeId)
  | notATypeKeyword (node : NodeId)
  | notAnExpression (node : NodeId)
  | typeAsExpression (ty : Ty)
  | bareDeclaration (name : String)
  | custom (message : String)
  deriving DecidableEq, Repr

namespace InternalCause

/-- The wording of an internal cause. -/
def message : InternalCause -> String
  | .noLeaf token => s!"token {token.toText} carries no leaf payload"
  | .noBinding token => s!"operator token {token.toText} has no precedence or arity"
  | .notAnOperator token arity =>
      s!"token {token.toText} is not an operator of arity {arity}"
  | .leftoverOperands count =>
      s!"parsing an expression left {count} nodes on the output stack"
  | .notAnOperand node => s!"node {node} cannot stand as an expression"
  | .tokenRange start stop size =>
      s!"cannot parse a code block from token range {start}..{stop} of {size} tokens"
  | .notACodeBlock node => s!"node {node} is not a code block"
  | .noScope node => s!"could not find a scope-defining node above node {node}"
  | .noSymbolTable node => s!"node {node} owns no symbol table"
  | .vanishedSymbol name scope => s!"resolved symbol `{name}` vanished from scope {scope}"
  | .notAStatement node => s!"node {node} is not a statement"
  | .notAnIdentifier node => s!"node {node} is not an identifier"
  | .notATypeKeyword node => s!"node {node} is not a type keyword"
  | .notAnExpression node => s!"node {node} is not an expression"
  | .typeAsExpression ty => s!"type keyword `{ty.toText}` used as an expression"
  | .bareDeclaration name =>
      s!"declaration of `{name}` has neither a type nor an expression"
  | .custom message => message

end InternalCause
end ScriptLang
