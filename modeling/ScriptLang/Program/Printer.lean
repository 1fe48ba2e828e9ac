import ScriptLang.Program.Basic

/-!
# Printed programs

A program is written with one statement on each line.  Every application of an
operator is put into parentheses, so that reading the text gives the same tree
again whatever the bindings of the operators are.
-/

namespace ScriptLang
namespace Program

/-- The text of the statement with the given texts of its parts. -/
def statementText (textOf : NodeId -> String) : Statement -> String
  | .declaration identifier typeKeyword expression =>
      let typeText := (typeKeyword.map fun id => " " ++ textOf id).getD ""
      let expressionText := (expression.map fun id => " = " ++ textOf id).getD ""
      "declare " ++ textOf identifier ++ " :" ++ typeText ++ expressionText ++ ";"
  | .assignment identifier expression =>
      textOf identifier ++ " := " ++ textOf expression ++ ";"
  | .input identifier => "stdin " ++ textOf identifier ++ ";"
  | .output expression => "stdout " ++ textOf expression ++ ";"

/-- The text of the expression with the given texts of its parts. -/
def expressionText (textOf : NodeId -> String) : ExpressionForm -> String
  | .binary operator left right =>
      "(" ++ textOf left ++ " " ++ operator.symbol ++ " " ++ textOf right ++ ")"
  | .unary operator operand => "(" ++ operator.symbol ++ textOf operand ++ ")"
  | .single leaf => textOf leaf

/-- The text of a node with the given texts of its children. -/
def kindText (textOf : NodeId -> String) : NodeKind -> String
  | .program code => textOf code
  | .codeBlock statements _ =>
      statements.foldl (fun text statement => text ++ textOf statement ++ "\n") ""
  | .statement statement => statementText textOf statement
  | .expression expression => expressionText textOf expression.form
  | .leaf leaf => leaf.toText

/-- The text of a node down to a given depth; below it nothing is written. -/
def nodeText (program : Program) : Nat -> NodeId -> String
  | 0, _ => ""
  | depth + 1, id =>
      match program.node? id with
      | some node => kindText (program.nodeText depth) node.kind
      | none => ""

/-- The text of a program.  A path from the root meets every node at most once, so no part of
a tree lies deeper than there are nodes. -/
def toText (program : Program) : String :=
  program.nodeText program.size program.root

end Program
end ScriptLang
