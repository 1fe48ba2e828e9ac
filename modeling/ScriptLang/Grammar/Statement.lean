import ScriptLang.Grammar.Expression

/-!
# Statements

A statement is read from the tokens before its semicolon.  The reader knows the
unread tokens of the statement and the place where they end, which is where a
statement that stops too early is reported.

    declare <identifier> [: [<type>]] [= <expression>]
    <identifier> : = <expression>
    stdin <identifier>
    stdout <expression>

Which form is read is decided by the kind of the first token.
-/

namespace ScriptLang
namespace Grammar

open Source (Position)

/-- The state of reading one statement. -/
structure Reader where
  /-- The tokens of the statement that are not read yet. -/
  unread : List Token
  /-- The place behind the tokens of the statement. -/
  stop : Position
  /-- The program that the statement will belong to. -/
  program : Program
  deriving DecidableEq

/-- Reading of a statement. -/
abbrev Reading := EStateM Fault Reader

namespace Reader

/-- The place of the next token, or of the end of the statement. -/
def position (reader : Reader) : Position :=
  match reader.unread with
  | token :: _ => token.span.start
  | [] => reader.stop

end Reader

/-- Add to the program of a statement. -/
def build (action : Building α) : Reading α := fun reader =>
  match action reader.program with
  | .ok result program => .ok result { reader with program := program }
  | .error fault program => .error fault { reader with program := program }

/-- The kind of the next token. -/
def nextKind? : Reading (Option TokenKind) := do
  return (← get).unread.head?.map Token.kind

/-- Leave out the next token. -/
def skip : Reading Unit :=
  modify fun reader => { reader with unread := reader.unread.tail }

/-- Read a token of the given kind. -/
def expect (kind : TokenKind) (expectation : Expectation) : Reading Token := do
  match (← get).unread with
  | [] => throw (.ofSyntax (.unmet expectation none) (← get).position)
  | token :: _ =>
      if token.kind = kind then
        skip
        return token
      else throw (.ofSyntax (.unmet expectation (some token.value)) token.span.start)

/-- Read a token of the given kind, which is named in the refusal of any other. -/
def expectToken (kind : TokenKind) : Reading Token := expect kind (.token kind)

/-- Read all unread tokens as an expression. -/
def readExpression : Reading NodeId := do
  let reader ← get
  set { reader with unread := [] }
  build (parseExpression reader.unread reader.position)

/-- Read a type keyword, which only stands behind a colon. -/
def readType (hasColon : Bool) (name : String) : Reading (Option NodeId) := do
  if (← nextKind?) = some .typeKeyword then
    if hasColon then
      let token ← expectToken .typeKeyword
      return some (← build (addLeaf token))
    else throw (.ofSyntax (.typeWithoutColon name) (← get).position)
  else return none

/-- Read an equals sign and an expression behind it, if there is one. -/
def readInitializer : Reading (Option NodeId) := do
  if (← nextKind?) = some .equal then
    skip
    return some (← readExpression)
  else return none

/-- Read a colon, if there is one. -/
def readColon : Reading Bool := do
  if (← nextKind?) = some .colon then
    skip
    return true
  else return false

/-- Read the declaration of a variable, which has a type or an expression to infer one from. -/
def readDeclaration : Reading NodeId := do
  let first ← expectToken .declaration
  let identifierToken ← expect .identifier .declaredName
  let identifier ← build (addLeaf identifierToken)
  let hasColon ← readColon
  let typeKeyword ← readType hasColon identifierToken.value
  let expression ← readInitializer
  if typeKeyword.isNone && expression.isNone then
    throw (.ofSyntax (.untypedDeclaration identifierToken.value) first.span.start)
  else
    build (Program.addNode (.statement (.declaration identifier typeKeyword expression))
      first.span.start)

/-- Read an assignment to a variable. -/
def readAssignment : Reading NodeId := do
  let identifierToken ← expectToken .identifier
  let identifier ← build (addLeaf identifierToken)
  let _ ← expect .colon (.assignmentSign identifierToken.value)
  let _ ← expect .equal (.assignmentSign identifierToken.value)
  let expression ← readExpression
  build (Program.addNode (.statement (.assignment identifier expression))
    identifierToken.span.start)

/-- Read a statement that reads the value of a variable. -/
def readInput : Reading NodeId := do
  let first ← expectToken .standardInput
  let identifierToken ← expect .identifier .inputName
  let identifier ← build (addLeaf identifierToken)
  build (Program.addNode (.statement (.input identifier)) first.span.start)

/-- Read a statement that writes the value of an expression. -/
def readOutput : Reading NodeId := do
  let first ← expectToken .standardOutput
  let expression ← readExpression
  build (Program.addNode (.statement (.output expression)) first.span.start)

/-- What can be read at the start of a statement. -/
inductive Form
  | declaration
  | assignment
  | input
  | output
  | expression
  deriving DecidableEq, Repr

namespace Form

/-- Read a form. -/
def read : Form -> Reading NodeId
  | .declaration => readDeclaration
  | .assignment => readAssignment
  | .input => readInput
  | .output => readOutput
  | .expression => readExpression

end Form

/-- The form that each kind of first token starts. -/
abbrev FormTable := TokenKind -> Option Form

namespace FormTable

/-- The table in which no token starts a statement. -/
def empty : FormTable := fun _ => none

/-- The statements of the language. -/
def standard : FormTable
  | .declaration => some .declaration
  | .identifier => some .assignment
  | .standardInput => some .input
  | .standardOutput => some .output
  | _ => none

end FormTable

/-- Read all unread tokens as one statement, and give its first token and its node. -/
def readStatement (forms : FormTable) : Reading (Token × NodeId) := do
  match (← get).unread with
  | [] => throw (.ofSyntax .emptyStatement (← get).position)
  | first :: _ =>
      match forms first.kind with
      | none => throw (.ofSyntax (.unknownStatement first.value) first.span.start)
      | some form =>
          let statement ← form.read
          match (← get).unread with
          | [] => return (first, statement)
          | token :: _ => throw (.ofSyntax (.leftover token.value) token.span.start)

end Grammar
end ScriptLang
