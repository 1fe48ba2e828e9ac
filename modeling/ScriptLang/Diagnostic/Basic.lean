import ScriptLang.Diagnostic.Cause

/-!
# Diagnostics

A diagnostic says what is wrong with a program and where.  Diagnostics of
internal issues point at a defect of the front end itself; all others are the
business of the author of the program.

A fault is what stops a stage: a diagnostic, or a tree of nodes that is not
well formed, so that there is no position to report.
-/

namespace ScriptLang

open Source (Position)

/-- What is wrong with a program. -/
inductive Issue
  | syntaxError (cause : SyntaxCause)
  | typeError (cause : TypeCause)
  | internal (cause : InternalCause)
  | undeclared (identifier : String)
  | uninitialized (identifier : String)
  | duplicate (identifier : String) (firstLine : Nat)
  deriving DecidableEq, Repr

/-- Who has to act on an issue. -/
inductive Severity
  | user
  | internal
  deriving DecidableEq, Repr

namespace Issue

/-- The name of an issue. -/
def name : Issue -> String
  | .syntaxError _ => "SyntaxError"
  | .typeError _ => "TypeError"
  | .internal _ => "CompilerError"
  | .undeclared _ => "UndeclaredIdentifier"
  | .uninitialized _ => "UninitializedVariable"
  | .duplicate _ _ => "DuplicateDeclaration"

/-- The description of an issue. -/
def detail : Issue -> String
  | .syntaxError cause => s!"syntax error: {cause.message}"
  | .typeError cause => s!"type error: {cause.message}"
  | .internal cause => s!"internal compiler error: {cause.message}"
  | .undeclared identifier =>
      s!"the identifier `{identifier}` is being used without having been declared"
  | .uninitialized identifier =>
      s!"the variable `{identifier}` is being used without having been initialized"
  | .duplicate identifier firstLine =>
      s!"duplicate declaration of identifier `{identifier}`, " ++
        s!"first declared on line {firstLine}"

/-- What the author of the program can do about an issue; nothing about an internal one. -/
def tip? : Issue -> Option String
  | .syntaxError cause => some cause.message
  | .typeError cause => some cause.message
  | .internal _ => none
  | .undeclared identifier =>
      some s!"Identifier `{identifier}` must be declared before it is used"
  | .uninitialized identifier =>
      some s!"Assign a value to `{identifier}` or read it from stdin before using it"
  | .duplicate identifier firstLine =>
      some s!"Identifier `{identifier}` was already declared on line {firstLine}"

/-- Who has to act on an issue. -/
def severity : Issue -> Severity
  | .internal _ => .internal
  | _ => .user

/-- Exactly the internal issues come without a tip. -/
theorem tip?_eq_none_iff (issue : Issue) :
    issue.tip? = none ↔ issue.severity = .internal := by
  cases issue <;> simp [tip?, severity]

end Issue

/-- An issue at a place of the source. -/
structure Diagnostic where
  issue : Issue
  position : Position
  deriving DecidableEq, Repr

namespace Diagnostic

/-- A diagnostic about the text of a program. -/
def ofSyntax (cause : SyntaxCause) (position : Position) : Diagnostic :=
  ⟨.syntaxError cause, position⟩

/-- A diagnostic about the types of a program. -/
def ofType (cause : TypeCause) (position : Position) : Diagnostic :=
  ⟨.typeError cause, position⟩

/-- A diagnostic about the front end itself. -/
def ofInternal (cause : InternalCause) (position : Position) : Diagnostic :=
  ⟨.internal cause, position⟩

/-- Who has to act on a diagnostic. -/
def severity (diagnostic : Diagnostic) : Severity := diagnostic.issue.severity

/-- Whether a diagnostic points at a defect of the front end. -/
def isInternal (diagnostic : Diagnostic) : Bool :=
  decide (diagnostic.severity = .internal)

/-- The one-line text of a diagnostic. -/
def toText (diagnostic : Diagnostic) : String :=
  s!"{diagnostic.issue.name} at line {diagnostic.position.line}, " ++
    s!"column {diagnostic.position.column}: {diagnostic.issue.detail}"

end Diagnostic

/-- What stops a stage of the front end. -/
inductive Fault
  | report (diagnostic : Diagnostic)
  | missingNode (node : NodeId)
  | cycle (node : NodeId)
  deriving DecidableEq, Repr

namespace Fault

/-- Whether a fault points at a defect of the front end. -/
def isInternal : Fault -> Bool
  | .report diagnostic => diagnostic.isInternal
  | .missingNode _ => true
  | .cycle _ => true

/-- The one-line text of a fault. -/
def toText : Fault -> String
  | .report diagnostic => diagnostic.toText
  | .missingNode node => s!"node {node} is not a node of the program"
  | .cycle node => s!"node {node} lies on a cycle"

/-- A fault about the text of a program. -/
def ofSyntax (cause : SyntaxCause) (position : Position) : Fault :=
  .report (.ofSyntax cause position)

/-- A fault about the types of a program. -/
def ofType (cause : TypeCause) (position : Position) : Fault :=
  .report (.ofType cause position)

/-- A fault about the front end itself. -/
def ofInternal (cause : InternalCause) (position : Position) : Fault :=
  .report (.ofInternal cause position)

end Fault
end ScriptLang
