import ScriptLang.Grammar.Session
import ScriptLang.Program.Printer
import ScriptLang.Token.Tokenize
import ScriptLang.Typing.Analysis

/-!
# Checking a source

The front end as a whole: a source is cut into tokens, the tokens are parsed
into a program, and the program is analyzed.  The first fault ends the run.  A
run tells what happened in a log, whose last event is the outcome.
-/

namespace ScriptLang

open Source (Position)

/-- What a run of the front end leaves. -/
structure Run where
  /-- The file name in all positions. -/
  file : String
  result : Except Fault Program
  log : Log

namespace Run

/-- The file name of a source, which may have none of its own. -/
def fileName (file? : Option String) : String := file?.getD Source.unnamedFile

/-- The events of cutting a source into tokens. -/
def tokenEvents (tokens : List Token) : Log :=
  .tokenized tokens.length :: tokens.map Event.token

/-- The event that ends a run. -/
def outcome (file : String) : Except Fault Program -> Event
  | .ok program => .checked file program.statements.length
  | .error fault => .refused file fault

/-- Analyze a program and give it back, unless a fault stopped the analysis. -/
def analyzed (program : Program) : Except Fault Program × Log :=
  let analysis := Typing.analyze program
  (analysis.result.map fun _ => analysis.program, analysis.log)

/-- Parse and analyze tokens. -/
def ofTokens (tokens : List Token) (file : String) : Except Fault Program × Log :=
  match Grammar.parseLogged tokens file with
  | (.error fault, log) => (.error fault, log)
  | (.ok program, log) =>
      let (result, analysisLog) := analyzed program
      (result, log ++ analysisLog)

/-- Tokenize, parse and analyze a source. -/
def ofSource (source file : String) : Except Fault Program × Log :=
  match Token.tokenize source file with
  | .error diagnostic => (.error (.report diagnostic), [])
  | .ok tokens =>
      let (result, log) := ofTokens tokens file
      (result, tokenEvents tokens ++ log)

end Run

/-- Check a source. -/
def check (source : String) (file? : Option String) : Run :=
  let file := Run.fileName file?
  let (result, log) := Run.ofSource source file
  ⟨file, result, log ++ [Run.outcome file result]⟩

namespace Program

/-- The position of a statement and the types of its parts, where a part that is no expression
has none. -/
def statementTypes (program : Program) (id : NodeId) : Option (Position × List (Option Ty)) :=
  (program.node? id).map fun node =>
    (node.position, node.kind.children.map fun child =>
      (program.node? child).bind fun part => part.kind.ty?)

/-- The types of all statements of the outermost code block. -/
def types (program : Program) : List (Position × List (Option Ty)) :=
  program.statements.filterMap program.statementTypes

/-- Whether the text of a program is accepted again and printed as it is. -/
def roundTrips (program : Program) : Bool :=
  let text := program.toText
  match (check text none).result with
  | .ok again => again.toText = text
  | .error _ => false

end Program
end ScriptLang
