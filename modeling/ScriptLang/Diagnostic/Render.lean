import ScriptLang.Diagnostic.Basic
import ScriptLang.Source.Line
import ScriptLang.Source.WhiteSpace

/-!
# Rendered diagnostics

A diagnostic is shown with the line that it points at.  The line loses the
blanks at its start and the white space at its end, and a row of dashes below it
leads to a caret under the place of the issue:

    Error: SyntaxError (missing semicolon after `3`)
    -> mean.script
      |
    3 | declare c : int = 3
      | ------------------^

A diagnostic whose line is not in the source is shown by its text alone.
-/

namespace ScriptLang
namespace Diagnostic

open Source (Position)

/-- The line at a position, if the source has it. -/
def lineAt? (source : String) (position : Position) : Option (List Char) :=
  Source.line? source.toList position.line

/-- The name of the issue, and the tip in parentheses if there is one. -/
def headline (issue : Issue) : String :=
  match issue.tip? with
  | none => s!"Error: {issue.name}"
  | some tip => s!"Error: {issue.name} ({tip})"

/-- The line as it is shown. -/
def shownLine (line : List Char) : String :=
  String.ofList (Source.trimEnd (Source.withoutIndentation line))

/-- The row of dashes that ends in a caret below the given column. -/
def caretRow (line : List Char) (column : Nat) : String :=
  String.ofList (List.replicate (column - Source.indentation line) '-' ++ ['^'])

/-- The margin below and above a line number. -/
def margin (number : Nat) : String :=
  String.ofList (List.replicate ((toString number).length + 1) ' ' ++ ['|'])

/-- The rows of a rendered diagnostic. -/
def rows (diagnostic : Diagnostic) (source : String) : List String :=
  let position := diagnostic.position
  let opening := [headline diagnostic.issue, s!"-> {position.file}"]
  match lineAt? source position with
  | none => opening ++ [s!"   {diagnostic.toText}"]
  | some line =>
      opening ++
        [margin position.line,
          s!"{position.line} | {shownLine line}",
          s!"{margin position.line} {caretRow line position.column}"]

/-- A diagnostic with the line that it points at. -/
def render (diagnostic : Diagnostic) (source : String) : String :=
  (diagnostic.rows source).foldl (fun text row => text ++ row ++ "\n") ""

end Diagnostic
end ScriptLang
