/-!
# Positions

A place in a source file.  Lines count from one and columns from zero; a column
counts the code points that stand before the place on its line.

Both counts are without a bound.  A source with 2^32 lines, or with 2^32 code points
on a line, where counts of 32 bits start again from zero, is left out.
-/

namespace ScriptLang
namespace Source

/-- A place in a source file.  Its counts do not wrap around. -/
structure Position where
  /-- The number of the line, counted from one. -/
  line : Nat
  /-- The number of code points before the place on its line. -/
  column : Nat
  /-- The name of the source file. -/
  file : String
  deriving DecidableEq, Repr, Inhabited

namespace Position

/-- The first place of a file. -/
def start (file : String) : Position := ⟨1, 0, file⟩

/-- The place `count` code points further on the same line. -/
def right (position : Position) (count : Nat) : Position :=
  { position with column := position.column + count }

/-- The first place of the next line. -/
def nextLine (position : Position) : Position :=
  { position with line := position.line + 1, column := 0 }

/-- File, line and column, separated by colons. -/
def toText (position : Position) : String :=
  s!"{position.file}:{position.line}:{position.column}"

end Position

/-- The stretch of a source file from its first place to the place just behind it. -/
structure Span where
  /-- The first place of the stretch. -/
  start : Position
  /-- The place just behind the stretch. -/
  stop : Position
  deriving DecidableEq, Repr, Inhabited

namespace Span

/-- The stretch of `length` code points on the line of its first place. -/
def onLine (start : Position) (length : Nat) : Span :=
  ⟨start, start.right length⟩

end Span

end Source
end ScriptLang
