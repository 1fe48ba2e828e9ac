import ScriptLang.Source.Position

/-!
# Source cursors

A cursor walks over the characters of a source file and knows the position of
the next one.  A cursor may be moved past the end of its text; its column then
goes on counting.
-/

namespace ScriptLang
namespace Source

/-- The file name of a source that has none of its own. -/
def unnamedFile : String := "shell"

/-- The unread rest of a source together with its position. -/
structure Cursor where
  /-- The characters that are not read yet. -/
  rest : List Char
  /-- The position of the first unread character. -/
  position : Position
  deriving DecidableEq, Repr

namespace Cursor

/-- The cursor at the start of a source. -/
def ofSource (source : String) (file : String) : Cursor :=
  ⟨source.toList, .start file⟩

/-- The character under the cursor. -/
def current? (cursor : Cursor) : Option Char := cursor.rest.head?

/-- The character behind the one under the cursor. -/
def peek? (cursor : Cursor) : Option Char := cursor.rest.tail.head?

/-- Move the cursor over `count` characters of its line. -/
def advance (cursor : Cursor) (count : Nat) : Cursor :=
  ⟨cursor.rest.drop count, cursor.position.right count⟩

/-- Move the cursor over a line break that is `width` characters wide. -/
def newLine (cursor : Cursor) (width : Nat) : Cursor :=
  ⟨cursor.rest.drop width, cursor.position.nextLine⟩

@[simp] theorem rest_ofSource (source : String) (file : String) :
    (ofSource source file).rest = source.toList := rfl

@[simp] theorem rest_advance (cursor : Cursor) (count : Nat) :
    (cursor.advance count).rest = cursor.rest.drop count := rfl

@[simp] theorem position_advance (cursor : Cursor) (count : Nat) :
    (cursor.advance count).position = cursor.position.right count := rfl

@[simp] theorem rest_newLine (cursor : Cursor) (width : Nat) :
    (cursor.newLine width).rest = cursor.rest.drop width := rfl

@[simp] theorem position_newLine (cursor : Cursor) (width : Nat) :
    (cursor.newLine width).position = cursor.position.nextLine := rfl

end Cursor

end Source
end ScriptLang
