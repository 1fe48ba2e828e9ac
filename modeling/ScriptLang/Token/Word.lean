import ScriptLang.Diagnostic.Basic

/-!
# Words

A word is a keyword, a literal or an identifier.  Keywords are looked up first;
after them come floating-point literals, whole numbers and identifiers, whose
forms exclude each other.  All forms are made of ASCII characters.
-/

namespace ScriptLang

open Numeric (Binary64 Decimal)
open Source (Span)

namespace Token

/-- The kind and payload of a keyword. -/
def reserved? (word : String) : Option (TokenKind × Payload) :=
  match word with
  | "declare" => some (.declaration, .empty)
  | "stdin" => some (.standardInput, .empty)
  | "stdout" => some (.standardOutput, .empty)
  | "bool" => some (.typeKeyword, .leaf (.typeKeyword .bool))
  | "int" => some (.typeKeyword, .leaf (.typeKeyword .int))
  | "float" => some (.typeKeyword, .leaf (.typeKeyword .float))
  | "true" => some (.literal, .leaf (.literal (.bool true)))
  | "false" => some (.literal, .leaf (.literal (.bool false)))
  | _ => none

/-- Whether a character may stand inside an identifier. -/
def isIdentifierCharacter (character : Char) : Bool :=
  character.isAlphanum || character = '_'

/-- Whether a word starts with a letter and goes on with letters, digits and underscores. -/
def isIdentifier : List Char -> Bool
  | [] => false
  | first :: rest => first.isAlpha && rest.all isIdentifierCharacter

/-- The greatest whole number that a literal can write. -/
def greatestInt : Nat := 2147483647

/-- The kind and payload of a word, or what is wrong with it. -/
def classifyWord (word : String) : Except SyntaxCause (TokenKind × Payload) :=
  let characters := word.toList
  if let some result := reserved? word then .ok result
  else if let some decimal := Decimal.read? characters then
    let value := Binary64.ofDecimal decimal
    if value.isFinite then .ok (.literal, .leaf (.literal (.float value)))
    else .error (.floatOutOfRange word)
  else if let some value := Numeric.readNatural? characters then
    if value ≤ greatestInt then
      .ok (.literal, .leaf (.literal (.int (Int32.ofNat value))))
    else .error (.integerOutOfRange word)
  else if isIdentifier characters then .ok (.identifier, .leaf (.identifier word))
  else .error (.unknownWord word)

/-- The token of a word that covers the given stretch of the source. -/
def ofWord (word : String) (span : Span) : Except Diagnostic Token :=
  match classifyWord word with
  | .ok (kind, payload) => .ok ⟨kind, word, span, payload⟩
  | .error cause => .error (.ofSyntax cause span.start)

end Token
end ScriptLang
