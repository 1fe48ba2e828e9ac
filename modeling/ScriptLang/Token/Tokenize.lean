import ScriptLang.Token.Pairing
import ScriptLang.Token.Scan

/-!
# Tokens of a source

The three passes in a row: scanning, joining the operators of two characters,
and giving every operator its binding.
-/

namespace ScriptLang
namespace Token

/-- The words and punctuation of a source. -/
def scanSource (source file : String) : Except Diagnostic (List Token) :=
  scan (.ofSource source file)

/-- The tokens of a source. -/
def tokenize (source file : String) : Except Diagnostic (List Token) := do
  let tokens ← scanSource source file
  return bindOperators (joinPairs tokens)

end Token
end ScriptLang
