import ScriptLang.Token.Basic

/-!
# Operators of two characters

The second pass over the tokens joins `=`, `<`, `>` and `!` with an `=` that
follows directly, whatever layout stands between the two.  The third pass gives
every operator its binding.
-/

namespace ScriptLang

namespace TokenKind

/-- The operator that two neighbouring kinds make together. -/
def joined? : TokenKind -> TokenKind -> Option TokenKind
  | .equal, .equal => some .equals
  | .less, .equal => some .lessEquals
  | .greater, .equal => some .greaterEquals
  | .not, .equal => some .notEquals
  | _, _ => none

end TokenKind

namespace Token

/-- Two neighbouring tokens as one token of the given kind. -/
def join (kind : TokenKind) (first second : Token) : Token :=
  ⟨kind, first.value ++ second.value, ⟨first.span.start, second.span.stop⟩, .empty⟩

/-- Join the pairs of tokens that make one operator, from left to right. -/
def joinPairs : List Token -> List Token
  | first :: second :: rest =>
      match TokenKind.joined? first.kind second.kind with
      | some kind => join kind first second :: joinPairs rest
      | none => first :: joinPairs (second :: rest)
  | tokens => tokens

@[simp] theorem joinPairs_nil : joinPairs [] = [] := by
  simp [joinPairs]

@[simp] theorem joinPairs_singleton (token : Token) : joinPairs [token] = [token] := by
  simp [joinPairs]

/-- A token with the binding of its kind, if its kind is an operator. -/
def withBinding (token : Token) : Token :=
  match token.kind.binding? with
  | some binding => { token with payload := .operator binding }
  | none => token

@[simp] theorem kind_withBinding (token : Token) : token.withBinding.kind = token.kind := by
  unfold withBinding
  split <;> rfl

@[simp] theorem value_withBinding (token : Token) : token.withBinding.value = token.value := by
  unfold withBinding
  split <;> rfl

@[simp] theorem span_withBinding (token : Token) : token.withBinding.span = token.span := by
  unfold withBinding
  split <;> rfl

/-- Give every operator its binding. -/
def bindOperators (tokens : List Token) : List Token := tokens.map withBinding

end Token
end ScriptLang
