import ScriptLang.Proofs.Token.Pieces

/-!
# Pieces and the tokens that they become

Behind the scanner, pairs of characters are joined and operators get their
bindings.  What a piece becomes then depends on what stands behind it only for the
four kinds that make a pair with an equals sign.
-/

namespace ScriptLang

open Source (Position)

namespace TokenKind

/-- Only four kinds are joined with what stands behind them. -/
theorem joined?_eq_none_of_first
    {first : TokenKind}
    (second : TokenKind)
    (alone : first ∉ [.equal, .less, .greater, .not]) :
    joined? first second = none := by
  unfold joined?
  split <;> simp at alone ⊢

/-- Nothing is joined with what is no equals sign. -/
theorem joined?_eq_none_of_second
    {second : TokenKind}
    (first : TokenKind)
    (notEqual : second ≠ .equal) :
    joined? first second = none := by
  unfold joined?
  split <;> simp at notEqual ⊢

end TokenKind

namespace Token

/-- The tokens of a source behind all passes over what was scanned. -/
def finished (scanned : List Token) : List Token := bindOperators (joinPairs scanned)

theorem tokenize_of_scanSource
    {source file : String} {scanned : List Token}
    (scans : scanSource source file = .ok scanned) :
    tokenize source file = .ok (finished scanned) := by
  unfold tokenize
  rw [scans]
  rfl

/-- A token is kept apart when it makes no pair with the one behind it. -/
theorem finished_cons
    {first : Token} {rest : List Token}
    (apart : ∀ second ∈ rest.head?, TokenKind.joined? first.kind second.kind = none) :
    finished (first :: rest) = first.withBinding :: finished rest := by
  unfold finished
  cases rest with
  | nil =>
      rw [joinPairs_singleton, joinPairs_nil]
      rfl
  | cons second others =>
      have notJoined := apart second rfl
      rw [joinPairs, notJoined]
      rfl

/-- Two tokens that make a pair become one. -/
theorem finished_cons_cons
    {first second : Token} {kind : TokenKind}
    (rest : List Token)
    (joined : TokenKind.joined? first.kind second.kind = some kind) :
    finished (first :: second :: rest) =
      (join kind first second).withBinding :: finished rest := by
  unfold finished
  rw [joinPairs, joined]
  rfl

namespace Piece

/-- Pieces that stand on one line become tokens, whatever stands behind them. -/
structure Becomes
    (position : Position) (pieces : List Piece) (tokens : List Token) (stop : Position) :
    Prop where
  /-- The pieces end on the line where they start. -/
  sameLine : stop.line = position.line
  finishes : ∀ rest,
    finished (placed position (pieces ++ rest)) = tokens ++ finished (placed stop rest)

/-- The first token of the pieces is no equals sign, so that nothing is joined with it. -/
def NoEqualFirst (pieces : List Piece) : Prop :=
  ∀ position rest, ∀ token ∈ (placed position (pieces ++ rest)).head?, token.kind ≠ .equal

theorem noEqualFirst_written
    {token : Token}
    (rest : List Piece)
    (notEqual : token.kind ≠ .equal) :
    NoEqualFirst (.written token :: rest) := by
  intro position others first isFirst
  cases isFirst
  exact notEqual

theorem noEqualFirst_blank
    {rest : List Piece}
    (noEqual : NoEqualFirst rest) :
    NoEqualFirst (.blank :: rest) :=
  fun position others => noEqual (position.right 1) others

theorem NoEqualFirst.append
    {first : List Piece}
    (noEqual : NoEqualFirst first) (rest : List Piece) :
    NoEqualFirst (first ++ rest) := by
  intro position others
  rw [List.append_assoc]
  exact noEqual position (rest ++ others)

theorem becomes_nil (position : Position) : Becomes position [] [] position :=
  ⟨rfl, fun _ => rfl⟩

theorem Becomes.append
    {position middle stop : Position} {first second : List Piece} {tokens others : List Token}
    (firstBecomes : Becomes position first tokens middle)
    (secondBecomes : Becomes middle second others stop) :
    Becomes position (first ++ second) (tokens ++ others) stop := by
  refine ⟨secondBecomes.sameLine.trans firstBecomes.sameLine, ?_⟩
  intro rest
  rw [List.append_assoc, firstBecomes.finishes, secondBecomes.finishes, List.append_assoc]

theorem Becomes.blank
    {position stop : Position} {pieces : List Piece} {tokens : List Token}
    (becomes : Becomes (position.right 1) pieces tokens stop) :
    Becomes position (.blank :: pieces) tokens stop :=
  ⟨becomes.sameLine, becomes.finishes⟩

/-- A token that is joined with nothing behind it becomes itself. -/
theorem Becomes.written
    {position stop : Position} {token : Token} {pieces : List Piece} {tokens : List Token}
    (alone : token.kind ∉ [.equal, .less, .greater, .not])
    (becomes : Becomes (position.right token.value.toList.length) pieces tokens stop) :
    Becomes position (.written token :: pieces)
      ((placedAt position token).withBinding :: tokens) stop := by
  refine ⟨becomes.sameLine, ?_⟩
  intro rest
  rw [List.cons_append, placed, finished_cons, becomes.finishes, List.cons_append]
  intro second _
  exact TokenKind.joined?_eq_none_of_first second.kind alone

/-- A token becomes itself in front of what is no equals sign. -/
theorem Becomes.written_of_noEqualFirst
    {position stop : Position} {token : Token} {pieces : List Piece} {tokens : List Token}
    (noEqual : NoEqualFirst pieces)
    (becomes : Becomes (position.right token.value.toList.length) pieces tokens stop) :
    Becomes position (.written token :: pieces)
      ((placedAt position token).withBinding :: tokens) stop := by
  refine ⟨becomes.sameLine, ?_⟩
  intro rest
  rw [List.cons_append, placed, finished_cons, becomes.finishes, List.cons_append]
  intro second isSecond
  exact TokenKind.joined?_eq_none_of_second token.kind (noEqual _ rest second isSecond)

/-- A pair becomes one token. -/
theorem Becomes.joined
    {position stop : Position} {first second : Token} {kind : TokenKind}
    {pieces : List Piece} {tokens : List Token}
    (isPair : TokenKind.joined? first.kind second.kind = some kind)
    (becomes : Becomes
      ((position.right first.value.toList.length).right second.value.toList.length)
      pieces tokens stop) :
    Becomes position (.written first :: .written second :: pieces)
      ((join kind (placedAt position first)
        (placedAt (position.right first.value.toList.length) second)).withBinding :: tokens)
      stop := by
  refine ⟨becomes.sameLine, ?_⟩
  intro rest
  have isPlacedPair : TokenKind.joined? (placedAt position first).kind
      (placedAt (position.right first.value.toList.length) second).kind = some kind := isPair
  rw [List.cons_append, List.cons_append, placed, placed, finished_cons_cons _ isPlacedPair,
    becomes.finishes, List.cons_append]

end Piece
end Token
end ScriptLang
