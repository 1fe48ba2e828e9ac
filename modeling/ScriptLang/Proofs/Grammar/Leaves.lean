import ScriptLang.Proofs.Grammar.Steps
import ScriptLang.Proofs.Token.Coherent

/-!
# Leaves of expressions

What holds of the leaves that operand tokens carry holds of all leaves of the
trees that are read, because operators only put trees together.
-/

namespace ScriptLang
namespace Grammar

/-- All leaves of all trees satisfy a condition. -/
def AllEvery (good : Leaf -> Prop) (trees : List Tree) : Prop :=
  ∀ tree ∈ trees, tree.Every good

theorem allEvery_nil (good : Leaf -> Prop) : AllEvery good [] := by
  simp [AllEvery]

theorem allEvery_cons (good : Leaf -> Prop) (tree : Tree) (trees : List Tree) :
    AllEvery good (tree :: trees) ↔ tree.Every good ∧ AllEvery good trees := by
  simp [AllEvery]

/-- The leaves that tokens carry as operands satisfy a condition. -/
def Carries (good : Leaf -> Prop) (tokens : List Token) : Prop :=
  ∀ token ∈ tokens, IsOperand token -> ∀ content, token.payload = .leaf content -> good content

/-- A coherent operand carries a leaf that is no type keyword. -/
theorem carries_of_coherent
    {tokens : List Token}
    (coherent : ∀ token ∈ tokens, token.Coherent) :
    Carries (fun content => ∀ ty, content ≠ .typeKeyword ty) tokens := by
  intro token member isOperand content carried ty
  have tokenCoherent := coherent token member
  unfold Token.Coherent at tokenCoherent
  rcases isOperand with kind | kind
  · simp only [kind, carried, Payload.leaf.injEq] at tokenCoherent
    simp [tokenCoherent]
  · simp only [kind, carried, Payload.leaf.injEq] at tokenCoherent
    obtain ⟨value, same⟩ := tokenCoherent
    simp [same]

/-- A tree without type keywords may stand as an expression. -/
theorem isExpression_of_every
    {tree : Tree}
    (every : tree.Every fun content => ∀ ty, content ≠ .typeKeyword ty) :
    tree.isExpression = true := by
  cases tree with
  | leaf content position =>
      cases content with
      | typeKeyword ty => exact absurd rfl (every ty)
      | identifier name => rfl
      | literal value => rfl
  | unary operator position operand => rfl
  | binary operator position left right => rfl

namespace Forest

variable {good : Leaf -> Prop} {limit : Nat}

theorem combine_every
    {operator : Token} {trees result : List Tree}
    (every : AllEvery good trees)
    (combined : combine limit operator trees = .ok result) :
    AllEvery good result := by
  obtain ⟨tree, others, applied, _, rfl⟩ := (combine_eq_ok_iff ..).mp combined
  rcases applyTo_eq_ok applied with
    ⟨_, unary, operand, _, _, rfl, rfl⟩ | ⟨_, binary, left, right, _, _, rfl, rfl⟩
  · simp only [allEvery_cons] at every ⊢
    exact every
  · simp only [allEvery_cons] at every ⊢
    exact ⟨⟨every.2.1, every.1⟩, every.2.2⟩

theorem settle_every
    {precedence : Nat} {operators : List Token} {trees : List Tree} {forest : Forest}
    (every : AllEvery good trees)
    (settledForest : settle limit precedence operators trees = .ok forest) :
    AllEvery good forest.trees := by
  refine settle_induction (motive := fun forest => AllEvery good forest.trees) settledForest
    every ?_
  intro top operators trees combined _ combining treesEvery
  exact combine_every treesEvery combining

theorem readToken_every
    {token : Token} {forest next : Forest}
    (carries : Carries good [token])
    (every : AllEvery good forest.trees)
    (read : readToken limit token forest = .ok next) :
    AllEvery good next.trees := by
  cases step_of_readToken read with
  | operand isOperand carried =>
      rw [allEvery_cons]
      exact ⟨carries token (by simp) isOperand _ carried, every⟩
  | opened _ => exact every
  | closed _ _ settles =>
      have settledEvery := settle_every every settles
      exact settledEvery
  | binaryOperator _ _ _ settles =>
      have settledEvery := settle_every every settles
      exact settledEvery
  | prefixOperator _ _ _ => exact every

theorem readTokens_every
    {tokens : List Token} {forest last : Forest}
    (carries : Carries good tokens)
    (every : AllEvery good forest.trees)
    (read : readTokens limit tokens forest = .ok last) :
    AllEvery good last.trees := by
  induction tokens generalizing forest with
  | nil =>
      cases read
      exact every
  | cons token rest inductionHypothesis =>
      obtain ⟨next, readFirst, readRest⟩ := (bind_eq_ok_iff _ _ _).mp read
      refine inductionHypothesis (fun other member => carries other (by simp [member])) ?_ readRest
      refine readToken_every (fun other member => carries other ?_) every readFirst
      rw [List.mem_singleton.mp member]
      exact List.mem_cons_self

/-- The leaves of the trees that are left are leaves of the tokens. -/
theorem readAll_every
    {tokens : List Token} {trees : List Tree}
    (carries : Carries good tokens)
    (read : readAll limit tokens = .ok trees) :
    AllEvery good trees := by
  obtain ⟨last, reading, settles⟩ := (readAll_eq_ok_iff ..).mp read
  exact settle_every (readTokens_every carries (allEvery_nil good) reading) settles

end Forest
end Grammar
end ScriptLang
