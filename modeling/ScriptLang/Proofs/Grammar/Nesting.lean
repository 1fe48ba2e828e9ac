import ScriptLang.Proofs.Grammar.Forest

/-!
# The limit of the nesting

How the limit of the nesting bears on the reading of trees.  The main statement
compares two limits: when tokens are read within one limit, the other limit gives
the same trees if all of them lie within it, and otherwise refuses the tokens for
their nesting.
-/

namespace ScriptLang
namespace Grammar

open Source (Position)

variable {α β : Type}

/-- The greatest nesting among trees. -/
def deepest : List Tree -> Nat
  | [] => 0
  | tree :: others => max tree.nesting (deepest others)

@[simp] theorem deepest_nil : deepest [] = 0 := rfl

@[simp] theorem deepest_cons (tree : Tree) (others : List Tree) :
    deepest (tree :: others) = max tree.nesting (deepest others) := rfl

theorem nesting_le_deepest
    {tree : Tree} {trees : List Tree}
    (member : tree ∈ trees) :
    tree.nesting ≤ deepest trees := by
  induction trees with
  | nil => cases member
  | cons first others inductionHypothesis =>
      rw [deepest_cons]
      rcases List.mem_cons.mp member with rfl | inOthers
      · exact Nat.le_max_left ..
      · exact Nat.le_trans (inductionHypothesis inOthers) (Nat.le_max_right ..)

/-- How the outcome within a limit follows from a successful one within another limit.  Trees
never get less deep, the outcomes are the same if the trees lie within the limit, and otherwise
the limit is what the tokens are refused for. -/
def Cuts
    (limit : Nat)
    (before : Nat)
    (trees : α -> List Tree)
    (other within : Except Fault α) : Prop :=
  ∀ value, other = .ok value ->
    before ≤ deepest (trees value) ∧
    (deepest (trees value) ≤ limit -> within = .ok value) ∧
    (before ≤ limit -> limit < deepest (trees value) ->
      ∃ place, within = .error (.ofSyntax .nestedTooDeeply place))

namespace Cuts

variable {limit before : Nat}

theorem bind
    {trees : α -> List Tree}
    {laterTrees : β -> List Tree}
    {other within : Except Fault α}
    {otherNext withinNext : α -> Except Fault β}
    (cuts : Cuts limit before trees other within)
    (cutsNext : ∀ value, other = .ok value ->
      Cuts limit (deepest (trees value)) laterTrees (otherNext value) (withinNext value)) :
    Cuts limit before laterTrees (other >>= otherNext) (within >>= withinNext) := by
  intro result done
  obtain ⟨value, firstDone, nextDone⟩ := (bind_eq_ok_iff _ _ _).mp done
  obtain ⟨grows, same, refused⟩ := cuts value firstDone
  obtain ⟨growsNext, sameNext, refusedNext⟩ := cutsNext value firstDone result nextDone
  refine ⟨Nat.le_trans grows growsNext, ?_, ?_⟩
  · intro inLimit
    rw [same (Nat.le_trans growsNext inLimit), ok_bind]
    exact sameNext inLimit
  · intro beforeInLimit beyond
    by_cases firstInLimit : deepest (trees value) ≤ limit
    · rw [same firstInLimit, ok_bind]
      exact refusedNext firstInLimit beyond
    · obtain ⟨place, failed⟩ := refused beforeInLimit (Nat.lt_of_not_le firstInLimit)
      exact ⟨place, by rw [failed, error_bind]⟩

/-- An outcome that no limit bears on and that takes no tree away. -/
theorem same
    {trees : α -> List Tree}
    {outcome : Except Fault α}
    (keeps : ∀ value, outcome = .ok value -> deepest (trees value) = before) :
    Cuts limit before trees outcome outcome := by
  intro value done
  rw [keeps value done]
  refine ⟨Nat.le_refl _, fun _ => done, ?_⟩
  intro inLimit beyond
  omega

/-- What is read within a limit lies within it. -/
theorem deepest_le
    {trees : α -> List Tree} {outcome : Except Fault α} {value : α}
    (cuts : Cuts limit before trees outcome outcome)
    (inLimit : before ≤ limit)
    (done : outcome = .ok value) :
    deepest (trees value) ≤ limit := by
  obtain ⟨_, _, refused⟩ := cuts value done
  rcases Nat.lt_or_ge limit (deepest (trees value)) with beyond | within
  · obtain ⟨place, failed⟩ := refused inLimit beyond
    rw [done] at failed
    cases failed
  · exact within

end Cuts

namespace Forest

variable (limit other : Nat)

/-- An operator makes a deeper tree of its operands and leaves the other trees. -/
theorem deepest_applyTo
    {operator : Token} {trees others : List Tree} {tree : Tree}
    (applied : applyTo operator trees = .ok (tree, others)) :
    deepest others ≤ deepest trees ∧ deepest trees ≤ deepest (tree :: others) := by
  obtain ⟨_, _, operand, _, _, rfl, rfl⟩ | ⟨_, _, left, right, _, _, rfl, rfl⟩ :=
    applyTo_eq_ok applied
  · simp only [deepest_cons, Tree.nesting_unary]
    omega
  · simp only [deepest_cons, Tree.nesting_binary]
    omega

/-- What an operator makes of trees is at most one level deeper than they are. -/
theorem nesting_applyTo_le
    {operator : Token} {trees others : List Tree} {tree : Tree}
    (applied : applyTo operator trees = .ok (tree, others)) :
    tree.nesting ≤ deepest trees + 1 := by
  obtain ⟨_, _, operand, _, _, rfl, rfl⟩ | ⟨_, _, left, right, _, _, rfl, rfl⟩ :=
    applyTo_eq_ok applied
  · rw [Tree.nesting_unary, deepest_cons]
    omega
  · rw [Tree.nesting_binary, deepest_cons, deepest_cons]
    omega

theorem combine_cuts (operator : Token) (trees : List Tree) :
    Cuts limit (deepest trees) id (combine other operator trees)
      (combine limit operator trees) := by
  intro result done
  unfold combine at done ⊢
  cases applied : applyTo operator trees with
  | error fault => simp [applied] at done
  | ok made =>
      obtain ⟨tree, others⟩ := made
      have grows := deepest_applyTo applied
      simp only [applied, ok_bind] at done ⊢
      split at done
      · cases done
      · cases done
        simp only [id, deepest_cons] at grows ⊢
        refine ⟨grows.2, ?_, ?_⟩
        · intro inLimit
          rw [if_neg (by omega)]
          rfl
        · intro beforeInLimit beyond
          refine ⟨operator.span.start, ?_⟩
          rw [if_pos (by omega)]
          rfl

theorem settle_cuts (precedence : Nat) (operators : List Token) (trees : List Tree) :
    Cuts limit (deepest trees) Forest.trees (settle other precedence operators trees)
      (settle limit precedence operators trees) := by
  induction operators generalizing trees with
  | nil => exact Cuts.same (by rintro _ ⟨⟩; rfl)
  | cons top operators inductionHypothesis =>
      by_cases isOpen : top.kind = .openParenthesis
      · rw [settle_of_openParenthesis _ _ _ _ isOpen, settle_of_openParenthesis _ _ _ _ isOpen]
        exact Cuts.same (by rintro _ ⟨⟩; rfl)
      · unfold settle
        rw [if_neg isOpen, if_neg isOpen]
        cases bindingOf top with
        | error fault => exact Cuts.same (by rintro _ ⟨⟩)
        | ok binding =>
            rw [ok_bind, ok_bind]
            split
            · exact Cuts.same (by rintro _ ⟨⟩; rfl)
            · exact Cuts.bind (combine_cuts limit other top trees)
                fun settled _ => inductionHypothesis settled

theorem close_cuts (closing : Token) (forest : Forest) :
    Cuts limit (deepest forest.trees) Forest.trees (close other closing forest)
      (close limit closing forest) := by
  refine Cuts.bind (settle_cuts limit other 0 forest.operators forest.trees) ?_
  intro settled _
  refine Cuts.same ?_
  intro closed done
  split at done
  · cases done
  · cases done
    rfl

theorem finish_cuts (forest : Forest) :
    Cuts limit (deepest forest.trees) id (finish other forest) (finish limit forest) := by
  refine Cuts.bind (settle_cuts limit other 0 forest.operators forest.trees) ?_
  intro settled _
  refine Cuts.same ?_
  intro trees done
  split at done
  · cases done
    rfl
  · cases done

theorem readOperator_cuts (token : Token) (forest : Forest) :
    Cuts limit (deepest forest.trees) Forest.trees (readOperator other token forest)
      (readOperator limit token forest) := by
  unfold readOperator
  cases bindingOf token with
  | error fault => exact Cuts.same (by rintro _ ⟨⟩)
  | ok binding =>
      rw [ok_bind, ok_bind]
      split
      · refine Cuts.bind
          (settle_cuts limit other binding.precedence forest.operators forest.trees) ?_
        intro settled _
        exact Cuts.same (by rintro _ ⟨⟩; rfl)
      · exact Cuts.same (by rintro _ ⟨⟩; rfl)

theorem readToken_cuts (token : Token) (forest : Forest) :
    Cuts limit (deepest forest.trees) Forest.trees (readToken other token forest)
      (readToken limit token forest) := by
  have operand : Cuts limit (deepest forest.trees) Forest.trees
      (leafOf token >>= fun tree => pure (⟨forest.operators, tree :: forest.trees⟩ : Forest))
      (leafOf token >>= fun tree => pure (⟨forest.operators, tree :: forest.trees⟩ : Forest)) := by
    refine Cuts.same ?_
    intro next done
    obtain ⟨tree, isLeaf, read⟩ := (bind_eq_ok_iff _ _ _).mp done
    obtain ⟨content, _, rfl⟩ := leafOf_eq_ok isLeaf
    cases read
    simp
  unfold readToken
  split
  · exact operand
  · exact operand
  · exact Cuts.same (by rintro _ ⟨⟩; rfl)
  · exact close_cuts limit other token forest
  · split
    · exact readOperator_cuts limit other token forest
    · exact Cuts.same (by rintro _ ⟨⟩)

theorem readTokens_cuts (tokens : List Token) (forest : Forest) :
    Cuts limit (deepest forest.trees) Forest.trees (readTokens other tokens forest)
      (readTokens limit tokens forest) := by
  induction tokens generalizing forest with
  | nil => exact Cuts.same (by rintro _ ⟨⟩; rfl)
  | cons token rest inductionHypothesis =>
      exact Cuts.bind (readToken_cuts limit other token forest)
        fun next _ => inductionHypothesis next

/-- Two limits give the same trees unless one of them is exceeded. -/
theorem readAll_cuts (tokens : List Token) :
    Cuts limit 0 id (readAll other tokens) (readAll limit tokens) :=
  Cuts.bind (readTokens_cuts limit other tokens empty)
    fun forest _ => finish_cuts limit other forest

end Forest
end Grammar
end ScriptLang
