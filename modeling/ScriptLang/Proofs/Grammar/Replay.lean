import ScriptLang.Proofs.Grammar.Conservation

/-!
# Replayed readings

A reading is replayed when the same tokens are read in front of other trees.  What
is needed for it is that an operator does with the changed trees what it did with
the former ones, and that the operators which wait below are hidden by an open
parenthesis.  The first use is a parenthesis in the middle of an expression: what
stands in it is read as if it stood alone.
-/

namespace ScriptLang
namespace Grammar

open Source (Position)

namespace Forest

variable {limit : Nat}

/-- How a reading is replayed.  Trees are changed, within another limit, in such a way that
operators go on to make the same of them, and operators below are hidden by an open parenthesis,
if there are any. -/
structure Replays
    (limit other : Nat)
    (change : List Tree -> List Tree)
    (below : List Token) : Prop where
  combines : ∀ operator trees result, combine limit operator trees = .ok result ->
    combine other operator (change trees) = .ok (change result)
  hidden : below = [] ∨
    ∃ opening others, below = opening :: others ∧ opening.kind = .openParenthesis

/-- A forest with changed trees and with operators below. -/
def replayed (change : List Tree -> List Tree) (below : List Token) (forest : Forest) : Forest :=
  ⟨forest.operators ++ below, change forest.trees⟩

namespace Replays

variable {other : Nat} {change : List Tree -> List Tree} {below : List Token}
  (replays : Replays limit other change below)

include replays

theorem settle_replayed
    {precedence : Nat} {operators : List Token} {trees : List Tree} {settled : Forest}
    (settles : settle limit precedence operators trees = .ok settled) :
    settle other precedence (operators ++ below) (change trees) =
      .ok (settled.replayed change below) := by
  induction operators generalizing trees with
  | nil =>
      -- Only now the operators below are on top, and the parenthesis in front of them stops it.
      cases settles
      rcases replays.hidden with rfl | ⟨opening, others, rfl, isOpen⟩
      · rfl
      · exact settle_of_openParenthesis other precedence others _ isOpen
  | cons top operators inductionHypothesis =>
      rw [List.cons_append]
      unfold settle at settles ⊢
      split at settles
      · next isOpen =>
          cases settles
          rw [if_pos isOpen]
          rfl
      · next notOpen =>
          obtain ⟨binding, bound, rest⟩ := (bind_eq_ok_iff _ _ _).mp settles
          rw [if_neg notOpen, bound, ok_bind]
          split at rest
          · next stronger =>
              cases rest
              rw [if_pos stronger]
              rfl
          · next notStronger =>
              obtain ⟨combined, combining, further⟩ := (bind_eq_ok_iff _ _ _).mp rest
              rw [if_neg notStronger, replays.combines _ _ _ combining, ok_bind]
              exact inductionHypothesis further

/-- A token is read again, if it comes to stand behind the changed trees when it is a leaf. -/
theorem readToken_replayed
    {token : Token} {forest next : Forest}
    (pushes : ∀ content position, token.leafAt? = some ⟨content, position⟩ ->
      change (.leaf content position :: forest.trees) =
        .leaf content position :: change forest.trees)
    (read : readToken limit token forest = .ok next) :
    readToken other token (forest.replayed change below) = .ok (next.replayed change below) := by
  apply readToken_of_step
  cases step_of_readToken read with
  | operand isOperand carries =>
      rw [replayed, replayed, pushes _ _ (Token.leafAt?_of_payload isOperand carries)]
      exact .operand isOperand carries
  | opened isOpen => exact .opened isOpen
  | closed isClose wasOpen settles =>
      exact .closed isClose wasOpen (replays.settle_replayed settles)
  | binaryOperator isOperator bound isBinary settles =>
      have settlesAgain : settle other _ (forest.replayed change below).operators
          (forest.replayed change below).trees = _ := replays.settle_replayed settles
      exact .binaryOperator isOperator bound isBinary settlesAgain
  | prefixOperator isOperator bound notBinary => exact .prefixOperator isOperator bound notBinary

/-- Tokens are read again, if their leaves come to stand behind the changed trees. -/
theorem readTokens_replayed
    {tokens : List Token} {forest last : Forest}
    (pushes : ∀ content position trees,
      (frontier forest.trees).length ≤ (frontier trees).length ->
      (frontier trees).length <
        (frontier forest.trees).length + (tokens.filterMap Token.leafAt?).length ->
      change (.leaf content position :: trees) = .leaf content position :: change trees)
    (read : readTokens limit tokens forest = .ok last) :
    readTokens other tokens (forest.replayed change below) =
      .ok (last.replayed change below) := by
  induction tokens generalizing forest with
  | nil =>
      cases read
      rfl
  | cons token rest inductionHypothesis =>
      obtain ⟨next, readFirst, readRest⟩ := (bind_eq_ok_iff _ _ _).mp read
      -- The first token leaves fewer leaves to come, by as many as the frontier grows.
      have grown := congrArg List.length (takes_of_readToken readFirst).1.leaves_eq
      rw [List.length_append] at grown
      have count : ((token :: rest).filterMap Token.leafAt?).length =
          token.leafAt?.toList.length + (rest.filterMap Token.leafAt?).length := by
        rw [List.filterMap_cons]
        cases token.leafAt? with
        | none => simp
        | some leaf => simp [Nat.add_comm]
      rw [readTokens_cons, replays.readToken_replayed ?_ readFirst, ok_bind]
      · refine inductionHypothesis (fun content position trees atLeast fewer => ?_) readRest
        exact pushes content position trees (by omega) (by omega)
      · intro content position isLeaf
        rw [isLeaf] at count
        exact pushes content position forest.trees (Nat.le_refl _)
          (by rw [count, Option.toList_some, List.length_singleton]; omega)

end Replays

/-! ## Parentheses -/

/-- What is read in a parenthesis does not touch the trees and operators before it. -/
theorem replays_above
    (limit : Nat) {opening : Token} (operators : List Token) (trees : List Tree)
    (isOpen : opening.kind = .openParenthesis) :
    Replays limit limit (· ++ trees) (opening :: operators) where
  combines := by
    intro operator above result combined
    obtain ⟨tree, others, isApplied, within, rfl⟩ := (combine_eq_ok_iff ..).mp combined
    apply (combine_eq_ok_iff ..).mpr
    refine ⟨tree, others ++ trees, ?_, within, rfl⟩
    obtain ⟨_, unary, operand, bound, isUnary, rfl, rfl⟩ |
      ⟨_, binary, left, right, bound, isBinary, rfl, rfl⟩ := applyTo_eq_ok isApplied
    · exact applyTo_of_unaryOperator? bound isUnary operand _
    · exact applyTo_of_binaryOperator? bound isBinary left right _
  hidden := .inr ⟨opening, operators, rfl, isOpen⟩

/-- Tokens in parentheses are read as the trees that they are read as alone. -/
theorem readTokens_of_parenthesised
    {opening closing : Token} {tokens : List Token} {trees : List Tree}
    (isOpen : opening.kind = .openParenthesis)
    (isClose : closing.kind = .closeParenthesis)
    (read : readAll limit tokens = .ok trees)
    (rest : List Token) (forest : Forest) :
    readTokens limit (opening :: (tokens ++ closing :: rest)) forest =
      readTokens limit rest ⟨forest.operators, trees ++ forest.trees⟩ := by
  obtain ⟨last, reading, settles⟩ := (readAll_eq_ok_iff ..).mp read
  have replays := replays_above limit forest.operators forest.trees isOpen
  have opened : readToken limit opening forest =
      .ok (empty.replayed (· ++ forest.trees) (opening :: forest.operators)) :=
    readToken_of_openParenthesis limit forest isOpen
  have inside := replays.readTokens_replayed (fun _ _ _ _ _ => rfl) reading
  have closed : readToken limit closing
      (last.replayed (· ++ forest.trees) (opening :: forest.operators)) =
        .ok ⟨forest.operators, trees ++ forest.trees⟩ :=
    readToken_of_step (.closed isClose isOpen (replays.settle_replayed settles))
  rw [readTokens_cons, opened, ok_bind, readTokens_append, inside, ok_bind, readTokens_cons,
    closed, ok_bind]

/-- Parentheses around all tokens change nothing. -/
theorem readAll_of_parenthesised
    {opening closing : Token} {tokens : List Token} {trees : List Tree}
    (isOpen : opening.kind = .openParenthesis)
    (isClose : closing.kind = .closeParenthesis)
    (read : readAll limit tokens = .ok trees) :
    readAll limit (opening :: (tokens ++ [closing])) = .ok trees := by
  rw [readAll, readTokens_of_parenthesised isOpen isClose read]
  simp [finish, empty]

end Forest
end Grammar
end ScriptLang
