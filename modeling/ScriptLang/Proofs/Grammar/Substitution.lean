import ScriptLang.Proofs.Grammar.Replay

/-!
# Substitution in expressions

An operand of an expression may be replaced by any other expression in parentheses.
The tree is then the former one with the tree of the other expression in place of the
leaf, whatever stands around the operand: operators of any precedence that wait, and
parentheses that are open.  Only the limit of the nesting can prevent this.
-/

namespace ScriptLang

open Source (Position)

namespace Tree

/-- A tree with another one in place of the leaf of a given index, counted from left to right.  A
tree without such a leaf stays as it is. -/
def graft : Tree -> Nat -> Tree -> Tree
  | .leaf _ _, 0, replacement => replacement
  | .leaf content position, _ + 1, _ => .leaf content position
  | .unary operator position operand, index, replacement =>
      .unary operator position (operand.graft index replacement)
  | .binary operator position left right, index, replacement =>
      if index < left.leaves.length then
        .binary operator position (left.graft index replacement) right
      else
        .binary operator position left (right.graft (index - left.leaves.length) replacement)

theorem graft_of_length_le
    {tree : Tree} {index : Nat}
    (behind : tree.leaves.length ≤ index)
    (replacement : Tree) :
    tree.graft index replacement = tree := by
  induction tree generalizing index with
  | leaf content position =>
      cases index with
      | zero => cases behind
      | succ index => rfl
  | unary operator position operand inductionHypothesis =>
      rw [graft, inductionHypothesis behind]
  | binary operator position left right _ rightHypothesis =>
      rw [leaves, List.length_append] at behind
      rw [graft, if_neg (by omega), rightHypothesis (by omega)]

/-- A leaf in place of itself changes nothing. -/
theorem graft_self
    {tree : Tree} {index : Nat} {content : Leaf} {position : Position}
    (isLeaf : tree.leaves[index]? = some ⟨content, position⟩) :
    tree.graft index (.leaf content position) = tree := by
  induction tree generalizing index with
  | leaf other place =>
      cases index with
      | zero =>
          cases isLeaf
          rfl
      | succ index => rfl
  | unary operator place operand inductionHypothesis =>
      rw [graft, inductionHypothesis isLeaf]
  | binary operator place left right leftHypothesis rightHypothesis =>
      rw [leaves] at isLeaf
      rw [graft]
      split
      · next inLeft =>
          rw [List.getElem?_append_left inLeft] at isLeaf
          rw [leftHypothesis isLeaf]
      · next notInLeft =>
          rw [List.getElem?_append_right (Nat.le_of_not_lt notInLeft)] at isLeaf
          rw [rightHypothesis isLeaf]

/-- At a leaf the nesting grows by no more than that of the tree in its place. -/
theorem nesting_graft_le (tree : Tree) (index : Nat) (replacement : Tree) :
    (tree.graft index replacement).nesting ≤ tree.nesting + replacement.nesting := by
  induction tree generalizing index with
  | leaf content position =>
      cases index with
      | zero => exact Nat.le_add_left _ _
      | succ index => exact Nat.zero_le _
  | unary operator position operand inductionHypothesis =>
      have := inductionHypothesis index
      rw [graft, nesting_unary, nesting_unary]
      omega
  | binary operator position left right leftHypothesis rightHypothesis =>
      have := leftHypothesis index
      have := rightHypothesis (index - left.leaves.length)
      rw [graft]
      split
      · rw [nesting_binary, nesting_binary]
        omega
      · rw [nesting_binary, nesting_binary]
        omega

theorem isExpression_graft
    {tree replacement : Tree}
    (isExpression : tree.isExpression = true)
    (mayReplace : replacement.isExpression = true)
    (index : Nat) :
    (tree.graft index replacement).isExpression = true := by
  cases tree with
  | leaf content position =>
      cases index with
      | zero => exact mayReplace
      | succ index => exact isExpression
  | unary operator position operand => rfl
  | binary operator position left right =>
      rw [graft]
      split <;> rfl

end Tree

namespace Grammar
namespace Forest

/-- Trees, the latest of which comes first, with another tree in place of the leaf of a given index
in their frontier. -/
def graftInto (index : Nat) (replacement : Tree) : List Tree -> List Tree
  | [] => []
  | tree :: others =>
      if index < (frontier others).length then tree :: graftInto index replacement others
      else tree.graft (index - (frontier others).length) replacement :: others

section

variable {index : Nat}

theorem graftInto_of_length_le
    {trees : List Tree}
    (behind : (frontier trees).length ≤ index)
    (replacement : Tree) :
    graftInto index replacement trees = trees := by
  cases trees with
  | nil => rfl
  | cons tree others =>
      rw [frontier, List.length_append] at behind
      rw [graftInto, if_neg (by omega), Tree.graft_of_length_le (by omega)]

/-- A leaf that is read later or earlier than the one that is replaced stays. -/
theorem graftInto_leaf_cons
    {trees : List Tree}
    (isOther : (frontier trees).length ≠ index)
    (replacement : Tree) (content : Leaf) (position : Position) :
    graftInto index replacement (.leaf content position :: trees) =
      .leaf content position :: graftInto index replacement trees := by
  rw [graftInto]
  split
  · rfl
  · next notBefore =>
      obtain ⟨distance, apart⟩ : ∃ distance, index - (frontier trees).length = distance + 1 :=
        ⟨index - (frontier trees).length - 1, by omega⟩
      rw [apart, graftInto_of_length_le (by omega)]
      rfl

theorem graftInto_leaf_cons_self
    {trees : List Tree}
    (isHere : (frontier trees).length = index)
    (replacement : Tree) (content : Leaf) (position : Position) :
    graftInto index replacement (.leaf content position :: trees) = replacement :: trees := by
  rw [graftInto, if_neg (by omega), isHere, Nat.sub_self]
  rfl

end

theorem graftInto_singleton (index : Nat) (replacement tree : Tree) :
    graftInto index replacement [tree] = [tree.graft index replacement] :=
  if_neg (Nat.not_lt_zero _)

/-- An operator makes of trees in which a leaf is replaced what it made of them before, with the
leaf replaced; the limit must allow for the nesting of the replacement. -/
theorem replays_graft (limit index : Nat) (replacement : Tree) :
    Replays limit (limit + replacement.nesting) (graftInto index replacement) [] where
  combines := by
    intro operator trees result combined
    obtain ⟨tree, others, isApplied, within, rfl⟩ := (combine_eq_ok_iff ..).mp combined
    apply (combine_eq_ok_iff ..).mpr
    have allowed := tree.nesting_graft_le (index - (frontier others).length) replacement
    obtain ⟨_, unary, operand, bound, isUnary, rfl, rfl⟩ |
      ⟨_, binary, left, right, bound, isBinary, rfl, rfl⟩ := applyTo_eq_ok isApplied
    · rw [graftInto, graftInto]
      split
      · exact ⟨_, _, applyTo_of_unaryOperator? bound isUnary operand _, by omega, rfl⟩
      · exact ⟨_, _, applyTo_of_unaryOperator? bound isUnary _ others, by
          rw [Tree.graft] at allowed
          omega, rfl⟩
    · have count : (frontier (left :: others)).length =
          (frontier others).length + left.leaves.length := List.length_append
      rw [graftInto, graftInto, graftInto, count]
      by_cases inOthers : index < (frontier others).length
      · rw [if_pos (by omega), if_pos inOthers, if_pos inOthers]
        exact ⟨_, _, applyTo_of_binaryOperator? bound isBinary left right _, by omega, rfl⟩
      · rw [if_neg inOthers, if_neg inOthers]
        rw [Tree.graft] at allowed ⊢
        by_cases inLeft : index - (frontier others).length < left.leaves.length
        · rw [if_pos inLeft] at allowed ⊢
          rw [if_pos (by omega)]
          exact ⟨_, _, applyTo_of_binaryOperator? bound isBinary _ right others, by omega, rfl⟩
        · rw [if_neg inLeft] at allowed ⊢
          rw [if_neg (by omega), Nat.sub_add_eq]
          exact ⟨_, _, applyTo_of_binaryOperator? bound isBinary left _ others, by omega, rfl⟩
  hidden := .inl rfl

/-- Tokens that are read within a limit are read in the same way within a greater one. -/
theorem readAll_of_le
    {limit other : Nat} {tokens : List Token} {trees : List Tree}
    (read : readAll limit tokens = .ok trees)
    (greater : limit ≤ other) :
    readAll other tokens = .ok trees :=
  (readAll_cuts other limit tokens trees read).2.1
    (Nat.le_trans (deepest_le_of_readAll read) greater)

/-- An operand is read as its leaf. -/
theorem readToken_of_isOperand
    {limit : Nat} {operand : Token} {forest next : Forest}
    (isOperand : IsOperand operand)
    (read : readToken limit operand forest = .ok next) :
    ∃ content,
      next = ⟨forest.operators, .leaf content operand.span.start :: forest.trees⟩ := by
  have notParenthesis := not_parenthesis_of_isOperand isOperand
  cases step_of_readToken read with
  | operand _ _ => exact ⟨_, rfl⟩
  | opened isOpen => exact absurd isOpen notParenthesis.1
  | closed isClose _ _ => exact absurd isClose notParenthesis.2
  | binaryOperator isOperator _ _ _ =>
      exact absurd isOperand (not_isOperand_of_isOperator isOperator)
  | prefixOperator isOperator _ _ =>
      exact absurd isOperand (not_isOperand_of_isOperator isOperator)

/-- Tokens in parentheses are read in place of an operand as their tree in place of its leaf. -/
theorem readAll_of_substituted
    {limit : Nat} {before inner after : List Token} {operand opening closing : Token}
    {innerTree : Tree} {trees : List Tree}
    (isOperand : IsOperand operand)
    (isOpen : opening.kind = .openParenthesis)
    (isClose : closing.kind = .closeParenthesis)
    (innerRead : readAll limit inner = .ok [innerTree])
    (read : readAll limit (before ++ operand :: after) = .ok trees) :
    readAll (limit + innerTree.nesting) (before ++ opening :: (inner ++ closing :: after)) =
      .ok (graftInto (before.filterMap Token.leafAt?).length innerTree trees) := by
  let index := (before.filterMap Token.leafAt?).length
  have replays := replays_graft limit index innerTree
  obtain ⟨last, reading, settles⟩ := (readAll_eq_ok_iff ..).mp read
  rw [readTokens_append] at reading
  obtain ⟨middle, readBefore, readRest⟩ := (bind_eq_ok_iff _ _ _).mp reading
  obtain ⟨next, readOperand, readAfter⟩ := (bind_eq_ok_iff _ _ _).mp readRest
  obtain ⟨content, rfl⟩ := readToken_of_isOperand isOperand readOperand
  have count : (frontier middle.trees).length = index :=
    congrArg List.length (takes_of_readTokens readBefore).1.leaves_eq
  -- The operand is not among the leaves of the tokens before it.
  have beforeAgain : readTokens (limit + innerTree.nesting) before empty = .ok middle := by
    have replayed := replays.readTokens_replayed (fun content position others _ fewer =>
      graftInto_leaf_cons (Nat.ne_of_lt (by simpa [empty, frontier] using fewer)) innerTree
        content position) readBefore
    simp only [Forest.replayed, List.append_nil, graftInto_of_length_le (Nat.le_of_eq count)]
      at replayed
    exact replayed
  -- The tokens after it are read with the other tree in place of the operand.
  have afterAgain := replays.readTokens_replayed (fun content position others atLeast _ => by
      have isOther : (frontier others).length ≠ index := by
        rw [frontier, List.length_append, count] at atLeast
        exact Nat.ne_of_gt (Nat.lt_of_succ_le atLeast)
      exact graftInto_leaf_cons isOther innerTree content position) readAfter
  simp only [Forest.replayed, List.append_nil, graftInto_leaf_cons_self count] at afterAgain
  refine (readAll_eq_ok_iff ..).mpr
    ⟨last.replayed (graftInto index innerTree) [], ?_, replays.settle_replayed settles⟩
  have innerAgain := readAll_of_le innerRead (Nat.le_add_right limit innerTree.nesting)
  rw [replayed, List.append_nil, readTokens_append, beforeAgain, ok_bind,
    readTokens_of_parenthesised isOpen isClose innerAgain, List.singleton_append, afterAgain]

theorem readAll_singleton
    {operand : Token} {content : Leaf} {position : Position}
    (isLeaf : operand.leafAt? = some ⟨content, position⟩)
    (limit : Nat) :
    readAll limit [operand] = .ok [.leaf content position] := by
  unfold Token.leafAt? at isLeaf
  split at isLeaf
  · next isIdentifier carries =>
      cases isLeaf
      simp [readAll, readTokens, readToken, isIdentifier, leafOf, carries, finish, empty]
  · next isLiteral carries =>
      cases isLeaf
      simp [readAll, readTokens, readToken, isLiteral, leafOf, carries, finish, empty]
  · cases isLeaf

end Forest

/-! ## Expressions in programs -/

open Forest (ParsesAs)

/-- Tokens are read as an expression with a given tree, in every program. -/
def ReadsTree (tokens : List Token) (tree : Tree) : Prop :=
  ∀ position program, ∃ id left,
    parseExpression tokens position program = .ok id left ∧ left.tree? id = some tree

/-- Tokens are refused for their nesting at one of them, in every program. -/
def NestsTooDeeply (tokens : List Token) : Prop :=
  ∃ place, ∀ position program, ∃ left,
    parseExpression tokens position program =
      .error (.ofSyntax .nestedTooDeeply place) left

theorem readsTree_iff_parsesAs (tokens : List Token) (tree : Tree) :
    ReadsTree tokens tree ↔ ParsesAs tokens tree := by
  constructor
  · intro reads
    obtain ⟨id, left, accepted, isTree⟩ := reads Source.nowhere (.empty Source.nowhere)
    obtain ⟨other, parsed, rfl, rfl⟩ := parse_of_parseExpression accepted
    rw [Program.tree?_of_expressionLayout (Program.holds_extend _ _), Option.some.injEq] at isTree
    rw [← isTree]
    exact Forest.parsesAs_of_parse parsed
  · intro parses position program
    have mirrors := parseExpression_mirrors program tokens position
    rw [parses program.size position] at mirrors
    exact ⟨_, _, mirrors, Program.tree?_of_expressionLayout (Program.holds_extend program _)⟩

/-- Tokens that are read as one tree within some limit are read as an expression with this tree,
unless its nesting is too great. -/
theorem readsTree_or_nestsTooDeeply
    {limit : Nat} {tokens : List Token} {tree : Tree}
    (nonempty : tokens ≠ [])
    (isExpression : tree.isExpression = true)
    (read : Forest.readAll limit tokens = .ok [tree]) :
    (tree.nesting ≤ greatestDepth -> ReadsTree tokens tree) ∧
      (greatestDepth < tree.nesting -> NestsTooDeeply tokens) := by
  obtain ⟨_, same, refused⟩ := Forest.readAll_cuts greatestDepth limit tokens [tree] read
  have deepest : deepest [tree] = tree.nesting := Nat.max_zero _
  rw [id, deepest] at same refused
  constructor
  · intro within
    rw [readsTree_iff_parsesAs, Forest.parsesAs_iff_readAll]
    exact ⟨nonempty, same within, isExpression⟩
  · intro beyond
    obtain ⟨place, failed⟩ := refused (Nat.zero_le _) beyond
    refine ⟨place, fun position program => ?_⟩
    have mirrors := parseExpression_mirrors program tokens position
    rw [Forest.parse, if_neg fun isEmpty => nonempty (List.isEmpty_iff.mp isEmpty), failed]
      at mirrors
    obtain ⟨trees, refusal⟩ := mirrors
    exact ⟨_, refusal⟩

/-- An operand of an expression is the leaf of its tree that has as many leaves before it as there
are operands before the token. -/
theorem exists_leaf_of_parsesAs
    {before after : List Token} {operand : Token} {tree : Tree}
    (isOperand : IsOperand operand)
    (parses : ParsesAs (before ++ operand :: after) tree) :
    ∃ leaf, operand.leafAt? = some leaf ∧
      tree.leaves[(before.filterMap Token.leafAt?).length]? = some leaf := by
  have madeOf := parses.madeOf
  have isSome : operand.leafAt?.isSome := by
    have noOperator := Token.operatorAt?_of_isOperand isOperand
    have notParenthesis := not_parenthesis_of_isOperand isOperand
    rcases madeOf.inExpression operand (by simp) with isLeaf | isOperator | isOpen | isClose
    · exact isLeaf
    · rw [noOperator] at isOperator
      cases isOperator
    · exact absurd isOpen notParenthesis.1
    · exact absurd isClose notParenthesis.2
  obtain ⟨leaf, isLeaf⟩ := Option.isSome_iff_exists.mp isSome
  refine ⟨leaf, isLeaf, ?_⟩
  rw [madeOf.leaves_eq, List.filterMap_append, List.filterMap_cons, isLeaf,
    List.getElem?_append_right (Nat.le_refl _), Nat.sub_self]
  rfl

/-- Substitution in parentheses is hygienic.  When `inner` and `before ++ operand :: after` are
expressions, the expression with `inner` in parentheses in place of the operand has the tree of the
latter with the tree of the former in place of the operand's leaf, or is refused for its nesting
if this tree is too deep.  Parentheses around all of an expression or around an operand change
nothing, and neither do parentheses around `inner` where it is an operand already. -/
theorem readsTree_of_substituted
    {before inner after : List Token} {operand opening closing : Token}
    (isOperand : IsOperand operand)
    (isOpen : opening.kind = .openParenthesis)
    (isClose : closing.kind = .closeParenthesis)
    (innerAccepted : Accepted inner)
    (accepted : Accepted (before ++ operand :: after)) :
    ∃ innerTree tree whole leaf,
      ReadsTree inner innerTree ∧ ReadsTree (before ++ operand :: after) tree ∧
        operand.leafAt? = some leaf ∧
        tree.leaves[(before.filterMap Token.leafAt?).length]? = some leaf ∧
        whole = tree.graft (before.filterMap Token.leafAt?).length innerTree ∧
        (whole.nesting ≤ greatestDepth ->
          ReadsTree (before ++ opening :: (inner ++ closing :: after)) whole) ∧
        (greatestDepth < whole.nesting ->
          NestsTooDeeply (before ++ opening :: (inner ++ closing :: after))) ∧
        ReadsTree (opening :: (inner ++ [closing])) innerTree ∧
        ReadsTree (before ++ opening :: operand :: closing :: after) tree ∧
        (ReadsTree (before ++ (inner ++ after)) whole ->
          ReadsTree (before ++ opening :: (inner ++ closing :: after)) whole) := by
  obtain ⟨innerTree, innerParses⟩ := Forest.exists_parsesAs innerAccepted
  obtain ⟨tree, parses⟩ := Forest.exists_parsesAs accepted
  obtain ⟨_, innerRead, innerIsExpression⟩ := (Forest.parsesAs_iff_readAll ..).mp innerParses
  obtain ⟨_, read, isExpression⟩ := (Forest.parsesAs_iff_readAll ..).mp parses
  obtain ⟨leaf, isLeaf, isThere⟩ := exists_leaf_of_parsesAs isOperand parses
  have substituted := Forest.readAll_of_substituted isOperand isOpen isClose innerRead read
  rw [Forest.graftInto_singleton] at substituted
  obtain ⟨within, beyond⟩ := readsTree_or_nestsTooDeeply (by simp)
    (Tree.isExpression_graft isExpression innerIsExpression _) substituted
  have around := Forest.readAll_of_parenthesised isOpen isClose innerRead
  have aroundOperand := Forest.readAll_of_substituted isOperand isOpen isClose
    (Forest.readAll_singleton isLeaf _) read
  rw [Forest.graftInto_singleton, Tree.graft_self isThere] at aroundOperand
  refine ⟨innerTree, tree, _, leaf, (readsTree_iff_parsesAs ..).mpr innerParses,
    (readsTree_iff_parsesAs ..).mpr parses, isLeaf, isThere, rfl, within, beyond, ?_, ?_, ?_⟩
  · rw [readsTree_iff_parsesAs, Forest.parsesAs_iff_readAll]
    exact ⟨by simp, around, innerIsExpression⟩
  · rw [readsTree_iff_parsesAs, Forest.parsesAs_iff_readAll]
    exact ⟨by simp, aroundOperand, isExpression⟩
  · intro readsWhole
    rw [readsTree_iff_parsesAs, Forest.parsesAs_iff_readAll] at readsWhole
    have deepest := Forest.deepest_le_of_readAll readsWhole.2.1
    exact within (Nat.le_trans (Nat.le_max_left _ _) deepest)

/-- In `a * b + c` the operand `b` is replaced by `x + y`, which stays one operand of the
multiplication. -/
theorem readsTree_of_substituted_sum :
    ∃ product sum c,
      ReadsTree [.ofName "a" Source.nowhere, .ofSymbol .asterisk "*" Source.nowhere,
        .ofSymbol .openParenthesis "(" Source.nowhere, .ofName "x" Source.nowhere,
        .ofSymbol .plus "+" Source.nowhere, .ofName "y" Source.nowhere,
        .ofSymbol .closeParenthesis ")" Source.nowhere, .ofSymbol .plus "+" Source.nowhere,
        .ofName "c" Source.nowhere] (.binary .add Source.nowhere product c) ∧
      product = .binary .multiply Source.nowhere
        (.leaf (.identifier "a") Source.nowhere) sum ∧
      ReadsTree [.ofName "x" Source.nowhere, .ofSymbol .plus "+" Source.nowhere,
        .ofName "y" Source.nowhere] sum := by
  have innerAccepted : Accepted [.ofName "x" Source.nowhere, .ofSymbol .plus "+" Source.nowhere,
      .ofName "y" Source.nowhere] :=
    ⟨by simp, Source.nowhere, .empty Source.nowhere, _, _, rfl⟩
  have accepted : Accepted ([.ofName "a" Source.nowhere,
      .ofSymbol .asterisk "*" Source.nowhere] ++ .ofName "b" Source.nowhere ::
        [.ofSymbol .plus "+" Source.nowhere, .ofName "c" Source.nowhere]) :=
    ⟨by simp, Source.nowhere, .empty Source.nowhere, _, _, rfl⟩
  obtain ⟨sum, tree, whole, leaf, readsSum, reads, _, _, isWhole, within, _⟩ :=
    readsTree_of_substituted (.inl rfl)
      (rfl : (Token.ofSymbol .openParenthesis "(" Source.nowhere).kind = .openParenthesis)
      (rfl : (Token.ofSymbol .closeParenthesis ")" Source.nowhere).kind = .closeParenthesis)
      innerAccepted accepted
  have sumParsed := (readsTree_iff_parsesAs _ _).mp readsSum 0 Source.nowhere
  have parsed := (readsTree_iff_parsesAs _ _).mp reads 0 Source.nowhere
  cases sumParsed
  cases parsed
  cases isWhole
  exact ⟨_, _, _, within (by decide), rfl, readsSum⟩

end Grammar
end ScriptLang
