import ScriptLang.Proofs.Grammar.Infix
import ScriptLang.Proofs.Token.Coherent

/-!
# Climbing over infix expressions

Climbing precedences reads every infix expression.  The main statement says that
it reads a tree of the whole expression from precedence zero on, because what it
leaves over at any precedence is again an operator with an infix expression
behind it, and no operator is as weak as precedence zero.
-/

namespace ScriptLang
namespace Grammar

/-- A coherent operand carries a leaf that may stand as an expression. -/
theorem leafOf_of_coherent
    {token : Token}
    (isOperand : IsOperand token)
    (coherent : token.Coherent) :
    ∃ content, Forest.leafOf token = .ok (.leaf content token.span.start) ∧
      (Tree.leaf content token.span.start).isExpression := by
  unfold Token.Coherent at coherent
  rcases isOperand with kind | kind
  · simp only [kind] at coherent
    exact ⟨.identifier token.value, by simp [Forest.leafOf, coherent], rfl⟩
  · simp only [kind] at coherent
    obtain ⟨value, carries⟩ := coherent
    exact ⟨.literal value, by simp [Forest.leafOf, carries], rfl⟩

theorem binaryOf?_eq_some
    {token : Token} {operator : BinaryOperator} {precedence : Nat}
    (found : binaryOf? token = some (operator, precedence)) :
    token.kind.binaryOperator? = some operator ∧
      token.kind.binding? = some ⟨precedence, 2⟩ := by
  unfold binaryOf? at found
  cases kind : token.kind <;>
    simp_all [TokenKind.binaryOperator?, TokenKind.binding?]

theorem unaryOf?_eq_some
    {token : Token} {operator : UnaryOperator} {precedence : Nat}
    (found : unaryOf? token = some (operator, precedence)) :
    token.kind.unaryOperator? = some operator ∧
      token.kind.binding? = some ⟨precedence, 1⟩ := by
  unfold unaryOf? at found
  cases kind : token.kind <;>
    simp_all [TokenKind.unaryOperator?, TokenKind.binding?]

/-- Every operator is stronger than precedence zero. -/
theorem precedence_pos
    {kind : TokenKind} {binding : Binding}
    (bound : kind.binding? = some binding) :
    0 < binding.precedence := by
  unfold TokenKind.binding? at bound
  split at bound <;> cases bound <;> decide

theorem exists_binaryOf?
    {token : Token}
    (isBinary : IsBinary token) :
    ∃ operator precedence, binaryOf? token = some (operator, precedence) := by
  obtain ⟨operator, found⟩ := Option.isSome_iff_exists.mp isBinary
  obtain ⟨precedence, bound⟩ := (TokenKind.binaryOperator?_isSome_iff _).mp isBinary
  exact ⟨operator, precedence, by simp [binaryOf?, found, bound]⟩

theorem exists_unaryOf?
    {token : Token}
    (isPrefix : IsPrefix token) :
    ∃ operator precedence, unaryOf? token = some (operator, precedence) := by
  obtain ⟨operator, found⟩ := Option.isSome_iff_exists.mp isPrefix
  obtain ⟨precedence, bound⟩ := (TokenKind.unaryOperator?_isSome_iff _).mp isPrefix
  exact ⟨operator, precedence, by simp [unaryOf?, found, bound]⟩

theorem binaryOf?_of_closeParenthesis
    {token : Token}
    (isClose : token.kind = .closeParenthesis) :
    binaryOf? token = none := by
  simp [binaryOf?, isClose, TokenKind.binaryOperator?]

/-- The precedence of the binary operator at the start of a token list, or zero. -/
def demand : List Token -> Nat
  | [] => 0
  | token :: _ =>
      match binaryOf? token with
      | some (_, precedence) => precedence
      | none => 0

@[simp] theorem demand_nil : demand [] = 0 := rfl

/-- What may stand behind a term: nothing, or a binary operator with an expression. -/
def IsTail (tokens : List Token) : Prop :=
  tokens = [] ∨
    ∃ operator rest, tokens = operator :: rest ∧ IsBinary operator ∧ Derives .expression rest

/-- The end of an expression: the end of the tokens or a closing parenthesis. -/
def IsEnd (tokens : List Token) : Prop :=
  tokens = [] ∨ ∃ closing others, tokens = closing :: others ∧ closing.kind = .closeParenthesis

theorem demand_of_isEnd
    {tokens : List Token}
    (isEnd : IsEnd tokens) :
    demand tokens = 0 := by
  rcases isEnd with rfl | ⟨closing, others, rfl, isClose⟩
  · rfl
  · simp [demand, binaryOf?_of_closeParenthesis isClose]

/-- A tail that demands nothing is empty. -/
theorem eq_nil_of_demand_eq_zero
    {tail : List Token}
    (isTail : IsTail tail)
    (undemanding : demand tail = 0) :
    tail = [] := by
  rcases isTail with rfl | ⟨operator, rest, rfl, isBinary, _⟩
  · rfl
  · obtain ⟨_, precedence, found⟩ := exists_binaryOf? isBinary
    have positive := precedence_pos (binaryOf?_eq_some found).2
    simp only [demand, found] at undemanding positive
    omega

/-- An expression is a term with a tail. -/
theorem exists_term_tail
    {tokens : List Token}
    (derives : Derives .expression tokens) :
    ∃ term tail, tokens = term ++ tail ∧ Derives .term term ∧ IsTail tail := by
  cases derives with
  | term derives => exact ⟨tokens, [], by simp, derives, .inl rfl⟩
  | @binary left right operator leftDerives isBinary rightDerives =>
      exact ⟨left, operator :: right, rfl, leftDerives,
        .inr ⟨operator, right, rfl, isBinary, rightDerives⟩⟩

theorem derives_append
    {term tail : List Token}
    (derives : Derives .term term)
    (isTail : IsTail tail) :
    Derives .expression (term ++ tail) := by
  rcases isTail with rfl | ⟨operator, rest, rfl, isBinary, restDerives⟩
  · rw [List.append_nil]
    exact .term derives
  · exact .binary derives isBinary restDerives

/-- What is read at a precedence: a tree, with a tail left over that ends the tokens and demands
no more than the precedence. -/
def ReadsTo
    (least : Nat)
    (tokens rest : List Token)
    (read : Option (Tree × List Token)) : Prop :=
  ∃ tree tail, read = some (tree, tail ++ rest) ∧ IsTail tail ∧ demand tail ≤ least ∧
    tail <:+ tokens

/-- Expressions of a given length are read, with at least one token less left over. -/
def ReadsExpressions (count : Nat) : Prop :=
  ∀ tokens, tokens.length = count -> Derives .expression tokens ->
    (∀ token ∈ tokens, token.Coherent) -> ∀ least rest, IsEnd rest ->
    ReadsTo least tokens.tail rest (climb least (tokens ++ rest))

/-- Tails of a given length are read behind any tree. -/
def ReadsTails (count : Nat) : Prop :=
  ∀ tail, tail.length = count -> IsTail tail ->
    (∀ token ∈ tail, token.Coherent) -> ∀ least left rest, IsEnd rest ->
    ReadsTo least tail rest (climbOn least left (tail ++ rest))

/-- A term is read with the part of its tail that a prefix operator at its start swallows. -/
theorem climbTerm_reads
    {term tail rest : List Token}
    (shorter : ∀ less < (term ++ tail).length, ReadsExpressions less)
    (derives : Derives .term term)
    (isTail : IsTail tail)
    (coherent : ∀ token ∈ term ++ tail, token.Coherent)
    (isEnd : IsEnd rest) :
    ∃ tree left, climbTerm (term ++ tail ++ rest) = some (tree, left ++ rest) ∧
      IsTail left ∧ left <:+ (term ++ tail).tail ∧ left.length < (term ++ tail).length := by
  cases derives with
  | @operand token isOperand =>
      obtain ⟨content, isLeaf, _⟩ := leafOf_of_coherent isOperand (coherent token (by simp))
      have read := climbTerm_of_operand (tail ++ rest) isOperand isLeaf
      exact ⟨_, tail, read, isTail, List.suffix_refl _, by simp⟩
  | @parenthesised inner opening closing isOpen innerDerives isClose =>
      have innerCoherent : ∀ token ∈ inner, token.Coherent :=
        fun token member => coherent token (by simp [member])
      have innerEnd : IsEnd (closing :: (tail ++ rest)) := .inr ⟨closing, _, rfl, isClose⟩
      obtain ⟨tree, left, read, leftTail, demanded, _⟩ :=
        shorter inner.length (by simp only [List.length_append, List.length_cons]; omega) inner rfl
          innerDerives innerCoherent 0 _ innerEnd
      have leftEmpty : left = [] := eq_nil_of_demand_eq_zero leftTail (Nat.le_zero.mp demanded)
      refine ⟨tree, tail, ?_, isTail, ?_, by simp; omega⟩
      · have split : opening :: (inner ++ [closing]) ++ tail ++ rest =
            opening :: (inner ++ closing :: (tail ++ rest)) := by simp
        rw [split, climbTerm_of_openParenthesis _ isOpen, read, leftEmpty]
        simp [isClose]
      · exact ⟨inner ++ [closing], by simp⟩
  | @application operand operator isPrefix operandDerives =>
      obtain ⟨unary, precedence, found⟩ := exists_unaryOf? isPrefix
      obtain ⟨tree, left, read, leftTail, _, isSuffix⟩ :=
        shorter (operand ++ tail).length (by simp) (operand ++ tail) rfl
          (derives_append operandDerives isTail)
          (fun token member => coherent token (List.mem_cons_of_mem _ member))
          precedence rest isEnd
      have leftSuffix : left <:+ operand ++ tail := isSuffix.trans (List.tail_suffix _)
      refine ⟨.unary unary operator.span.start tree, left, ?_, leftTail, leftSuffix, ?_⟩
      · change climbTerm (operator :: (operand ++ tail ++ rest)) = _
        rw [climbTerm_of_unaryOf? _ found, read]
        rfl
      · have := leftSuffix.length_le
        simp only [List.cons_append, List.length_cons]
        omega

/-- Climbing reads expressions and tails of every length. -/
theorem climb_reads (count : Nat) : ReadsExpressions count ∧ ReadsTails count := by
  induction count using Nat.strongRecOn with
  | ind count inductionHypothesis =>
      constructor
      · rintro tokens rfl derives coherent least rest isEnd
        obtain ⟨term, tail, rfl, termDerives, isTail⟩ := exists_term_tail derives
        obtain ⟨operand, left, readTerm, leftTail, leftSuffix, leftShorter⟩ :=
          climbTerm_reads (fun less isLess => (inductionHypothesis less isLess).1)
            termDerives isTail coherent isEnd
        have leftCoherent : ∀ token ∈ left, token.Coherent := fun token member =>
          coherent token (List.mem_of_mem_tail (leftSuffix.subset member))
        obtain ⟨tree, last, readTail, lastTail, demanded, lastSuffix⟩ :=
          (inductionHypothesis left.length leftShorter).2 left rfl leftTail leftCoherent
            least operand rest isEnd
        refine ⟨tree, last, ?_, lastTail, demanded, lastSuffix.trans leftSuffix⟩
        rw [climb_eq, readTerm, Option.bind_some, readTail]
      · rintro tail rfl isTail coherent least left rest isEnd
        rcases isTail with rfl | ⟨operator, right, rfl, isBinary, rightDerives⟩
        · refine ⟨left, [], ?_, .inl rfl, Nat.zero_le _, List.suffix_refl _⟩
          rcases isEnd with rfl | ⟨closing, others, rfl, isClose⟩
          · exact climbOn_nil least left
          · rw [List.nil_append, climbOn_cons, binaryOf?_of_closeParenthesis isClose]
        · obtain ⟨binary, precedence, found⟩ := exists_binaryOf? isBinary
          rw [List.cons_append, climbOn_cons, found]
          dsimp only
          split
          · have rightCoherent : ∀ token ∈ right, token.Coherent := fun token member =>
              coherent token (List.mem_cons_of_mem _ member)
            obtain ⟨rightTree, next, readRight, nextTail, _, nextSuffix⟩ :=
              (inductionHypothesis right.length (by simp)).1 right rfl rightDerives
                rightCoherent precedence rest isEnd
            have nextInRight : next <:+ right := nextSuffix.trans (List.tail_suffix _)
            have nextShorter : next.length < (operator :: right).length := by
              have := nextInRight.length_le
              simp only [List.length_cons]
              omega
            have nextCoherent : ∀ token ∈ next, token.Coherent := fun token member =>
              rightCoherent token (nextInRight.subset member)
            obtain ⟨tree, last, readTail, lastTail, demanded, lastSuffix⟩ :=
              (inductionHypothesis next.length nextShorter).2 next rfl nextTail nextCoherent
                least (.binary binary operator.span.start left rightTree) rest isEnd
            refine ⟨tree, last, ?_, lastTail, demanded,
              (lastSuffix.trans nextInRight).trans (List.suffix_cons _ _)⟩
            rw [readRight, Option.bind_some, readTail]
          · next notStronger =>
              refine ⟨left, operator :: right, rfl,
                .inr ⟨operator, right, rfl, isBinary, rightDerives⟩, ?_, List.suffix_refl _⟩
              simp only [demand, found]
              omega

/-- Climbing from precedence zero on reads a tree of a whole infix expression. -/
theorem exists_climb
    {tokens : List Token}
    (isInfix : Infix tokens)
    (coherent : ∀ token ∈ tokens, token.Coherent) :
    ∃ tree, climb 0 tokens = some (tree, []) := by
  obtain ⟨tree, left, read, leftTail, demanded, _⟩ :=
    (climb_reads tokens.length).1 tokens rfl isInfix coherent 0 [] (.inl rfl)
  have leftEmpty : left = [] := eq_nil_of_demand_eq_zero leftTail (Nat.le_zero.mp demanded)
  rw [List.append_nil, leftEmpty, List.append_nil] at read
  exact ⟨tree, read⟩

end Grammar
end ScriptLang
