import ScriptLang.Proofs.Grammar.Leaves
import ScriptLang.Proofs.Grammar.Planting

/-!
# Accepted expressions

Reading an expression checks that its parentheses match and that every operator
finds its operands among what has been read before the operator is applied.  It
does not check where the operands stand, so `a b +` is read as `a + b`.  The main
statement says what is missing: an accepted list of tokens is an infix expression
exactly when operands and binary operators alternate in it.
-/

namespace ScriptLang
namespace Grammar

open Source (Position)

/-- Whether operands and binary operators alternate, where a term is what comes next or has
just ended. -/
def Alternates : (termNext : Bool) -> List Token -> Prop
  | true, [] => False
  | false, [] => True
  | true, token :: rest =>
      (IsOperand token ∧ Alternates false rest) ∨
        ((token.kind = .openParenthesis ∨ IsPrefix token) ∧ Alternates true rest)
  | false, token :: rest =>
      (IsBinary token ∧ Alternates true rest) ∨
        (token.kind = .closeParenthesis ∧ Alternates false rest)

/-- Whether the parentheses of a list match, with a number of them open already. -/
def Balances : Nat -> List Token -> Prop
  | depth, [] => depth = 0
  | depth, token :: rest =>
      if token.kind = .openParenthesis then Balances (depth + 1) rest
      else if token.kind = .closeParenthesis then
        ∃ outer, depth = outer + 1 ∧ Balances outer rest
      else Balances depth rest

theorem not_parenthesis_of_isOperand
    {token : Token}
    (isOperand : IsOperand token) :
    token.kind ≠ .openParenthesis ∧ token.kind ≠ .closeParenthesis := by
  rcases isOperand with kind | kind <;> simp [kind]

theorem not_parenthesis_of_isOperator
    {kind : TokenKind}
    (isOperator : kind.isOperator = true) :
    kind ≠ .openParenthesis ∧ kind ≠ .closeParenthesis := by
  constructor <;> rintro rfl <;> cases isOperator

theorem isOperator_of_isBinary
    {token : Token}
    (isBinary : IsBinary token) :
    token.kind.isOperator = true := by
  obtain ⟨precedence, bound⟩ := (TokenKind.binaryOperator?_isSome_iff _).mp isBinary
  simp [TokenKind.isOperator, bound]

theorem isOperator_of_isPrefix
    {token : Token}
    (isPrefix : IsPrefix token) :
    token.kind.isOperator = true := by
  obtain ⟨precedence, bound⟩ := (TokenKind.unaryOperator?_isSome_iff _).mp isPrefix
  simp [TokenKind.isOperator, bound]

theorem balances_of_not_parenthesis
    {depth : Nat} {token : Token} {rest : List Token}
    (notParenthesis : token.kind ≠ .openParenthesis ∧ token.kind ≠ .closeParenthesis) :
    Balances depth (token :: rest) ↔ Balances depth rest := by
  rw [Balances, if_neg notParenthesis.1, if_neg notParenthesis.2]

/-- In an infix expression operands and binary operators alternate. -/
theorem alternates_of_derives
    {category : Category} {tokens rest : List Token}
    (derives : Derives category tokens)
    (restAlternates : Alternates false rest) :
    Alternates true (tokens ++ rest) := by
  induction derives generalizing rest with
  | term _ inductionHypothesis => exact inductionHypothesis restAlternates
  | binary _ isBinary _ leftHypothesis rightHypothesis =>
      rw [List.append_assoc]
      exact leftHypothesis (.inl ⟨isBinary, rightHypothesis restAlternates⟩)
  | operand isOperand => exact .inl ⟨isOperand, restAlternates⟩
  | parenthesised isOpen _ isClose inductionHypothesis =>
      refine .inr ⟨.inl isOpen, ?_⟩
      rw [List.append_eq, List.append_assoc]
      exact inductionHypothesis (.inr ⟨isClose, restAlternates⟩)
  | application isPrefix _ inductionHypothesis =>
      exact .inr ⟨.inr isPrefix, inductionHypothesis restAlternates⟩

theorem alternates_of_isInfix
    {tokens : List Token}
    (isInfix : Infix tokens) :
    Alternates true tokens := by
  have alternates := alternates_of_derives isInfix (show Alternates false [] from trivial)
  rw [List.append_nil] at alternates
  exact alternates

/-- A part of the given category at the start of a list in which tokens alternate and
parentheses match, and what stands behind it. -/
def StartsWith (category : Category) (depth : Nat) (tokens rest : List Token) : Prop :=
  ∃ part, tokens = part ++ rest ∧ Derives category part ∧ part ≠ [] ∧
    Alternates false rest ∧ Balances depth rest

/-- Tokens start with a term, and with an expression that goes on to the end of the tokens or to a
closing parenthesis. -/
def StartsInfix (depth : Nat) (tokens : List Token) : Prop :=
  (∃ rest, StartsWith .term depth tokens rest) ∧
    (∃ rest, StartsWith .expression depth tokens rest ∧
      (rest = [] ∨
        ∃ closing others, rest = closing :: others ∧ closing.kind = .closeParenthesis))

/-- An opening parenthesis in front of an expression makes a term of it. -/
theorem startsWithTerm_of_isOpen
    {depth : Nat} {opening : Token} {others : List Token}
    (isOpen : opening.kind = .openParenthesis)
    (starts : StartsInfix (depth + 1) others) :
    ∃ rest, StartsWith .term depth (opening :: others) rest := by
  obtain ⟨_, rest, ⟨inner, rfl, derives, _, restAlternates, restBalances⟩, ending⟩ := starts
  rcases ending with rfl | ⟨closing, behind, rfl, isClose⟩
  · exact absurd restBalances (Nat.succ_ne_zero depth)
  · have notOpen : closing.kind ≠ .openParenthesis := by simp [isClose]
    rw [Balances, if_neg notOpen, if_pos isClose] at restBalances
    obtain ⟨outer, same, behindBalances⟩ := restBalances
    cases same
    have behindAlternates : Alternates false behind := by
      rcases restAlternates with ⟨isBinary, _⟩ | ⟨_, behindAlternates⟩
      · have operator := isOperator_of_isBinary isBinary
        exact absurd isClose (not_parenthesis_of_isOperator operator).2
      · exact behindAlternates
    exact ⟨behind, opening :: (inner ++ [closing]), by simp,
      .parenthesised isOpen derives isClose, by simp, behindAlternates, behindBalances⟩

section

variable {depth : Nat} {tokens : List Token}

theorem startsWithTerm_of_shorter
    (shorter : ∀ depth others, others.length < tokens.length ->
      Alternates true others -> Balances depth others -> StartsInfix depth others)
    (alternates : Alternates true tokens)
    (balances : Balances depth tokens) :
    ∃ rest, StartsWith .term depth tokens rest := by
  cases tokens with
  | nil => exact absurd alternates id
  | cons token others =>
      rcases alternates with ⟨isOperand, alternates⟩ | ⟨isOpen | isPrefix, alternates⟩
      · rw [balances_of_not_parenthesis (not_parenthesis_of_isOperand isOperand)] at balances
        exact ⟨others, [token], rfl, .operand isOperand, by simp, alternates, balances⟩
      · rw [Balances, if_pos isOpen] at balances
        exact startsWithTerm_of_isOpen isOpen
          (shorter (depth + 1) others (by simp) alternates balances)
      · have operator := isOperator_of_isPrefix isPrefix
        rw [balances_of_not_parenthesis (not_parenthesis_of_isOperator operator)] at balances
        obtain ⟨⟨rest, operand, rfl, derives, _, restAlternates, restBalances⟩, _⟩ :=
          shorter depth others (by simp) alternates balances
        exact ⟨rest, token :: operand, rfl, .application isPrefix derives, by simp,
          restAlternates, restBalances⟩

/-- A term goes on with a binary operator and an expression, or ends. -/
theorem startsInfix_of_term
    {rest : List Token}
    (shorter : ∀ depth others, others.length < tokens.length ->
      Alternates true others -> Balances depth others -> StartsInfix depth others)
    (startsWithTerm : StartsWith .term depth tokens rest) :
    StartsInfix depth tokens := by
  refine ⟨⟨rest, startsWithTerm⟩, ?_⟩
  obtain ⟨term, rfl, derives, nonempty, restAlternates, restBalances⟩ := startsWithTerm
  cases rest with
  | nil =>
      exact ⟨[], ⟨term, rfl, .term derives, nonempty, restAlternates, restBalances⟩, .inl rfl⟩
  | cons operator others =>
      rcases restAlternates with ⟨isBinary, othersAlternates⟩ | ⟨isClose, othersAlternates⟩
      · have isOperator := isOperator_of_isBinary isBinary
        have othersShorter : others.length < (term ++ operator :: others).length := by
          rw [List.length_append, List.length_cons]
          omega
        rw [balances_of_not_parenthesis (not_parenthesis_of_isOperator isOperator)]
          at restBalances
        obtain ⟨_, last, ⟨right, rfl, rightDerives, _, lastAlternates, lastBalances⟩, ending⟩ :=
          shorter depth others othersShorter othersAlternates restBalances
        exact ⟨last, ⟨term ++ operator :: right, by simp,
          .binary derives isBinary rightDerives, by simp, lastAlternates, lastBalances⟩,
          ending⟩
      · exact ⟨operator :: others,
          ⟨term, rfl, .term derives, nonempty, .inr ⟨isClose, othersAlternates⟩, restBalances⟩,
          .inr ⟨operator, others, rfl, isClose⟩⟩

end

theorem startsInfix_of_alternates (count : Nat) :
    ∀ (depth : Nat) (tokens : List Token), tokens.length = count ->
      Alternates true tokens -> Balances depth tokens -> StartsInfix depth tokens := by
  induction count using Nat.strongRecOn with
  | ind count inductionHypothesis =>
      rintro depth tokens rfl alternates balances
      have shorter : ∀ depth others, others.length < tokens.length ->
          Alternates true others -> Balances depth others -> StartsInfix depth others :=
        fun depth others isShorter => inductionHypothesis others.length isShorter depth others rfl
      obtain ⟨rest, startsWithTerm⟩ := startsWithTerm_of_shorter shorter alternates balances
      exact startsInfix_of_term shorter startsWithTerm

/-- Tokens that alternate between matching parentheses are an infix expression. -/
theorem derives_of_alternates
    {tokens : List Token}
    (alternates : Alternates true tokens)
    (balances : Balances 0 tokens) :
    Infix tokens := by
  obtain ⟨_, rest, ⟨part, rfl, derives, _, _, restBalances⟩, ending⟩ :=
    startsInfix_of_alternates tokens.length 0 tokens rfl alternates balances
  rcases ending with rfl | ⟨closing, others, rfl, isClose⟩
  · rw [List.append_nil]
    exact derives
  · have notOpen : closing.kind ≠ .openParenthesis := by simp [isClose]
    rw [Balances, if_neg notOpen, if_pos isClose] at restBalances
    obtain ⟨outer, same, _⟩ := restBalances
    cases same

/-- The number of opening parentheses among waiting operators. -/
def openings (operators : List Token) : Nat :=
  operators.countP fun token => token.kind = .openParenthesis

theorem openings_cons_of_isOpen
    {token : Token}
    (operators : List Token)
    (isOpen : token.kind = .openParenthesis) :
    openings (token :: operators) = openings operators + 1 := by
  simp [openings, isOpen]

theorem openings_cons_of_not_isOpen
    {token : Token}
    (operators : List Token)
    (notOpen : token.kind ≠ .openParenthesis) :
    openings (token :: operators) = openings operators := by
  simp [openings, notOpen]

namespace Forest

variable {limit : Nat}

/-- Settling takes no parenthesis away. -/
theorem openings_of_settle
    {precedence : Nat} {operators : List Token} {trees : List Tree} {forest : Forest}
    (settled : settle limit precedence operators trees = .ok forest) :
    openings forest.operators = openings operators := by
  refine settle_induction (motive := fun forest => openings forest.operators = openings operators)
    settled rfl ?_
  intro top waiting trees combined notOpen _ kept
  rw [← kept, openings_cons_of_not_isOpen waiting notOpen]

/-- Reading a token keeps account of the parentheses that are open. -/
theorem balances_of_readToken
    {token : Token} {forest next : Forest} {rest : List Token}
    (read : readToken limit token forest = .ok next)
    (balances : Balances (openings next.operators) rest) :
    Balances (openings forest.operators) (token :: rest) := by
  cases step_of_readToken read with
  | operand isOperand _ =>
      rw [balances_of_not_parenthesis (not_parenthesis_of_isOperand isOperand)]
      exact balances
  | opened isOpen =>
      rw [openings_cons_of_isOpen _ isOpen] at balances
      rw [Balances, if_pos isOpen]
      exact balances
  | closed isClose wasOpen settles =>
      have notOpen : token.kind ≠ .openParenthesis := by simp [isClose]
      have kept := openings_of_settle settles
      rw [openings_cons_of_isOpen _ wasOpen] at kept
      rw [Balances, if_neg notOpen, if_pos isClose]
      exact ⟨_, kept.symm, balances⟩
  | binaryOperator isOperator _ _ settles =>
      have notParenthesis := not_parenthesis_of_isOperator isOperator
      rw [openings_cons_of_not_isOpen _ notParenthesis.1, openings_of_settle settles] at balances
      rw [balances_of_not_parenthesis notParenthesis]
      exact balances
  | prefixOperator isOperator _ _ =>
      have notParenthesis := not_parenthesis_of_isOperator isOperator
      rw [openings_cons_of_not_isOpen _ notParenthesis.1] at balances
      rw [balances_of_not_parenthesis notParenthesis]
      exact balances

theorem balances_of_readTokens
    {tokens : List Token} {forest last : Forest}
    (read : readTokens limit tokens forest = .ok last)
    (closed : openings last.operators = 0) :
    Balances (openings forest.operators) tokens := by
  induction tokens generalizing forest with
  | nil =>
      cases read
      exact closed
  | cons token rest inductionHypothesis =>
      obtain ⟨next, readFirst, readRest⟩ := (bind_eq_ok_iff _ _ _).mp read
      exact balances_of_readToken readFirst (inductionHypothesis readRest)

/-- The parentheses of tokens that are read to their end match. -/
theorem balances_of_readAll
    {tokens : List Token} {trees : List Tree}
    (read : readAll limit tokens = .ok trees) :
    Balances 0 tokens := by
  obtain ⟨last, reading, settles⟩ := (readAll_eq_ok_iff ..).mp read
  exact balances_of_readTokens reading (openings_of_settle settles).symm

end Forest

/-- The parentheses of an expression that is read match. -/
theorem balances_of_parseExpression
    {tokens : List Token} {position : Position} {program left : Program} {id : NodeId}
    (accepted : parseExpression tokens position program = .ok id left) :
    Balances 0 tokens := by
  obtain ⟨tree, parsed, _⟩ := parse_of_parseExpression accepted
  unfold Forest.parse at parsed
  split at parsed
  · cases parsed
  · obtain ⟨trees, read, _⟩ := (bind_eq_ok_iff _ _ _).mp parsed
    exact Forest.balances_of_readAll read

/-- An accepted list of tokens is an infix expression exactly when operands and binary operators
alternate in it. -/
theorem infix_iff_alternates
    {tokens : List Token} {position : Position} {program left : Program} {id : NodeId}
    (accepted : parseExpression tokens position program = .ok id left) :
    Infix tokens ↔ Alternates true tokens := by
  constructor
  · exact alternates_of_isInfix
  · intro alternates
    exact derives_of_alternates alternates (balances_of_parseExpression accepted)

/-- The tokens of `a + b` are accepted, and they alternate. -/
theorem infix_sum :
    ∃ tokens id left,
      parseExpression tokens (.start "script") (.empty (.start "script")) = .ok id left ∧
        Infix tokens := by
  let place : Position := .start "script"
  let tokens : List Token := [.ofName "a" place, .ofSymbol .plus "+" place, .ofName "b" place]
  have accepted : ∃ id left, parseExpression tokens place (.empty place) = .ok id left :=
    ⟨_, _, rfl⟩
  obtain ⟨id, left, accepted⟩ := accepted
  refine ⟨tokens, id, left, accepted, ?_⟩
  refine (infix_iff_alternates accepted).mpr ?_
  exact .inl ⟨.inl rfl, .inl ⟨rfl, .inl ⟨.inl rfl, trivial⟩⟩⟩

/-- An operator behind its operands is accepted. -/
theorem not_infix_of_postfix :
    ∃ tokens : List Token, tokens ≠ [] ∧ (∀ token ∈ tokens, token.Coherent) ∧
      (∃ id left,
        parseExpression tokens (.start "script") (.empty (.start "script")) = .ok id left) ∧
      ¬ Infix tokens := by
  let place : Position := .start "script"
  refine ⟨[.ofName "a" place, .ofName "b" place, .ofSymbol .plus "+" place], by simp, ?_,
    ⟨_, _, rfl⟩, ?_⟩
  · simp only [List.forall_mem_cons]
    exact ⟨Token.coherent_ofName _ _, Token.coherent_ofName _ _,
      Token.coherent_ofSymbol _ _ (by decide), by simp⟩
  · intro isInfix
    have alternates := alternates_of_isInfix isInfix
    simp [Alternates, IsOperand, IsBinary, IsPrefix, Token.ofName, TokenKind.binaryOperator?,
      TokenKind.unaryOperator?] at alternates

end Grammar
end ScriptLang
