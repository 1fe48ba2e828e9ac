import ScriptLang.Proofs.Grammar.Climbing
import ScriptLang.Proofs.Grammar.Leaves
import ScriptLang.Proofs.Grammar.Nesting
import ScriptLang.Proofs.Grammar.Planting

/-!
# Precedences

The reading of expressions with operators and operands that wait finds the same
tree as climbing precedences.  The operators that wait are the calls of the
climbing reader that are not done yet: an operator waits as long as the call for
its right operand goes on, and the precedence of the last one is the precedence
at which that call reads.  The waiting operators need not rise in precedence; all
that matters is that the last one is no stronger than the current call.

An operand is done only when the next token settles it, so the two readers are
compared after the next token has been given the operators that it demands.
-/

namespace ScriptLang
namespace Grammar

open Source (Position)

namespace Forest

/-- Let the waiting operators of a forest take their operands. -/
def settled (limit precedence : Nat) (forest : Forest) : Except Fault Forest :=
  settle limit precedence forest.operators forest.trees

end Forest

open Forest (settled settle combine)

/-- A coherent operator carries the binding of its kind. -/
theorem bindingOf_of_coherent
    {token : Token} {binding : Binding}
    (bound : token.kind.binding? = some binding)
    (coherent : token.Coherent) :
    bindingOf token = .ok binding := by
  unfold Token.Coherent at coherent
  unfold bindingOf
  cases kind : token.kind <;>
    simp_all [TokenKind.binding?, Payload.binding?]

theorem isOperator_of_binding?
    {kind : TokenKind} {binding : Binding}
    (bound : kind.binding? = some binding) :
    kind.isOperator = true := by
  simp [TokenKind.isOperator, bound]

theorem not_openParenthesis_of_binding?
    {kind : TokenKind} {binding : Binding}
    (bound : kind.binding? = some binding) :
    kind ≠ .openParenthesis := by
  rintro rfl
  cases bound

/-- A binary operator waits behind what its precedence settles. -/
theorem readToken_of_binaryOf?
    (limit : Nat) {token : Token} {operator : BinaryOperator} {precedence : Nat}
    (forest : Forest)
    (found : binaryOf? token = some (operator, precedence))
    (coherent : token.Coherent) :
    Forest.readToken limit token forest =
      settled limit precedence forest >>= fun before =>
        .ok ⟨token :: before.operators, before.trees⟩ := by
  obtain ⟨_, bound⟩ := binaryOf?_eq_some found
  rw [Forest.readToken_of_isOperator limit forest (isOperator_of_binding? bound)]
  simp only [Forest.readOperator, bindingOf_of_coherent bound coherent, ok_bind]
  rfl

theorem readToken_of_unaryOf?
    (limit : Nat) {token : Token} {operator : UnaryOperator} {precedence : Nat}
    (forest : Forest)
    (found : unaryOf? token = some (operator, precedence))
    (coherent : token.Coherent) :
    Forest.readToken limit token forest = .ok ⟨token :: forest.operators, forest.trees⟩ := by
  obtain ⟨_, bound⟩ := unaryOf?_eq_some found
  rw [Forest.readToken_of_isOperator limit forest (isOperator_of_binding? bound)]
  simp only [Forest.readOperator, bindingOf_of_coherent bound coherent, ok_bind]
  rfl

theorem combine_of_binaryOf?
    {limit : Nat} {token : Token} {operator : BinaryOperator} {precedence : Nat}
    {left right : Tree}
    (others : List Tree)
    (found : binaryOf? token = some (operator, precedence))
    (coherent : token.Coherent)
    (inLimit : (Tree.binary operator token.span.start left right).nesting ≤ limit) :
    combine limit token (right :: left :: others) =
      .ok (.binary operator token.span.start left right :: others) := by
  obtain ⟨isBinary, bound⟩ := binaryOf?_eq_some found
  have notBeyond := Nat.not_lt.mpr inLimit
  simp only [combine, Forest.applyTo, bindingOf_of_coherent bound coherent, ok_bind, isBinary,
    pure_eq_ok, gt_iff_lt, if_neg notBeyond]

theorem combine_of_unaryOf?
    {limit : Nat} {token : Token} {operator : UnaryOperator} {precedence : Nat}
    {operand : Tree}
    (others : List Tree)
    (found : unaryOf? token = some (operator, precedence))
    (coherent : token.Coherent)
    (inLimit : (Tree.unary operator token.span.start operand).nesting ≤ limit) :
    combine limit token (operand :: others) =
      .ok (.unary operator token.span.start operand :: others) := by
  obtain ⟨isUnary, bound⟩ := unaryOf?_eq_some found
  have notBeyond := Nat.not_lt.mpr inLimit
  simp only [combine, Forest.applyTo, bindingOf_of_coherent bound coherent, ok_bind, isUnary,
    pure_eq_ok, gt_iff_lt, if_neg notBeyond]

/-- Waiting operators that stay where they are when an operator stronger than `least`
comes. -/
def Guarded (least : Nat) (operators : List Token) : Prop :=
  ∀ limit precedence trees, least < precedence ->
    settle limit precedence operators trees = .ok ⟨operators, trees⟩

theorem guarded_nil (least : Nat) : Guarded least [] :=
  fun _ _ _ _ => rfl

theorem guarded_of_openParenthesis
    (least : Nat) {top : Token}
    (operators : List Token)
    (isOpen : top.kind = .openParenthesis) :
    Guarded least (top :: operators) :=
  fun _ _ _ _ => Forest.settle_of_openParenthesis _ _ _ _ isOpen

theorem guarded_of_bindingOf
    {top : Token} {binding : Binding}
    (operators : List Token)
    (bound : bindingOf top = .ok binding) :
    Guarded binding.precedence (top :: operators) :=
  fun _ _ _ stronger => Forest.settle_of_lt _ _ _ bound stronger

/-- What a term can be. -/
theorem climbTerm_eq_some
    {tokens rest : List Token} {tree : Tree}
    (read : climbTerm tokens = some (tree, rest)) :
    (∃ token, IsOperand token ∧ Forest.leafOf token = .ok tree ∧ tokens = token :: rest) ∨
    (∃ opening inner closing,
      opening.kind = .openParenthesis ∧ closing.kind = .closeParenthesis ∧
      climb 0 inner = some (tree, closing :: rest) ∧ tokens = opening :: inner) ∨
    (∃ token operator precedence inner operand,
      unaryOf? token = some (operator, precedence) ∧
      climb precedence inner = some (operand, rest) ∧
      tokens = token :: inner ∧ tree = .unary operator token.span.start operand) := by
  cases tokens with
  | nil => simp [climbTerm, readTerm] at read
  | cons token inner =>
      by_cases isOperand : IsOperand token
      · cases isLeaf : Forest.leafOf token with
        | error fault =>
            unfold climbTerm readTerm at read
            rcases isOperand with kind | kind <;> simp [kind, isLeaf] at read
        | ok leaf =>
            rw [climbTerm_of_operand inner isOperand isLeaf] at read
            cases read
            exact .inl ⟨token, isOperand, isLeaf, rfl⟩
      · by_cases isOpen : token.kind = .openParenthesis
        · rw [climbTerm_of_openParenthesis inner isOpen] at read
          split at read
          · next innerTree closing others readInner =>
              split at read
              · next isClose =>
                  cases read
                  exact .inr (.inl ⟨token, inner, closing, isOpen, isClose, readInner, rfl⟩)
              · cases read
          · cases read
        · cases found : unaryOf? token with
          | none =>
              unfold climbTerm readTerm at read
              unfold IsOperand at isOperand
              cases kind : token.kind <;> simp_all
          | some unary =>
              obtain ⟨operator, precedence⟩ := unary
              rw [climbTerm_of_unaryOf? inner found] at read
              cases readInner : climb precedence inner with
              | none => simp [readInner] at read
              | some last =>
                  obtain ⟨operand, others⟩ := last
                  rw [readInner] at read
                  cases read
                  exact .inr (.inr ⟨token, operator, precedence, inner, operand, found,
                    readInner, rfl, rfl⟩)

/-- Reading tokens and settling what waits for the next one leaves the same as putting a tree
on the forest and settling that. -/
def Settles (limit : Nat) (consumed rest : List Token) (tree : Tree) (forest : Forest) : Prop :=
  Forest.readTokens limit consumed forest >>= settled limit (demand rest) =
    settle limit (demand rest) forest.operators (tree :: forest.trees)

/-- What climbing reads from tokens settles on every forest that guards the precedence. -/
def ClimbSettles (tokens : List Token) : Prop :=
  ∀ least tree rest, climb least tokens = some (tree, rest) ->
    ∃ consumed, tokens = consumed ++ rest ∧ demand rest ≤ least ∧
      ∀ limit forest, tree.nesting ≤ limit -> Guarded least forest.operators ->
        Settles limit consumed rest tree forest

/-- What is read behind a tree settles wherever the tree does. -/
def TailSettles (tokens : List Token) : Prop :=
  ∀ least left tree rest, climbOn least left tokens = some (tree, rest) ->
    ∃ consumed, tokens = consumed ++ rest ∧ demand rest ≤ least ∧
      left.nesting ≤ tree.nesting ∧
      ∀ limit operators trees reached, tree.nesting ≤ limit -> Guarded least operators ->
        reached >>= settled limit (demand tokens) =
          settle limit (demand tokens) operators (left :: trees) ->
        (reached >>= Forest.readTokens limit consumed) >>= settled limit (demand rest) =
          settle limit (demand rest) operators (tree :: trees)

/-- An expression in parentheses settles as its tree on every forest. -/
theorem settles_of_parentheses
    {opening closing : Token} {consumed rest : List Token} {tree : Tree} {limit : Nat}
    (isOpen : opening.kind = .openParenthesis)
    (isClose : closing.kind = .closeParenthesis)
    (innerSettles : ∀ forest, Guarded 0 forest.operators ->
      Settles limit consumed (closing :: rest) tree forest)
    (forest : Forest) :
    Settles limit (opening :: (consumed ++ [closing])) rest tree forest := by
  have settles := innerSettles ⟨opening :: forest.operators, forest.trees⟩
    (guarded_of_openParenthesis 0 _ isOpen)
  have undemanding : demand (closing :: rest) = 0 :=
    demand_of_isEnd (.inr ⟨closing, rest, rfl, isClose⟩)
  unfold Settles at settles ⊢
  rw [undemanding, Forest.settle_of_openParenthesis _ _ _ _ isOpen] at settles
  have closed : Forest.readTokens limit consumed ⟨opening :: forest.operators, forest.trees⟩ >>=
      Forest.readTokens limit [closing] = .ok ⟨forest.operators, tree :: forest.trees⟩ := by
    obtain ⟨reached, readConsumed, settledReached⟩ := (bind_eq_ok_iff _ _ _).mp settles
    rw [readConsumed, ok_bind, Forest.readTokens_cons,
      Forest.readToken_of_closeParenthesis limit _ isClose]
    unfold settled at settledReached
    unfold Forest.close
    rw [settledReached]
    rfl
  rw [Forest.readTokens_cons, Forest.readToken_of_openParenthesis limit forest isOpen, ok_bind,
    Forest.readTokens_append, closed]
  rfl

/-- A prefix operator with what binds tighter settles as its application on every forest. -/
theorem settles_of_unary
    {token : Token} {operator : UnaryOperator} {precedence limit : Nat} {operand : Tree}
    {consumed rest : List Token}
    (found : unaryOf? token = some (operator, precedence))
    (coherent : token.Coherent)
    (demanded : demand rest ≤ precedence)
    (inLimit : (Tree.unary operator token.span.start operand).nesting ≤ limit)
    (innerSettles : ∀ forest, Guarded precedence forest.operators ->
      Settles limit consumed rest operand forest)
    (forest : Forest) :
    Settles limit (token :: consumed) rest (.unary operator token.span.start operand) forest := by
  have bound := (unaryOf?_eq_some found).2
  have carried := bindingOf_of_coherent bound coherent
  have settles := innerSettles ⟨token :: forest.operators, forest.trees⟩
    (guarded_of_bindingOf _ carried)
  unfold Settles at settles ⊢
  rw [Forest.readTokens_cons, readToken_of_unaryOf? limit forest found coherent, ok_bind,
    settles,
    Forest.settle_of_le limit _ _ (not_openParenthesis_of_binding? bound) carried demanded,
    combine_of_unaryOf? _ found coherent inLimit]
  rfl

/-- A term settles on every forest. -/
theorem climbTerm_settles
    {tokens rest : List Token} {tree : Tree}
    (inner : ∀ others, others.length < tokens.length ->
      (∀ token ∈ others, token.Coherent) -> ClimbSettles others)
    (coherent : ∀ token ∈ tokens, token.Coherent)
    (read : climbTerm tokens = some (tree, rest)) :
    ∃ consumed, tokens = consumed ++ rest ∧ consumed ≠ [] ∧
      ∀ limit forest, tree.nesting ≤ limit -> Settles limit consumed rest tree forest := by
  rcases climbTerm_eq_some read with
    ⟨token, isOperand, isLeaf, rfl⟩ |
    ⟨opening, others, closing, isOpen, isClose, readInner, rfl⟩ |
    ⟨token, operator, precedence, others, operand, found, readInner, rfl, rfl⟩
  · refine ⟨[token], rfl, by simp, ?_⟩
    intro limit forest _
    unfold Settles
    rw [Forest.readTokens_cons, Forest.readToken_of_operand limit forest isOperand isLeaf]
    rfl
  · obtain ⟨consumed, rfl, _, settles⟩ :=
      inner others (by simp) (fun token member => coherent token (List.mem_cons_of_mem _ member))
        0 tree _ readInner
    refine ⟨opening :: (consumed ++ [closing]), by simp, by simp, ?_⟩
    intro limit forest inLimit
    exact settles_of_parentheses isOpen isClose (fun other => settles limit other inLimit) forest
  · obtain ⟨consumed, rfl, demanded, settles⟩ :=
      inner others (by simp) (fun token member => coherent token (List.mem_cons_of_mem _ member))
        precedence operand rest readInner
    refine ⟨token :: consumed, rfl, by simp, ?_⟩
    intro limit forest inLimit
    have operandInLimit : operand.nesting ≤ limit := by
      rw [Tree.nesting_unary] at inLimit
      omega
    exact settles_of_unary found (coherent token (by simp)) demanded inLimit
      (fun other => settles limit other operandInLimit) forest

/-- What is left alone behind a tree leaves the tree as it is. -/
theorem tailSettles_of_stop
    {least : Nat} {left tree : Tree} {tokens rest : List Token}
    (demanded : demand tokens ≤ least)
    (stopped : some (left, tokens) = some (tree, rest)) :
    ∃ consumed, tokens = consumed ++ rest ∧ demand rest ≤ least ∧
      left.nesting ≤ tree.nesting ∧
      ∀ limit operators trees reached, tree.nesting ≤ limit -> Guarded least operators ->
        reached >>= settled limit (demand tokens) =
          settle limit (demand tokens) operators (left :: trees) ->
        (reached >>= Forest.readTokens limit consumed) >>= settled limit (demand rest) =
          settle limit (demand rest) operators (tree :: trees) := by
  cases stopped
  refine ⟨[], rfl, demanded, Nat.le_refl _, ?_⟩
  intro limit operators trees reached _ _ reachedSettles
  have unread : reached >>= Forest.readTokens limit [] = reached := by
    cases reached <;> rfl
  rw [unread, reachedSettles]

/-- An operator that is stronger than the current call, with its right operand, settles as the
tree that the operator makes. -/
theorem settles_of_stronger
    {least limit precedence : Nat} {token : Token} {operator : BinaryOperator}
    {left right : Tree} {operators consumed others rest : List Token} {trees : List Tree}
    {reached : Except Fault Forest}
    (found : binaryOf? token = some (operator, precedence))
    (coherent : token.Coherent)
    (stronger : least < precedence)
    (guarded : Guarded least operators)
    (demanded : demand others ≤ precedence)
    (inLimit : (Tree.binary operator token.span.start left right).nesting ≤ limit)
    (rightSettles : ∀ forest, Guarded precedence forest.operators ->
      Settles limit consumed others right forest)
    (reachedSettles : reached >>= settled limit (demand (token :: rest)) =
      settle limit (demand (token :: rest)) operators (left :: trees)) :
    (reached >>= Forest.readTokens limit (token :: consumed)) >>= settled limit (demand others) =
      settle limit (demand others) operators
        (.binary operator token.span.start left right :: trees) := by
  have bound := (binaryOf?_eq_some found).2
  have carried := bindingOf_of_coherent bound coherent
  have demandOfToken : demand (token :: rest) = precedence := by simp [demand, found]
  rw [demandOfToken, guarded limit precedence _ stronger] at reachedSettles
  have pushed : reached >>= Forest.readToken limit token =
      .ok ⟨token :: operators, left :: trees⟩ := by
    obtain ⟨forest, rfl, settledForest⟩ := (bind_eq_ok_iff _ _ _).mp reachedSettles
    rw [ok_bind, readToken_of_binaryOf? limit forest found coherent, settledForest]
    rfl
  have readAll : reached >>= Forest.readTokens limit (token :: consumed) =
      Forest.readTokens limit consumed ⟨token :: operators, left :: trees⟩ := by
    obtain ⟨forest, rfl, pushedForest⟩ := (bind_eq_ok_iff _ _ _).mp pushed
    rw [ok_bind, Forest.readTokens_cons, pushedForest]
    rfl
  have settles := rightSettles ⟨token :: operators, left :: trees⟩
    (guarded_of_bindingOf operators carried)
  unfold Settles at settles
  rw [readAll, settles,
    Forest.settle_of_le limit _ _ (not_openParenthesis_of_binding? bound) carried demanded,
    combine_of_binaryOf? _ found coherent inLimit]
  rfl

section

variable {tokens : List Token}

/-- An expression is a term with what stands behind it. -/
theorem climbSettles_of_shorter
    (shorter : ∀ others : List Token, others.length < tokens.length ->
      (∀ token ∈ others, token.Coherent) -> ClimbSettles others ∧ TailSettles others)
    (coherent : ∀ token ∈ tokens, token.Coherent) :
    ClimbSettles tokens := by
  intro least tree rest read
  rw [climb_eq] at read
  obtain ⟨⟨operand, left⟩, readTerm, readTail⟩ := Option.bind_eq_some_iff.mp read
  obtain ⟨first, rfl, firstNonempty, firstSettles⟩ :=
    climbTerm_settles (fun others isShorter othersCoherent =>
      (shorter others isShorter othersCoherent).1) coherent readTerm
  have leftShorter : left.length < (first ++ left).length := by
    have := List.length_pos_iff.mpr firstNonempty
    simp only [List.length_append]
    omega
  obtain ⟨second, rfl, demanded, nestingLe, tailSettles⟩ :=
    (shorter left leftShorter fun token member =>
      coherent token (List.mem_append_right _ member)).2 least operand tree rest readTail
  refine ⟨first ++ second, by simp, demanded, ?_⟩
  intro limit forest inLimit guarded
  unfold Settles
  rw [Forest.readTokens_append]
  exact tailSettles limit forest.operators forest.trees _ inLimit guarded
    (firstSettles limit forest (Nat.le_trans nestingLe inLimit))

/-- Behind a tree stands nothing that is read, or an operator with its right operand and what
stands behind these. -/
theorem tailSettles_of_shorter
    (shorter : ∀ others : List Token, others.length < tokens.length ->
      (∀ token ∈ others, token.Coherent) -> ClimbSettles others ∧ TailSettles others)
    (coherent : ∀ token ∈ tokens, token.Coherent) :
    TailSettles tokens := by
  intro least left tree rest read
  cases tokens with
  | nil =>
      rw [climbOn_nil] at read
      exact tailSettles_of_stop (Nat.zero_le _) read
  | cons token others =>
      rw [climbOn_cons] at read
      cases found : binaryOf? token with
      | none =>
          rw [found] at read
          exact tailSettles_of_stop (by simp [demand, found]) read
      | some binary =>
          obtain ⟨operator, precedence⟩ := binary
          rw [found] at read
          dsimp only at read
          by_cases stronger : least < precedence
          · rw [if_pos stronger] at read
            obtain ⟨⟨right, next⟩, readRight, readTail⟩ := Option.bind_eq_some_iff.mp read
            obtain ⟨first, rfl, firstDemanded, rightSettles⟩ :=
              (shorter others (by simp) fun token member =>
                coherent token (List.mem_cons_of_mem _ member)).1 _ _ _ readRight
            have nextShorter : next.length < (token :: (first ++ next)).length := by
              rw [List.length_cons, List.length_append]
              omega
            obtain ⟨second, rfl, demanded, nestingLe, tailSettles⟩ :=
              (shorter next nextShorter fun token member =>
                coherent token (by simp [member])).2 _ _ _ _ readTail
            refine ⟨token :: (first ++ second), by simp, demanded, ?_, ?_⟩
            · simp only [Tree.nesting_binary] at nestingLe
              omega
            · intro limit operators trees reached inLimit guarded reachedSettles
              have binaryInLimit := Nat.le_trans nestingLe inLimit
              have rightInLimit : right.nesting ≤ limit := by
                simp only [Tree.nesting_binary] at binaryInLimit
                omega
              have firstRead := settles_of_stronger found (coherent token (by simp))
                stronger guarded firstDemanded binaryInLimit
                (fun forest => rightSettles limit forest rightInLimit) reachedSettles
              have split : reached >>= Forest.readTokens limit (token :: (first ++ second)) =
                  (reached >>= Forest.readTokens limit (token :: first)) >>=
                    Forest.readTokens limit second := by
                cases reached with
                | error fault => rfl
                | ok forest =>
                    simp only [ok_bind]
                    rw [← List.cons_append, Forest.readTokens_append]
              rw [split]
              exact tailSettles limit operators trees _ inLimit guarded firstRead
          · rw [if_neg stronger] at read
            refine tailSettles_of_stop ?_ read
            simp only [demand, found]
            omega

end

/-- The two readers agree on expressions and on what stands behind a tree. -/
theorem climb_settles (count : Nat) :
    ∀ tokens : List Token, tokens.length = count -> (∀ token ∈ tokens, token.Coherent) ->
      ClimbSettles tokens ∧ TailSettles tokens := by
  induction count using Nat.strongRecOn with
  | ind count inductionHypothesis =>
      rintro tokens rfl coherent
      have shorter : ∀ others : List Token, others.length < tokens.length ->
          (∀ token ∈ others, token.Coherent) -> ClimbSettles others ∧ TailSettles others :=
        fun others isShorter => inductionHypothesis others.length isShorter others rfl
      exact ⟨climbSettles_of_shorter shorter coherent, tailSettles_of_shorter shorter coherent⟩

/-- Within its own nesting, the tree that is found by climbing is the one that is left. -/
theorem readAll_of_climb
    {tokens : List Token} {tree : Tree} {limit : Nat}
    (coherent : ∀ token ∈ tokens, token.Coherent)
    (read : climb 0 tokens = some (tree, []))
    (inLimit : tree.nesting ≤ limit) :
    Forest.readAll limit tokens = .ok [tree] := by
  obtain ⟨consumed, all, _, settles⟩ :=
    (climb_settles tokens.length tokens rfl coherent).1 0 tree [] read
  have allConsumed : consumed = tokens := by simp [all]
  have settlesEmpty := settles limit Forest.empty inLimit (guarded_nil 0)
  rw [allConsumed] at settlesEmpty
  unfold Settles at settlesEmpty
  obtain ⟨last, reading, settling⟩ := (bind_eq_ok_iff _ _ _).mp settlesEmpty
  unfold Forest.readAll Forest.finish
  rw [reading, ok_bind]
  unfold settled at settling
  rw [demand_nil] at settling
  rw [settling]
  rfl

theorem isEmpty_eq_false
    {tokens : List Token}
    (isInfix : Infix tokens) :
    tokens.isEmpty = false := by
  obtain ⟨term, tail, rfl, derives, _⟩ := exists_term_tail isInfix
  cases derives <;> simp

/-- Within the greatest depth, the tree that is found by climbing is put behind the program. -/
theorem parseExpression_of_climb
    {tokens : List Token} {tree : Tree}
    (isInfix : Infix tokens)
    (coherent : ∀ token ∈ tokens, token.Coherent)
    (read : climb 0 tokens = some (tree, []))
    (inLimit : tree.nesting ≤ greatestDepth)
    (position : Position) (program : Program) :
    parseExpression tokens position program =
      .ok (program.size + tree.expressionDescendants)
        (program.extend (tree.expressionLayout Tree.untagged program.size none)) := by
  have mirrors := parseExpression_mirrors program tokens position
  have reading := readAll_of_climb coherent read inLimit
  have every := Forest.readAll_every (carries_of_coherent coherent) reading tree (by simp)
  unfold Forest.parse at mirrors
  rw [isEmpty_eq_false isInfix] at mirrors
  simp only [Bool.false_eq_true, if_false, reading, ok_bind] at mirrors
  simp only [Forest.single, isExpression_of_every every, if_true] at mirrors
  exact mirrors

/-- Beyond the greatest depth, the tokens are refused. -/
theorem parseExpression_of_too_deep
    {tokens : List Token} {tree : Tree}
    (isInfix : Infix tokens)
    (coherent : ∀ token ∈ tokens, token.Coherent)
    (read : climb 0 tokens = some (tree, []))
    (beyond : greatestDepth < tree.nesting)
    (position : Position) (program : Program) :
    ∃ place left, parseExpression tokens position program =
      .error (.ofSyntax .nestedTooDeeply place) left := by
  have mirrors := parseExpression_mirrors program tokens position
  have unlimited := readAll_of_climb coherent read (Nat.le_refl tree.nesting)
  obtain ⟨_, _, refused⟩ :=
    Forest.readAll_cuts greatestDepth tree.nesting tokens [tree] unlimited
  obtain ⟨place, failed⟩ := refused (Nat.zero_le _) (by simpa using beyond)
  unfold Forest.parse at mirrors
  rw [isEmpty_eq_false isInfix] at mirrors
  simp only [Bool.false_eq_true, if_false, failed, error_bind] at mirrors
  obtain ⟨trees, failure⟩ := mirrors
  exact ⟨place, _, failure⟩

/-- Reading an infix expression gives the tree that is found by climbing precedences, with the
nodes of the tree behind the program.  It fails exactly if that tree is nested too deeply, and
is refused for that. -/
theorem parseExpression_eq_climb
    {tokens : List Token}
    (isInfix : Infix tokens)
    (coherent : ∀ token ∈ tokens, token.Coherent)
    (position : Position)
    (program : Program) :
    ∃ tree, climb 0 tokens = some (tree, []) ∧
      (tree.nesting ≤ greatestDepth ->
        parseExpression tokens position program =
          .ok (program.size + tree.expressionDescendants)
            (program.extend (tree.expressionLayout Tree.untagged program.size none))) ∧
      ((∃ fault left, parseExpression tokens position program = .error fault left) ↔
        greatestDepth < tree.nesting) ∧
      (∀ fault left, parseExpression tokens position program = .error fault left ->
        ∃ place, fault = .ofSyntax .nestedTooDeeply place) := by
  obtain ⟨tree, read⟩ := exists_climb isInfix coherent
  have within := fun inLimit =>
    parseExpression_of_climb isInfix coherent read inLimit position program
  have tooDeep := fun beyond =>
    parseExpression_of_too_deep isInfix coherent read beyond position program
  refine ⟨tree, read, within, ⟨?_, ?_⟩, ?_⟩
  · rintro ⟨fault, left, failure⟩
    refine Nat.lt_of_not_le fun inLimit => ?_
    rw [within inLimit] at failure
    cases failure
  · intro beyond
    obtain ⟨place, left, failure⟩ := tooDeep beyond
    exact ⟨_, left, failure⟩
  · intro fault left failure
    rcases Nat.lt_or_ge greatestDepth tree.nesting with beyond | inLimit
    · obtain ⟨place, other, refused⟩ := tooDeep beyond
      rw [refused] at failure
      cases failure
      exact ⟨place, rfl⟩
    · rw [within inLimit] at failure
      cases failure

/-- The tokens of `a * !b + c`, all at one place. -/
def swallowingTokens (place : Position) : List Token :=
  [.ofName "a" place, .ofSymbol .asterisk "*" place, .ofSymbol .not "!" place,
    .ofName "b" place, .ofSymbol .plus "+" place, .ofName "c" place]

/-- The tree of `a * (!(b + c))`. -/
def swallowingTree (place : Position) : Tree :=
  .binary .multiply place (.leaf (.identifier "a") place)
    (.unary .logicalNegation place
      (.binary .add place (.leaf (.identifier "b") place) (.leaf (.identifier "c") place)))

theorem infix_swallowingTokens (place : Position) : Infix (swallowingTokens place) := by
  have times : IsBinary (.ofSymbol .asterisk "*" place) := rfl
  have not : IsPrefix (.ofSymbol .not "!" place) := rfl
  have plus : IsBinary (.ofSymbol .plus "+" place) := rfl
  have left : Derives .term [.ofName "b" place] := .operand (.inl rfl)
  have right : Derives .expression [.ofName "c" place] := .term (.operand (.inl rfl))
  have sum := Derives.binary (.application not left) plus right
  exact .binary (.operand (.inl rfl)) times sum

theorem climb_swallowingTokens (place : Position) :
    climb 0 (swallowingTokens place) = some (swallowingTree place, []) := by
  have isTimes : binaryOf? (.ofSymbol .asterisk "*" place) = some (.multiply, 5) := rfl
  have isNot : unaryOf? (.ofSymbol .not "!" place) = some (.logicalNegation, 2) := rfl
  have isPlus : binaryOf? (.ofSymbol .plus "+" place) = some (.add, 4) := rfl
  have last : climb 4 [.ofName "c" place] = some (.leaf (.identifier "c") place, []) := by
    rw [climb_eq, climbTerm_of_operand _ (.inl rfl) rfl, Option.bind_some, climbOn_nil]
    rfl
  have sum : climb 2 [.ofName "b" place, .ofSymbol .plus "+" place, .ofName "c" place] =
      some (.binary .add place (.leaf (.identifier "b") place)
        (.leaf (.identifier "c") place), []) := by
    rw [climb_eq, climbTerm_of_operand _ (.inl rfl) rfl, Option.bind_some, climbOn_cons, isPlus]
    dsimp only
    rw [if_pos (by decide), last, Option.bind_some, climbOn_nil]
    rfl
  have negation : climb 5 [.ofSymbol .not "!" place, .ofName "b" place,
      .ofSymbol .plus "+" place, .ofName "c" place] =
      some (.unary .logicalNegation place (.binary .add place (.leaf (.identifier "b") place)
        (.leaf (.identifier "c") place)), []) := by
    rw [climb_eq, climbTerm_of_unaryOf? _ isNot, sum, Option.map_some, Option.bind_some,
      climbOn_nil]
    rfl
  unfold swallowingTokens
  rw [climb_eq, climbTerm_of_operand _ (.inl rfl) rfl, Option.bind_some, climbOn_cons, isTimes]
  dsimp only
  rw [if_pos (by decide), negation, Option.bind_some, climbOn_nil]
  rfl

/-- The weak prefix operator of `a * !b + c` swallows the sum behind it. -/
theorem parseExpression_swallowingTokens :
    parseExpression (swallowingTokens (.start "script")) (.start "script")
        (.empty (.start "script")) =
      .ok 7 ((Program.empty (.start "script")).extend
        ((swallowingTree (.start "script")).expressionLayout Tree.untagged 2 none)) := by
  have coherent : ∀ token ∈ swallowingTokens (.start "script"), token.Coherent := by
    intro token member
    simp only [swallowingTokens, List.mem_cons, List.not_mem_nil, or_false] at member
    rcases member with rfl | rfl | rfl | rfl | rfl | rfl
    all_goals
      first
        | exact Token.coherent_ofName _ _
        | exact Token.coherent_ofSymbol _ _ (by decide)
  obtain ⟨tree, read, parsed, _⟩ := parseExpression_eq_climb
    (infix_swallowingTokens (.start "script")) coherent (.start "script")
      (.empty (.start "script"))
  rw [climb_swallowingTokens] at read
  cases read
  exact parsed (by decide)

end Grammar
end ScriptLang
