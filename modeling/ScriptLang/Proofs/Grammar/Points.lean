import ScriptLang.Proofs.Grammar.Planting
import ScriptLang.Proofs.Grammar.Steps
import ScriptLang.Proofs.Program.Depth

/-!
# Points of a reading

Everything that waits at every point of reading an expression: between two tokens,
and between the waiting operators that take their operands before a token or at the
end.  At all of these points the depth of an operand is the nesting of its tree,
which is within the limit, and an expression is refused for its nesting exactly if
there is a point where one level too much is about to be built.
-/

namespace ScriptLang
namespace Grammar

open Source (Position)

/-- What makes a waiting operator take its operands, unless a parenthesis is open behind it: the end
of the tokens, a closing parenthesis, or a binary operator that does not bind more strongly. -/
inductive Due (operator : Token) : Option Token -> Prop
  | atEnd : Due operator none
  | closing {token : Token} (isClose : token.kind = .closeParenthesis) : Due operator (some token)
  | binary
      {token : Token} {next binding : Binding}
      (isOperator : token.kind.isOperator = true)
      (nextBound : bindingOf token = .ok next)
      (isBinary : next.arity = 2)
      (bound : bindingOf operator = .ok binding)
      (notStronger : next.precedence ≤ binding.precedence) :
      Due operator (some token)

/-- The points of reading tokens into a program: the tokens that are unread there, what is waiting,
and the program so far. -/
inductive Passes (program : Program) (tokens : List Token) :
    List Token -> Waiting -> Program -> Prop
  | start : Passes program tokens tokens .empty program
  | token
      {token : Token} {rest : List Token} {waiting next : Waiting} {current after : Program}
      (passes : Passes program tokens (token :: rest) waiting current)
      (read : readToken token waiting current = .ok next after) :
      Passes program tokens rest next after
  | reduction
      {operator : Token} {rest operators : List Token} {operands left : List Operand}
      {current after : Program}
      (passes : Passes program tokens rest ⟨operator :: operators, operands⟩ current)
      (notOpen : operator.kind ≠ .openParenthesis)
      (due : Due operator rest.head?)
      (reduced : reduce operator operands current = .ok left after) :
      Passes program tokens rest ⟨operators, left⟩ after

/-- There is a point of reading tokens where an operator at a given place is due, and the node that
it is about to make would be nested one level more than allowed. -/
inductive Exceeds (program : Program) (tokens : List Token) : Position -> Prop
  | intro
      {operator : Token} {rest operators : List Token} {operands others : List Operand}
      {current built : Program} {form : ExpressionForm}
      (passes : Passes program tokens rest ⟨operator :: operators, operands⟩ current)
      (notOpen : operator.kind ≠ .openParenthesis)
      (due : Due operator rest.head?)
      (applied : applyOperator operator operands = .ok (form, greatestDepth + 1, others))
      (isBuilt : current.add (.expression ⟨form, none⟩) operator.span.start = .ok built)
      (isNesting : built.nesting? current.size = some (greatestDepth + 1)) :
      Exceeds program tokens operator.span.start

/-! ## From a point to the end -/

/-- Read the rest of an expression and let all waiting operators take their operands. -/
def readRest (rest : List Token) (waiting : Waiting) : Building (List Operand) := do
  let waiting ← readTokens rest waiting
  reduceAll waiting.operators waiting.operands

theorem readRest_cons (token : Token) (rest : List Token) (waiting : Waiting) :
    readRest (token :: rest) waiting = readToken token waiting >>= readRest rest := by
  simp only [readRest, readTokens, bind_assoc]
  rfl

theorem readToken_of_operator
    {token : Token}
    (isOperator : token.kind.isOperator = true)
    (waiting : Waiting) :
    readToken token waiting = readOperator token waiting := by
  unfold readToken
  cases kind : token.kind with
  | identifier => simp [kind, TokenKind.isOperator, TokenKind.binding?] at isOperator
  | literal => simp [kind, TokenKind.isOperator, TokenKind.binding?] at isOperator
  | openParenthesis => simp [kind, TokenKind.isOperator, TokenKind.binding?] at isOperator
  | closeParenthesis => simp [kind, TokenKind.isOperator, TokenKind.binding?] at isOperator
  | _ => exact if_pos (kind ▸ isOperator)

section

variable {operator : Token} (notOpen : operator.kind ≠ .openParenthesis)

include notOpen

/-- A due operator takes its operands before the next token is read. -/
theorem readToken_of_due
    {token : Token}
    (due : Due operator (some token))
    (operators : List Token) (operands : List Operand) :
    readToken token ⟨operator :: operators, operands⟩ =
      reduce operator operands >>= fun left => readToken token ⟨operators, left⟩ := by
  cases due with
  | closing isClose =>
      unfold readToken
      rw [isClose]
      exact if_neg notOpen
  | binary isOperator nextBound isBinary bound notStronger =>
      simp only [readToken_of_operator isOperator, readOperator, nextBound,
        Running.liftExcept_ok_bind, if_pos isBinary, reduceStronger, if_neg notOpen, bound,
        if_neg (Nat.not_lt.mpr notStronger), bind_assoc]

/-- A due operator takes its operands before anything else is done. -/
theorem readRest_of_due
    {rest : List Token}
    (due : Due operator rest.head?)
    (operators : List Token) (operands : List Operand) :
    readRest rest ⟨operator :: operators, operands⟩ =
      reduce operator operands >>= fun left => readRest rest ⟨operators, left⟩ := by
  cases rest with
  | nil => exact if_neg notOpen
  | cons token rest =>
      simp only [readRest_cons]
      rw [readToken_of_due notOpen due, bind_assoc]

end

variable {program current after : Program} {tokens rest : List Token} {waiting : Waiting}

/-- Reading goes on from every point as it does from the start. -/
theorem Passes.readRest_eq (passes : Passes program tokens rest waiting current) :
    readRest rest waiting current = readRest tokens .empty program := by
  induction passes with
  | start => rfl
  | token _ read inductionHypothesis =>
      rw [← inductionHypothesis, readRest_cons, Running.bind_of_ok read]
  | reduction _ notOpen due reduced inductionHypothesis =>
      rw [← inductionHypothesis, readRest_of_due notOpen due, Running.bind_of_ok reduced]

/-! ## Refusals -/

/-- The refusal of an expression that is nested too deeply. -/
abbrev tooDeep (place : Position) : Fault := .ofSyntax .nestedTooDeeply place

variable {place : Position}

theorem bindingOf_ne_tooDeep {token : Token} : bindingOf token ≠ .error (tooDeep place) := by
  unfold bindingOf
  split
  · exact nofun
  · exact nofun

theorem addLeaf_ne_tooDeep {token : Token} :
    addLeaf token current ≠ .error (tooDeep place) after := by
  unfold addLeaf
  cases token.payload with
  | leaf content =>
      have added := Program.add_of_children_eq_nil current (.leaf content) token.span.start rfl
      simp only [Program.addNode, added]
      rintro ⟨⟩
  | _ => rintro ⟨⟩

section

variable {token : Token}
  (noneDue : ∀ operator operators, waiting.operators = operator :: operators ->
    operator.kind ≠ .openParenthesis -> ¬ Due operator (some token))

include noneDue

theorem closeParenthesis_ne_tooDeep (isClose : token.kind = .closeParenthesis) :
    closeParenthesis token waiting.operators waiting.operands current ≠
      .error (tooDeep place) after := by
  obtain ⟨operators, operands⟩ := waiting
  cases operators with
  | nil => rintro ⟨⟩
  | cons top operators =>
      dsimp only
      unfold closeParenthesis
      by_cases isOpen : top.kind = .openParenthesis
      · rw [if_pos isOpen]
        rintro ⟨⟩
      · exact absurd (.closing isClose) (noneDue top operators rfl isOpen)

theorem readOperator_ne_tooDeep (isOperator : token.kind.isOperator = true) :
    readOperator token waiting current ≠ .error (tooDeep place) after := by
  obtain ⟨operators, operands⟩ := waiting
  unfold readOperator
  cases nextBound : bindingOf token with
  | error fault =>
      rintro ⟨⟩
      exact bindingOf_ne_tooDeep nextBound
  | ok next =>
      rw [Running.liftExcept_ok_bind]
      by_cases isBinary : next.arity = 2
      · rw [if_pos isBinary]
        cases operators with
        | nil => rintro ⟨⟩
        | cons top operators =>
            dsimp only
            unfold reduceStronger
            by_cases isOpen : top.kind = .openParenthesis
            · rw [if_pos isOpen]
              rintro ⟨⟩
            · rw [if_neg isOpen]
              cases bound : bindingOf top with
              | error fault =>
                  rintro ⟨⟩
                  exact bindingOf_ne_tooDeep bound
              | ok binding =>
                  rw [Running.liftExcept_ok_bind]
                  by_cases stronger : next.precedence > binding.precedence
                  · rw [if_pos stronger]
                    rintro ⟨⟩
                  · have notStronger := Nat.le_of_not_lt stronger
                    exact absurd (.binary isOperator nextBound isBinary bound notStronger)
                      (noneDue top operators rfl isOpen)
      · rw [if_neg isBinary]
        rintro ⟨⟩

/-- When no operator is due, a token is not refused for its nesting. -/
theorem readToken_ne_tooDeep : readToken token waiting current ≠ .error (tooDeep place) after := by
  have leaf : (addLeaf token >>= fun node => pure (waiting.pushOperand ⟨node, 0⟩)) current ≠
      .error (tooDeep place) after := by
    rw [Running.bind_apply]
    cases added : addLeaf token current with
    | ok node after => exact nofun
    | error fault after =>
        rintro ⟨⟩
        exact addLeaf_ne_tooDeep added
  have other : ∀ kind, token.kind = kind -> (if kind.isOperator then readOperator token waiting
      else throw (.ofSyntax (.notInExpression token.value) token.span.start)) current ≠
        .error (tooDeep place) after := by
    rintro _ rfl
    by_cases isOperator : token.kind.isOperator = true
    · rw [if_pos isOperator]
      exact readOperator_ne_tooDeep noneDue isOperator
    · rw [if_neg isOperator]
      exact nofun
  unfold readToken
  cases kind : token.kind with
  | identifier => exact leaf
  | literal => exact leaf
  | openParenthesis => exact nofun
  | closeParenthesis => exact closeParenthesis_ne_tooDeep noneDue kind
  | _ => exact other _ kind

end

/-! ## What waits at a point -/

/-- The operands that wait at a point are trees within the limit, planted behind each other. -/
theorem Passes.exists_trees (passes : Passes program tokens rest waiting current) :
    ∃ trees, waiting.operands = operandsOf program trees ∧ current = plant program trees ∧
      deepest trees ≤ greatestDepth := by
  induction passes with
  | start => exact ⟨[], rfl, (plant_nil program).symm, Nat.zero_le _⟩
  | @token token rest waiting next current after _ read inductionHypothesis =>
      obtain ⟨trees, isOperands, rfl, inLimit⟩ := inductionHypothesis
      obtain ⟨operators, operands⟩ := waiting
      obtain rfl : operands = operandsOf program trees := isOperands
      have mirrors := readToken_mirrors program token ⟨operators, trees⟩
      have cuts := Forest.readToken_cuts greatestDepth greatestDepth token ⟨operators, trees⟩
      unfold waitingOf at mirrors
      rw [read] at mirrors
      obtain ⟨forest, readAsTrees, rfl, rfl⟩ := mirrors.exists_of_ok
      exact ⟨forest.trees, rfl, rfl, cuts.deepest_le inLimit readAsTrees⟩
  | @reduction operator rest operators operands left current after _ _ _ reduced
      inductionHypothesis =>
      obtain ⟨trees, isOperands, rfl, inLimit⟩ := inductionHypothesis
      obtain rfl : operands = operandsOf program trees := isOperands
      have mirrors := reduce_mirrors program operator trees
      have cuts := Forest.combine_cuts greatestDepth greatestDepth operator trees
      rw [reduced] at mirrors
      obtain ⟨combined, isCombined, rfl, rfl⟩ := mirrors.exists_of_ok
      exact ⟨combined, rfl, rfl, cuts.deepest_le inLimit isCombined⟩

/-- Every operand that waits is the top of one of the planted trees. -/
theorem exists_planted_of_mem
    {operand : Operand} {trees : List Tree}
    (member : operand ∈ operandsOf program trees) :
    ∃ tree ∈ trees, ∃ before after,
      planted program.size trees =
        before ++ tree.layout Tree.untagged (program.size + before.length) none ++ after ∧
      operand = ⟨program.size + before.length + tree.descendants, tree.nesting⟩ := by
  induction trees with
  | nil => cases member
  | cons first others inductionHypothesis =>
      rcases List.mem_cons.mp member with rfl | inOthers
      · refine ⟨first, List.mem_cons_self, planted program.size others, [], ?_, ?_⟩
        · rw [planted, List.append_nil]
        · rw [plant, Program.size_extend]
      · obtain ⟨tree, isTree, before, after, isPlanted, isOperand⟩ := inductionHypothesis inOthers
        let behind := first.layout Tree.untagged
          (program.size + (planted program.size others).length) none
        refine ⟨tree, List.mem_cons_of_mem _ isTree, before, after ++ behind, ?_, isOperand⟩
        rw [← List.append_assoc, ← isPlanted]
        rfl

/-- The depth of an operand that waits is the nesting of the operators at its node, and within the
limit. -/
theorem Passes.nesting?_of_mem
    {operand : Operand}
    (passes : Passes program tokens rest waiting current)
    (member : operand ∈ waiting.operands) :
    current.nesting? operand.node = some operand.depth ∧ operand.depth ≤ greatestDepth := by
  obtain ⟨trees, isOperands, rfl, inLimit⟩ := passes.exists_trees
  rw [isOperands] at member
  obtain ⟨tree, isTree, before, after, isPlanted, rfl⟩ := exists_planted_of_mem member
  constructor
  · rw [plant, isPlanted]
    exact Program.nesting?_of_layout (Program.holds_extend_append program before _ after _ rfl)
  · exact Nat.le_trans (nesting_le_deepest isTree) inLimit

/-! ## One level too much -/

theorem applyTo_ne_tooDeep {operator : Token} {trees : List Tree} :
    Forest.applyTo operator trees ≠ .error (tooDeep place) := by
  unfold Forest.applyTo
  cases bound : bindingOf operator with
  | error fault =>
      rintro ⟨⟩
      exact bindingOf_ne_tooDeep bound
  | ok binding =>
      rw [ok_bind]
      split
      · split <;> exact nofun
      · split <;> exact nofun
      all_goals exact nofun

/-- An operator is refused for the nesting when it would make a tree of one level too much. -/
theorem Passes.exceeds_of_reduce
    {operator : Token} {operators : List Token} {operands : List Operand}
    (passes : Passes program tokens rest ⟨operator :: operators, operands⟩ current)
    (notOpen : operator.kind ≠ .openParenthesis)
    (due : Due operator rest.head?)
    (refused : reduce operator operands current = .error (tooDeep place) after) :
    Exceeds program tokens place := by
  obtain ⟨trees, isOperands, isPlanted, inLimit⟩ := passes.exists_trees
  obtain rfl : operands = operandsOf program trees := isOperands
  have application := applyOperator_operandsOf program operator trees
  unfold reduce at refused
  cases applied : Forest.applyTo operator trees with
  | error fault =>
      rw [applied] at application
      simp only [application, Except.map, Running.bind_apply, Running.liftExcept_error] at refused
      cases refused
      exact absurd applied applyTo_ne_tooDeep
  | ok result =>
      obtain ⟨tree, others⟩ := result
      rw [applied] at application
      simp only [application, Except.map, Running.liftExcept_ok_bind] at refused
      have added := add_applied_plant program applied
      split at refused
      · next beyond =>
          cases refused
          have oneLevel := Forest.nesting_applyTo_le applied
          have isNesting : tree.nesting = greatestDepth + 1 := by omega
          have holds := Program.holds_extend (plant program others)
            (tree.layout Tree.untagged (plant program others).size none)
          rw [Except.map, isNesting] at application
          apply Exceeds.intro passes notOpen due application (isPlanted ▸ added)
          rw [isPlanted, size_plant_of_applyTo program applied, plant_cons,
            Program.nesting?_of_layout holds, isNesting]
      · rw [Running.bind_apply, Program.addNode, isPlanted, added] at refused
        cases refused

/-- If the reading from a point on is refused for the nesting, there is a point where one level too
much is about to be built. -/
theorem Passes.exceeds
    {rest operators : List Token} {operands : List Operand} {current after : Program}
    (passes : Passes program tokens rest ⟨operators, operands⟩ current)
    (refused : readRest rest ⟨operators, operands⟩ current = .error (tooDeep place) after) :
    Exceeds program tokens place := by
  by_cases someDue : ∃ operator others, operators = operator :: others ∧
      operator.kind ≠ .openParenthesis ∧ Due operator rest.head?
  · obtain ⟨operator, others, rfl, notOpen, due⟩ := someDue
    rw [readRest_of_due notOpen due, Running.bind_apply] at refused
    cases reduced : reduce operator operands current with
    | ok left next =>
        rw [reduced] at refused
        exact (passes.reduction notOpen due reduced).exceeds refused
    | error fault next =>
        rw [reduced] at refused
        cases refused
        exact passes.exceeds_of_reduce notOpen due reduced
  · have noneDue : ∀ operator others, operators = operator :: others ->
        operator.kind ≠ .openParenthesis -> ¬ Due operator rest.head? :=
      fun operator others isTop notOpen due => someDue ⟨operator, others, isTop, notOpen, due⟩
    cases rest with
    | nil =>
        cases operators with
        | nil => cases refused
        | cons operator others =>
            by_cases isOpen : operator.kind = .openParenthesis
            · rw [readRest, readTokens, pure_bind, reduceAll, if_pos isOpen] at refused
              cases refused
            · exact absurd .atEnd (noneDue operator others rfl isOpen)
    | cons token rest =>
        rw [readRest_cons, Running.bind_apply] at refused
        cases read : readToken token ⟨operators, operands⟩ current with
        | ok next after =>
            rw [read] at refused
            exact (passes.token read).exceeds refused
        | error fault after =>
            rw [read] at refused
            cases refused
            exact absurd read (readToken_ne_tooDeep noneDue)
termination_by (rest.length, operators.length)

/-- Reading all tokens into a program mirrors reading them as trees. -/
theorem readRest_mirrors (program : Program) (tokens : List Token) :
    Mirrors program (operandsWith program) (Forest.readAll greatestDepth tokens)
      (readRest tokens .empty program) := by
  have reading := readTokens_mirrors program tokens Forest.empty
  rw [show Forest.empty.trees = [] from rfl, plant_nil program] at reading
  apply reading.bind
  intro forest _
  exact reduceAll_mirrors program forest.operators forest.trees

/-- The reading is refused at the point where one level too much is about to be built. -/
theorem Exceeds.exists_refused (exceeds : Exceeds program tokens place) :
    ∃ after, readRest tokens .empty program = .error (tooDeep place) after := by
  cases exceeds with
  | @intro operator rest operators operands _ current _ _ passes notOpen due applied _ _ =>
      have refused : reduce operator operands current =
          .error (tooDeep operator.span.start) current := by
        rw [reduce, applied, Running.liftExcept_ok_bind]
        exact congrFun (if_pos (Nat.lt_succ_self greatestDepth)) current
      refine ⟨current, ?_⟩
      rw [← passes.readRest_eq, readRest_of_due notOpen due, Running.bind_of_error refused]

/-- Tokens are refused for their nesting, in every program, exactly if there is a point where one
level too much is about to be built. -/
theorem exceeds_iff_readAll (program : Program) (tokens : List Token) (place : Position) :
    Exceeds program tokens place ↔
      Forest.readAll greatestDepth tokens = .error (tooDeep place) := by
  rw [(readRest_mirrors program tokens).error_iff]
  constructor
  · exact Exceeds.exists_refused
  · rintro ⟨after, refused⟩
    exact Passes.start.exceeds refused

/-- A tree is refused for its nesting exactly if its tokens are. -/
theorem parse_eq_tooDeep_iff
    (start : Nat) (tokens : List Token) (position place : Position) :
    Forest.parse start tokens position = .error (tooDeep place) ↔
      Forest.readAll greatestDepth tokens = .error (tooDeep place) := by
  have notSingle : ∀ trees, Forest.single start position trees ≠ .error (tooDeep place) := by
    intro trees
    unfold Forest.single
    split
    · split <;> exact nofun
    · exact nofun
  unfold Forest.parse
  cases tokens with
  | nil => exact ⟨nofun, nofun⟩
  | cons token rest =>
      rw [List.isEmpty_cons, if_neg Bool.false_ne_true, bind_eq_error_iff]
      constructor
      · rintro (refused | ⟨trees, _, refused⟩)
        · exact refused
        · exact absurd refused (notSingle trees)
      · exact .inl

/-- An expression is refused for its nesting exactly if there is a point where one level too much
is about to be built. -/
theorem parseExpression_tooDeep_iff
    (program : Program) (tokens : List Token) (position place : Position) :
    (∃ after, parseExpression tokens position program = .error (tooDeep place) after) ↔
      Exceeds program tokens place := by
  rw [← (parseExpression_mirrors program tokens position).error_iff, parse_eq_tooDeep_iff,
    exceeds_iff_readAll]

/-! ## Chains of prefix operators -/

namespace Forest

/-- Whatever is left in the end, it is refused for the nesting by an operator that waits. -/
theorem finish_eq_tooDeep_iff (limit : Nat) (forest : Forest) :
    finish limit forest = .error (tooDeep place) ↔
      settle limit 0 forest.operators forest.trees = .error (tooDeep place) := by
  unfold finish
  rw [bind_eq_error_iff]
  constructor
  · rintro (refused | ⟨⟨operators, trees⟩, _, mismatched⟩)
    · exact refused
    · cases operators <;> cases mismatched
  · exact .inl

variable {operator : Token} {precedence : Nat} {unary : UnaryOperator}
  (bound : operator.payload.binding? = some ⟨precedence, 1⟩)
  (isUnary : operator.kind.unaryOperator? = some unary)

include bound isUnary

/-- Prefix operators wait behind each other. -/
theorem readTokens_replicate
    (limit count : Nat) (operators : List Token) (trees : List Tree) :
    readTokens limit (List.replicate count operator) ⟨operators, trees⟩ =
      .ok ⟨List.replicate count operator ++ operators, trees⟩ := by
  have isOperator : operator.kind.isOperator = true := by
    obtain ⟨_, isBinding⟩ := (TokenKind.unaryOperator?_isSome_iff _).mp (by rw [isUnary]; rfl)
    rw [TokenKind.isOperator, isBinding]
    rfl
  induction count generalizing operators with
  | zero => rfl
  | succ count inductionHypothesis =>
      have pushed : readOperator limit operator ⟨operators, trees⟩ =
          .ok ⟨operator :: operators, trees⟩ := by
        simp [readOperator, bindingOf, bound]
      calc readTokens limit (List.replicate (count + 1) operator) ⟨operators, trees⟩
        _ = readTokens limit (List.replicate count operator) ⟨operator :: operators, trees⟩ := by
            rw [List.replicate_succ, readTokens_cons, readToken_of_isOperator limit _ isOperator,
              pushed, ok_bind]
        _ = .ok ⟨List.replicate count operator ++ operator :: operators, trees⟩ :=
            inductionHypothesis _
        _ = .ok ⟨List.replicate (count + 1) operator ++ operators, trees⟩ := by
            rw [List.replicate_succ', List.append_assoc, List.singleton_append]

/-- Prefix operators nest one level each, as long as the limit allows it. -/
theorem settle_replicate
    {limit : Nat} {tree : Tree}
    (count : Nat)
    (inLimit : tree.nesting ≤ limit) :
    (settle limit 0 (List.replicate count operator) [tree] =
        .error (tooDeep operator.span.start)) ↔
      limit < tree.nesting + count := by
  have notOpen : operator.kind ≠ .openParenthesis := by
    intro isOpen
    rw [isOpen] at isUnary
    cases isUnary
  induction count generalizing tree with
  | zero => exact iff_of_false nofun (Nat.not_lt.mpr inLimit)
  | succ count inductionHypothesis =>
      rw [List.replicate_succ, settle_zero_cons limit _ _ notOpen, combine,
        applyTo_of_unaryOperator? bound isUnary, ok_bind]
      dsimp only
      rw [Tree.nesting_unary]
      split
      · exact iff_of_true rfl (by omega)
      · have nested : (Tree.unary unary operator.span.start tree).nesting ≤ limit := by
          rw [Tree.nesting_unary]
          omega
        have next := inductionHypothesis nested
        rw [Tree.nesting_unary, Nat.add_right_comm, Nat.add_assoc] at next
        exact next

end Forest

/-- Of prefix operators in front of an operand exactly those are refused for their nesting that are
more than the limit. -/
theorem exceeds_replicate_iff
    {operator leaf : Token} {precedence : Nat} {unary : UnaryOperator} {content : Leaf}
    (bound : operator.payload.binding? = some ⟨precedence, 1⟩)
    (isUnary : operator.kind.unaryOperator? = some unary)
    (isOperand : IsOperand leaf)
    (carries : leaf.payload = .leaf content)
    (program : Program) (count : Nat) :
    Exceeds program (List.replicate count operator ++ [leaf]) operator.span.start ↔
      greatestDepth < count := by
  have isLeaf : Forest.leafOf leaf = .ok (.leaf content leaf.span.start) := by
    rw [Forest.leafOf, carries]
  have inLimit : (Tree.leaf content leaf.span.start).nesting ≤ greatestDepth := Nat.zero_le _
  have settles := Forest.settle_replicate bound isUnary count inLimit
  rw [exceeds_iff_readAll, Forest.readAll, Forest.readTokens_append, Forest.empty,
    Forest.readTokens_replicate bound isUnary, ok_bind, Forest.readTokens_cons,
    Forest.readToken_of_operand _ _ isOperand isLeaf, ok_bind, Forest.readTokens_nil, ok_bind,
    List.append_nil, Forest.finish_eq_tooDeep_iff, settles, Tree.nesting_leaf, Nat.zero_add]

end Grammar
end ScriptLang
