import ScriptLang.Proofs.Grammar.Sentence
import ScriptLang.Proofs.Program.Growth

/-!
# Reading lets programs grow

Whatever is read of a statement, and however its reading ends, it only adds nodes that
name and know each other.  The operands that wait are added nodes, so that operators
and statements are put above added nodes only.
-/

namespace ScriptLang
namespace Grammar

open Source (Position)

/-- An action leaves a program that has grown from a base and has at least as many nodes as
before; one that succeeds has a result that satisfies a condition. -/
def Grows
    {σ α : Type}
    (view : σ -> Program)
    (base : Program)
    (state : σ)
    (good : α -> Program -> Prop) : EStateM.Result Fault σ α -> Prop :=
  Running.Ends
    (fun value after =>
      base.GrownFrom (view after) ∧ (view state).size ≤ (view after).size ∧ good value (view after))
    (fun _ after => base.GrownFrom (view after))

namespace Grows

variable {σ α β : Type} {view : σ -> Program} {base : Program} {state : σ}
  {good : α -> Program -> Prop}

theorem pure
    {value : α}
    (grown : base.GrownFrom (view state))
    (holds : good value (view state)) :
    Grows view base state good ((Pure.pure value : EStateM Fault σ α) state) :=
  ⟨grown, Nat.le_refl _, holds⟩

theorem throw
    (grown : base.GrownFrom (view state))
    (fault : Fault) :
    Grows view base state good ((MonadExcept.throw fault : EStateM Fault σ α) state) :=
  grown

/-- A step that does not touch the program. -/
theorem lift
    (good : α -> Program -> Prop)
    {step : Except Fault α}
    (grown : base.GrownFrom (view state))
    (holds : ∀ value, step = .ok value -> good value (view state)) :
    Grows view base state good ((liftExcept step : EStateM Fault σ α) state) := by
  cases step with
  | ok value => exact ⟨grown, Nat.le_refl _, holds value rfl⟩
  | error fault => exact grown

/-- A second action starts where the first one ends. -/
theorem bind
    {better : β -> Program -> Prop} {first : EStateM Fault σ α} {next : α -> EStateM Fault σ β}
    (grows : Grows view base state good (first state))
    (nextGrows : ∀ value after, base.GrownFrom (view after) ->
      (view state).size ≤ (view after).size -> good value (view after) ->
      Grows view base after better (next value after)) :
    Grows view base state better ((first >>= next) state) := by
  apply Running.Ends.bind grows
  rintro value after ⟨grown, le, holds⟩
  refine (nextGrows value after grown le holds).imp ?_ fun _ _ stillGrown => stillGrown
  rintro result last ⟨stillGrown, leOn, better⟩
  exact ⟨stillGrown, Nat.le_trans le leOn, better⟩

end Grows

/-! ## Expressions -/

section

variable {base program : Program}

theorem addNode_grows
    {kind : NodeKind}
    (grown : base.GrownFrom program)
    (childrenAdded : ∀ child ∈ kind.children, base.Added program child)
    (position : Position) :
    Grows id base program (fun node after => base.Added after node)
      (Program.addNode kind position program) := by
  obtain ⟨after, done, stillGrown, size⟩ := grown.addNode childrenAdded position
  rw [done]
  refine ⟨stillGrown, ?_, grown.size_le, ?_⟩
  · rw [id, id, size]
    exact Nat.le_succ _
  · rw [id, size]
    exact Nat.lt_succ_self _

theorem addLeaf_grows
    (grown : base.GrownFrom program)
    (token : Token) :
    Grows id base program (fun node after => base.Added after node) (addLeaf token program) := by
  unfold addLeaf
  cases token.payload with
  | leaf content => exact addNode_grows grown (List.forall_mem_nil _) _
  | empty => exact .throw grown _
  | operator binding => exact .throw grown _

/-- All operands are nodes that have been added. -/
def AllAdded (base program : Program) (operands : List Operand) : Prop :=
  ∀ operand ∈ operands, base.Added program operand.node

theorem AllAdded.mono
    {after : Program} {operands : List Operand}
    (added : AllAdded base program operands)
    (le : program.size ≤ after.size) :
    AllAdded base after operands :=
  fun operand member => (added operand member).mono le

/-- An operator is put above operands. -/
theorem added_of_applyOperator
    {operator : Token} {operands others : List Operand} {form : ExpressionForm} {depth : Nat}
    (added : AllAdded base program operands)
    (applied : applyOperator operator operands = .ok (form, depth, others)) :
    (∀ child ∈ form.children, base.Added program child) ∧ AllAdded base program others := by
  unfold applyOperator at applied
  obtain ⟨⟨precedence, arity⟩, _, applied⟩ := (bind_eq_ok_iff _ _ _).mp applied
  dsimp only at applied
  split at applied
  · cases operands with
    | nil => cases applied
    | cons operand rest =>
        obtain ⟨operandAdded, restAdded⟩ := List.forall_mem_cons.mp added
        simp only [popOperand, ok_bind] at applied
        split at applied
        · cases applied
          exact ⟨List.forall_mem_singleton.mpr operandAdded, restAdded⟩
        · cases applied
  · rcases operands with _ | ⟨right, _ | ⟨left, rest⟩⟩
    · cases applied
    · cases applied
    · obtain ⟨rightAdded, leftRestAdded⟩ := List.forall_mem_cons.mp added
      obtain ⟨leftAdded, restAdded⟩ := List.forall_mem_cons.mp leftRestAdded
      simp only [popOperand, ok_bind] at applied
      split at applied
      · cases applied
        exact ⟨List.forall_mem_cons.mpr ⟨leftAdded, List.forall_mem_singleton.mpr rightAdded⟩,
          restAdded⟩
      · cases applied
  · cases applied

theorem reduce_grows
    {operands : List Operand}
    (grown : base.GrownFrom program)
    (added : AllAdded base program operands)
    (operator : Token) :
    Grows id base program (fun operands after => AllAdded base after operands)
      (reduce operator operands program) := by
  unfold reduce
  refine .bind (.lift (fun applied program =>
    (∀ child ∈ applied.1.children, base.Added program child) ∧
      AllAdded base program applied.2.2) grown ?_) ?_
  · rintro ⟨form, depth, others⟩ applied
    exact added_of_applyOperator added applied
  · rintro ⟨form, depth, others⟩ after stillGrown _ ⟨childrenAdded, othersAdded⟩
    dsimp only
    split
    · exact .throw stillGrown _
    · have partsAdded : ∀ child ∈ (NodeKind.expression ⟨form, none⟩).children,
          base.Added after child := childrenAdded
      refine .bind (addNode_grows stillGrown partsAdded _) ?_
      intro node last lastGrown le nodeAdded
      exact .pure lastGrown (List.forall_mem_cons.mpr ⟨nodeAdded, othersAdded.mono le⟩)

/-- All operands that wait are nodes that have been added. -/
def WaitingAdded (base : Program) (waiting : Waiting) (program : Program) : Prop :=
  AllAdded base program waiting.operands

theorem reduceStronger_grows
    {operands : List Operand}
    (grown : base.GrownFrom program)
    (added : AllAdded base program operands)
    (precedence : Nat) (operators : List Token) :
    Grows id base program (WaitingAdded base)
      (reduceStronger precedence operators operands program) := by
  induction operators generalizing operands program with
  | nil => exact .pure grown added
  | cons top operators inductionHypothesis =>
      unfold reduceStronger
      split
      · exact .pure grown added
      · refine .bind (.lift (fun _ after => AllAdded base after operands) grown fun _ _ => added) ?_
        intro binding after stillGrown _ stillAdded
        split
        · exact .pure stillGrown stillAdded
        · refine .bind (reduce_grows stillGrown stillAdded top) ?_
          intro reduced last lastGrown _ reducedAdded
          exact inductionHypothesis lastGrown reducedAdded

theorem closeParenthesis_grows
    {operands : List Operand}
    (grown : base.GrownFrom program)
    (added : AllAdded base program operands)
    (close : Token) (operators : List Token) :
    Grows id base program (WaitingAdded base)
      (closeParenthesis close operators operands program) := by
  induction operators generalizing operands program with
  | nil => exact .throw grown _
  | cons top operators inductionHypothesis =>
      unfold closeParenthesis
      split
      · exact .pure grown added
      · refine .bind (reduce_grows grown added top) ?_
        intro reduced after stillGrown _ reducedAdded
        exact inductionHypothesis stillGrown reducedAdded

theorem reduceAll_grows
    {operands : List Operand}
    (grown : base.GrownFrom program)
    (added : AllAdded base program operands)
    (operators : List Token) :
    Grows id base program (fun operands after => AllAdded base after operands)
      (reduceAll operators operands program) := by
  induction operators generalizing operands program with
  | nil => exact .pure grown added
  | cons top operators inductionHypothesis =>
      unfold reduceAll
      split
      · exact .throw grown _
      · refine .bind (reduce_grows grown added top) ?_
        intro reduced after stillGrown _ reducedAdded
        exact inductionHypothesis stillGrown reducedAdded

theorem readOperator_grows
    {waiting : Waiting}
    (grown : base.GrownFrom program)
    (added : WaitingAdded base waiting program)
    (token : Token) :
    Grows id base program (WaitingAdded base) (readOperator token waiting program) := by
  unfold readOperator
  refine .bind (.lift (fun _ => WaitingAdded base waiting) grown fun _ _ => added) ?_
  intro binding after stillGrown _ stillAdded
  split
  · refine .bind (reduceStronger_grows stillGrown stillAdded _ _) ?_
    intro settled last lastGrown _ settledAdded
    exact .pure lastGrown settledAdded
  · exact .pure stillGrown stillAdded

theorem readToken_grows
    {waiting : Waiting}
    (grown : base.GrownFrom program)
    (added : WaitingAdded base waiting program)
    (token : Token) :
    Grows id base program (WaitingAdded base) (readToken token waiting program) := by
  have operand : Grows id base program (WaitingAdded base)
      ((addLeaf token >>= fun node => pure (waiting.pushOperand ⟨node, 0⟩)) program) := by
    refine .bind (addLeaf_grows grown token) ?_
    intro node after stillGrown le nodeAdded
    exact .pure stillGrown
      (List.forall_mem_cons.mpr ⟨nodeAdded, AllAdded.mono added le⟩)
  have other : ∀ kind : TokenKind, Grows id base program (WaitingAdded base)
      ((if kind.isOperator then readOperator token waiting
        else throw (.ofSyntax (.notInExpression token.value) token.span.start)) program) := by
    intro kind
    split
    · exact readOperator_grows grown added token
    · exact .throw grown _
  unfold readToken
  cases token.kind with
  | identifier => exact operand
  | literal => exact operand
  | openParenthesis => exact .pure grown added
  | closeParenthesis => exact closeParenthesis_grows grown added token _
  | _ => exact other _

theorem readTokens_grows
    {waiting : Waiting}
    (grown : base.GrownFrom program)
    (added : WaitingAdded base waiting program)
    (tokens : List Token) :
    Grows id base program (WaitingAdded base) (readTokens tokens waiting program) := by
  induction tokens generalizing waiting program with
  | nil => exact .pure grown added
  | cons token rest inductionHypothesis =>
      unfold readTokens
      refine .bind (readToken_grows grown added token) ?_
      intro next after stillGrown _ nextAdded
      exact inductionHypothesis stillGrown nextAdded

/-- An expression is put above a bare leaf that has been added. -/
theorem wrapLeaf_grows
    {operand : NodeId}
    (grown : base.GrownFrom program)
    (added : base.Added program operand) :
    Grows id base program (fun node after => base.Added after node)
      (wrapLeaf operand program) := by
  have wrapped : ∀ after : Program, base.GrownFrom after -> base.Added after operand ->
      ∀ position, Grows id base after (fun node last => base.Added last node)
        (Program.addNode (.expression ⟨.single operand, none⟩) position after) := by
    intro after stillGrown stillAdded position
    have partsAdded : ∀ child ∈ (NodeKind.expression ⟨.single operand, none⟩).children,
        base.Added after child := List.forall_mem_singleton.mpr stillAdded
    exact addNode_grows stillGrown partsAdded position
  unfold wrapLeaf
  rw [Running.bind_of_ok (Running.get_apply _)]
  refine .bind (.lift (fun _ after => base.Added after operand) grown fun _ _ => added) ?_
  intro node after stillGrown _ stillAdded
  cases node.kind with
  | expression expression => exact .pure stillGrown stillAdded
  | leaf content =>
      cases content with
      | identifier name => exact wrapped after stillGrown stillAdded _
      | literal value => exact wrapped after stillGrown stillAdded _
      | typeKeyword ty => exact .throw stillGrown _
  | program code => exact .throw stillGrown _
  | codeBlock statements symbols => exact .throw stillGrown _
  | statement content => exact .throw stillGrown _

/-- An expression that is read is an added node. -/
theorem parseExpression_grows
    (grown : base.GrownFrom program)
    (tokens : List Token) (position : Position) :
    Grows id base program (fun node after => base.Added after node)
      (parseExpression tokens position program) := by
  unfold parseExpression
  split
  · exact .throw grown _
  · have nothingWaits : WaitingAdded base Waiting.empty program := List.forall_mem_nil _
    refine .bind (readTokens_grows grown nothingWaits tokens) ?_
    intro waiting after stillGrown _ waitingAdded
    refine .bind (reduceAll_grows stillGrown waitingAdded _) ?_
    intro operands last lastGrown _ operandsAdded
    split
    · next operand => exact wrapLeaf_grows lastGrown (operandsAdded _ (List.mem_singleton_self _))
    · exact .throw lastGrown _

end

/-! ## Statements -/

/-- The node of a part that may be missing is an added one. -/
def PartAdded (base : Program) (part : Option NodeId) (program : Program) : Prop :=
  ∀ node ∈ part, base.Added program node

section

variable {base : Program} {reader : Reader}

/-- Building as a part of reading. -/
theorem build_grows
    {α : Type} {good : α -> Program -> Prop} {action : Building α}
    (grows : Grows id base reader.program good (action reader.program)) :
    Grows Reader.program base reader good (build action reader) := by
  unfold build
  cases result : action reader.program with
  | ok value after =>
      rw [result] at grows
      exact grows
  | error fault after =>
      rw [result] at grows
      exact grows

variable (grown : base.GrownFrom reader.program)

include grown

theorem skip_grows :
    Grows Reader.program base reader (fun _ _ => True) (skip reader) :=
  ⟨grown, Nat.le_refl _, trivial⟩

theorem expect_grows (kind : TokenKind) (expectation : Expectation) :
    Grows Reader.program base reader (fun _ _ => True) (expect kind expectation reader) := by
  unfold expect
  rw [Running.bind_of_ok (Running.get_apply _)]
  cases reader.unread with
  | nil => exact .throw grown _
  | cons token rest =>
      dsimp only
      split
      · refine .bind (skip_grows grown) ?_
        intro _ after stillGrown _ _
        exact .pure stillGrown trivial
      · exact .throw grown _

theorem readExpression_grows :
    Grows Reader.program base reader (fun node after => base.Added after node)
      (readExpression reader) := by
  let taken : Reader := { reader with unread := [] }
  have grows : Grows Reader.program base taken (fun node after => base.Added after node)
      (build (parseExpression reader.unread reader.position) taken) :=
    build_grows (parseExpression_grows grown _ _)
  unfold readExpression
  rw [Running.bind_of_ok (Running.get_apply _), Running.bind_of_ok (Running.set_apply _ _)]
  exact grows

theorem readType_grows (hasColon : Bool) (name : String) :
    Grows Reader.program base reader (PartAdded base) (readType hasColon name reader) := by
  unfold readType
  rw [Running.bind_of_ok (nextKind?_apply _)]
  split
  · split
    · refine .bind (expect_grows grown _ _) ?_
      intro token after stillGrown _ _
      refine .bind (build_grows (addLeaf_grows stillGrown token)) ?_
      intro node last lastGrown _ nodeAdded
      refine .pure lastGrown ?_
      rintro _ ⟨⟩
      exact nodeAdded
    · rw [Running.bind_of_ok (Running.get_apply _)]
      exact .throw grown _
  · refine .pure grown ?_
    intro node isNode
    cases isNode

theorem readInitializer_grows :
    Grows Reader.program base reader (PartAdded base) (readInitializer reader) := by
  unfold readInitializer
  rw [Running.bind_of_ok (nextKind?_apply _)]
  split
  · refine .bind (skip_grows grown) ?_
    intro _ after stillGrown _ _
    refine .bind (readExpression_grows stillGrown) ?_
    intro node last lastGrown _ nodeAdded
    refine .pure lastGrown ?_
    rintro _ ⟨⟩
    exact nodeAdded
  · refine .pure grown ?_
    intro node isNode
    cases isNode

theorem readColon_grows :
    Grows Reader.program base reader (fun _ _ => True) (readColon reader) := by
  unfold readColon
  rw [Running.bind_of_ok (nextKind?_apply _)]
  split
  · refine .bind (skip_grows grown) ?_
    intro _ after stillGrown _ _
    exact .pure stillGrown trivial
  · exact .pure grown trivial

theorem readDeclaration_grows :
    Grows Reader.program base reader (fun node after => base.Added after node)
      (readDeclaration reader) := by
  unfold readDeclaration
  refine .bind (expect_grows grown _ _) ?_
  intro first reader grown _ _
  refine .bind (expect_grows grown _ _) ?_
  intro identifierToken reader grown _ _
  refine .bind (build_grows (addLeaf_grows grown identifierToken)) ?_
  intro identifier reader grown _ identifierAdded
  refine .bind (readColon_grows grown) ?_
  intro hasColon reader grown toColon _
  refine .bind (readType_grows grown hasColon _) ?_
  intro typeKeyword reader grown toType typeAdded
  refine .bind (readInitializer_grows grown) ?_
  intro expression reader grown toExpression expressionAdded
  split
  · exact .throw grown _
  · apply build_grows
    apply addNode_grows grown
    -- The nodes of the parts have been added at different times, and the program has grown since.
    have toEnd := Nat.le_trans toType toExpression
    refine List.forall_mem_cons.mpr
      ⟨identifierAdded.mono (Nat.le_trans toColon toEnd), List.forall_mem_append.mpr ⟨?_, ?_⟩⟩
    · intro child member
      exact (typeAdded child (Option.mem_toList.mp member)).mono toExpression
    · intro child member
      exact expressionAdded child (Option.mem_toList.mp member)

theorem readAssignment_grows :
    Grows Reader.program base reader (fun node after => base.Added after node)
      (readAssignment reader) := by
  unfold readAssignment
  refine .bind (expect_grows grown _ _) ?_
  intro identifierToken reader grown _ _
  refine .bind (build_grows (addLeaf_grows grown identifierToken)) ?_
  intro identifier reader grown _ identifierAdded
  refine .bind (expect_grows grown _ _) ?_
  intro colon reader grown toColon _
  refine .bind (expect_grows grown _ _) ?_
  intro equal reader grown toEqual _
  refine .bind (readExpression_grows grown) ?_
  intro expression reader grown toExpression expressionAdded
  apply build_grows
  apply addNode_grows grown
  have toEnd := Nat.le_trans toColon (Nat.le_trans toEqual toExpression)
  exact List.forall_mem_cons.mpr
    ⟨identifierAdded.mono toEnd, List.forall_mem_singleton.mpr expressionAdded⟩

theorem readInput_grows :
    Grows Reader.program base reader (fun node after => base.Added after node)
      (readInput reader) := by
  unfold readInput
  refine .bind (expect_grows grown _ _) ?_
  intro first reader grown _ _
  refine .bind (expect_grows grown _ _) ?_
  intro identifierToken reader grown _ _
  refine .bind (build_grows (addLeaf_grows grown identifierToken)) ?_
  intro identifier reader grown _ identifierAdded
  apply build_grows
  apply addNode_grows grown
  exact List.forall_mem_singleton.mpr identifierAdded

theorem readOutput_grows :
    Grows Reader.program base reader (fun node after => base.Added after node)
      (readOutput reader) := by
  unfold readOutput
  refine .bind (expect_grows grown _ _) ?_
  intro first reader grown _ _
  refine .bind (readExpression_grows grown) ?_
  intro expression reader grown _ expressionAdded
  apply build_grows
  apply addNode_grows grown
  exact List.forall_mem_singleton.mpr expressionAdded

/-- A form that is read is an added node. -/
theorem read_grows (form : Form) :
    Grows Reader.program base reader (fun node after => base.Added after node)
      (form.read reader) := by
  cases form with
  | declaration => exact readDeclaration_grows grown
  | assignment => exact readAssignment_grows grown
  | input => exact readInput_grows grown
  | output => exact readOutput_grows grown
  | expression => exact readExpression_grows grown

/-- A statement that is read is an added node. -/
theorem readStatement_grows (forms : FormTable) :
    Grows Reader.program base reader (fun read after => base.Added after read.2)
      (readStatement forms reader) := by
  unfold readStatement
  rw [Running.bind_of_ok (Running.get_apply _)]
  cases reader.unread with
  | nil =>
      exact .throw grown _
  | cons first rest =>
      dsimp only
      cases forms first.kind with
      | none => exact .throw grown _
      | some form =>
          refine .bind (read_grows grown form) ?_
          intro statement after stillGrown _ statementAdded
          rw [Running.bind_of_ok (Running.get_apply _)]
          cases after.unread with
          | nil => exact .pure stillGrown statementAdded
          | cons token others => exact .throw stillGrown _

end

end Grammar
end ScriptLang
