import ScriptLang.Proofs.Grammar.Limit
import ScriptLang.Proofs.Typing.Inference

/-!
# The limit of the nesting

The depth that is kept beside every operand while an expression is read is the
nesting of the operators at its node, and never beyond the limit.  So in a parsed
program no expression is nested more deeply, inference and printing need no more
levels than that below a statement, and an expression is refused for its nesting
only when one level too much is about to be built.
-/

namespace ScriptLang

open Source (Position)

namespace Typing

open Running (Ends)

variable {base : Program}

/-! ## Inference changes types only -/

/-- An inference that succeeds changes types only. -/
def ChangesTypes (base : Program) : EStateM.Result Fault Program Ty -> Prop :=
  Ends (fun _ after => after.bare = base.bare) fun _ _ => True

theorem changesTypes_liftExcept
    {current : Program}
    (same : current.bare = base.bare)
    (result : Except Fault Ty) :
    ChangesTypes base ((liftExcept result : Inferring Ty) current) := by
  cases result with
  | ok ty => exact same
  | error fault => exact trivial

theorem formTy_changesTypes
    {inferPart : NodeId -> Inferring Ty} {current : Program}
    (parts : ∀ part current, current.bare = base.bare -> ChangesTypes base (inferPart part current))
    (position : Position) (form : ExpressionForm)
    (same : current.bare = base.bare) :
    ChangesTypes base (formTy inferPart position form current) := by
  cases form with
  | single leaf => exact parts leaf current same
  | unary operator operand =>
      apply (parts operand current same).bind
      intro operandTy after sameAfter
      exact changesTypes_liftExcept sameAfter _
  | binary operator left right =>
      apply (parts left current same).bind
      intro leftTy middle sameMiddle
      apply (parts right middle sameMiddle).bind
      intro rightTy after sameAfter
      exact changesTypes_liftExcept sameAfter _

theorem inferAt_changesTypes
    {current : Program}
    (depth : Nat) (id : NodeId)
    (same : current.bare = base.bare) :
    ChangesTypes base (inferAt depth id current) := by
  induction depth generalizing id current with
  | zero => exact trivial
  | succ depth inductionHypothesis =>
      rw [inferAt, Running.bind_of_ok (Running.get_apply _)]
      cases found : current.node id with
      | error fault => exact trivial
      | ok node =>
          rw [Running.bind_of_ok (Running.liftExcept_ok _ _)]
          cases isKind : node.kind with
          | leaf content => exact changesTypes_liftExcept same _
          | expression expression =>
              have typed := formTy_changesTypes (fun part _ => inductionHypothesis part)
                node.position expression.form same
              apply typed.bind
              intro ty after sameAfter
              exact (Program.bare_tag after id ty).trans sameAfter
          | _ => exact trivial

/-! ## The depth of an inference -/

/-- The type of an expression only depends on the inference of its parts. -/
theorem formTy_congr
    {first second : NodeId -> Inferring Ty} {form : ExpressionForm} {current : Program}
    (position : Position)
    (same : current.bare = base.bare)
    (parts : ∀ part ∈ form.children, ∀ current, current.bare = base.bare ->
      first part current = second part current)
    (changes : ∀ part current, current.bare = base.bare ->
      ChangesTypes base (second part current)) :
    formTy first position form current = formTy second position form current := by
  cases form with
  | single leaf => exact parts leaf List.mem_cons_self current same
  | unary operator operand =>
      have operandSame := parts operand List.mem_cons_self current same
      rw [formTy, formTy, Running.bind_apply, Running.bind_apply, operandSame]
  | binary operator left right =>
      have leftSame := parts left List.mem_cons_self current same
      have leftChanges := changes left current same
      rw [formTy, formTy, Running.bind_apply, leftSame, ← Running.bind_apply]
      apply Running.bind_congr
      intro leftTy middle inferred
      rw [inferred] at leftChanges
      have rightSame := parts right (List.mem_cons_of_mem _ List.mem_cons_self) middle leftChanges
      rw [Running.bind_apply, Running.bind_apply, rightSame]

/-- Inference at a node goes no deeper than the ways down from it. -/
theorem inferAt_of_within
    {height depth : Nat} {id : NodeId} {current : Program}
    (within : base.Within height id)
    (same : current.bare = base.bare)
    (deep : height ≤ depth) :
    inferAt depth id current = inferAt height id current := by
  induction height generalizing depth id current with
  | zero => exact absurd within Program.not_within_zero
  | succ height inductionHypothesis =>
      obtain ⟨less, rfl⟩ : ∃ less, depth = less + 1 := ⟨depth - 1, by omega⟩
      cases found : current.node? id with
      | none =>
          have missing : current.node id = .error (.missingNode id) := by rw [Program.node, found]
          simp only [inferAt, Running.bind_of_ok (Running.get_apply _), missing]
          rfl
      | some node =>
          have isNode : current.node id = .ok node := by rw [Program.node, found]
          cases isKind : node.kind with
          | expression expression =>
              have parts : ∀ part ∈ expression.form.children, ∀ current, current.bare = base.bare ->
                  inferAt less part current = inferAt height part current := by
                intro part isPart other sameOther
                have isChild : base.Child id part := (Program.child_iff_of_bare_eq same id part).mp
                  ⟨node, found, by rw [isKind]; exact isPart⟩
                exact inductionHypothesis (Program.within_succ_iff.mp within part isChild) sameOther
                  (Nat.le_of_succ_le_succ deep)
              have sameTy := formTy_congr node.position same parts
                fun part _ => inferAt_changesTypes height part
              rw [inferAt_of_expression less isNode isKind,
                inferAt_of_expression height isNode isKind, sameTy]
          | _ =>
              simp only [inferAt, Running.bind_of_ok (Running.get_apply _), isNode,
                Running.bind_of_ok (Running.liftExcept_ok _ _), isKind]

end Typing

namespace Grammar

open Typing (inferAt infer)

/-- The limit of the nesting is exact.  At every point of reading tokens into a program, the depth
of an operand that waits is the nesting of the operators at its node, which is at most 512.  So in
a parsed program every expression is nested at most 512 levels, and below a statement no way down,
no inference and no printing goes through more than 513 nodes, whatever types and symbols have been
found.  An expression is refused for its nesting exactly if a subtree of 513 levels is about to be
built, and whole programs are refused only for such an expression. -/
theorem nesting_limit :
    (∀ program tokens rest waiting current, Passes program tokens rest waiting current ->
      ∀ operand ∈ waiting.operands,
        current.nesting? operand.node = some operand.depth ∧ operand.depth ≤ 512) ∧
    (∀ tokens file program, parse tokens file = .ok program ->
      (∀ id, program.IsExpression id -> ∃ depth ≤ 512, program.nesting? id = some depth) ∧
      ∀ current : Program, current.bare = program.bare ->
        ∀ statement ∈ program.statements, ∀ part, program.Child statement part ->
          current.Within 513 part ∧
          ∀ depth ≥ 513, inferAt depth part current = infer part current ∧
            current.nodeText depth part = current.nodeText 513 part) ∧
    (∀ program tokens position place,
      (∃ after, parseExpression tokens position program =
        .error (.ofSyntax .nestedTooDeeply place) after) ↔ Exceeds program tokens place) ∧
    (∀ tokens file place, parse tokens file = .error (.ofSyntax .nestedTooDeeply place) ->
      ∃ expression, expression <:+: tokens ∧ ∀ program, Exceeds program expression place) := by
  refine ⟨fun _ _ _ _ _ passes _ member => passes.nesting?_of_mem member, ?_,
    parseExpression_tooDeep_iff, ?_⟩
  · intro tokens file program parsed
    refine ⟨fun id => exists_nesting?_of_parse parsed, ?_⟩
    intro current same statement isStatement part isPart
    obtain ⟨height, within, atMost, inProgram⟩ :=
      exists_within_of_parse parsed same isStatement isPart
    refine ⟨within.mono atMost, fun depth deep => ⟨?_, ?_⟩⟩
    · calc inferAt depth part current
        _ = inferAt height part current :=
            Typing.inferAt_of_within within rfl (Nat.le_trans atMost deep)
        _ = infer part current :=
            (Typing.inferAt_of_within within rfl (Nat.le_succ_of_le inProgram)).symm
    · calc current.nodeText depth part
        _ = current.nodeText height part :=
            Program.nodeText_of_within within (Nat.le_trans atMost deep)
        _ = current.nodeText 513 part := (Program.nodeText_of_within within atMost).symm
  · intro tokens file place refused
    obtain ⟨expression, isPart, isRefused⟩ := (parse_blames tokens file).fault refused place rfl
    exact ⟨expression, isPart, fun program =>
      (exceeds_iff_readAll program expression place).mpr isRefused⟩

end Grammar
end ScriptLang
