import ScriptLang.Proofs.Program.Restated
import ScriptLang.Proofs.Typing.Runs

/-!
# Analysis of restated programs

The analysis looks at the form of a statement once, when it comes to it.  A statement of
a given form therefore does the same in a program and in one whose statements have been
given other forms.
-/

namespace ScriptLang

open Source (Position)

namespace Running

variable {ε σ α β : Type}

/-- A result with a change of the state that it leaves. -/
def mapState (view : σ -> σ) : EStateM.Result ε σ α -> EStateM.Result ε σ α
  | .ok value state => .ok value (view state)
  | .error fault state => .error fault (view state)

/-- An action does the same in a state as in a view of it. -/
def SeenThrough (view : σ -> σ) (action : EStateM ε σ α) : Prop :=
  ∀ state, action (view state) = mapState view (action state)

namespace SeenThrough

variable {view : σ -> σ}

theorem pure (value : α) : SeenThrough view (Pure.pure value : EStateM ε σ α) :=
  fun _ => rfl

theorem throw (fault : ε) : SeenThrough view (MonadExcept.throw fault : EStateM ε σ α) :=
  fun _ => rfl

theorem lift (result : Except ε α) :
    SeenThrough view (liftExcept result : EStateM ε σ α) := by
  intro state
  cases result <;> rfl

theorem bind
    {first : EStateM ε σ α} {next : α -> EStateM ε σ β}
    (firstSeen : SeenThrough view first)
    (nextSeen : ∀ value, SeenThrough view (next value)) :
    SeenThrough view (first >>= next) := by
  intro state
  rw [bind_apply, bind_apply, firstSeen state]
  cases first state with
  | ok value after => exact nextSeen value after
  | error fault after => rfl

end SeenThrough
end Running

open Running (SeenThrough)

namespace Typing

variable (change : NodeId -> Statement -> Statement)

/-- The state of an analysis of a restated program. -/
def State.restated (state : State) : State :=
  { state with program := state.program.restated change }

/-! ## Inference -/

theorem leafTy_restated (program : Program) (id : NodeId) (position : Position) (content : Leaf) :
    leafTy (program.restated change) id position content = leafTy program id position content := by
  cases content with
  | literal value => rfl
  | typeKeyword ty => rfl
  | identifier name =>
      have sameSymbol := (program.looksLike_restated change).resolve_eq id name position
      rw [leafTy, leafTy, sameSymbol]

theorem formTy_seenThrough
    {inferPart : NodeId -> Inferring Ty}
    (partsSeen : ∀ id, SeenThrough (Program.restated change) (inferPart id))
    (position : Position) (form : ExpressionForm) :
    SeenThrough (Program.restated change) (formTy inferPart position form) := by
  cases form with
  | single leaf => exact partsSeen leaf
  | unary operator operand => exact (partsSeen operand).bind fun _ => .lift _
  | binary operator left right =>
      exact (partsSeen left).bind fun _ => (partsSeen right).bind fun _ => .lift _

theorem inferAt_seenThrough (depth : Nat) (id : NodeId) :
    SeenThrough (Program.restated change) (inferAt depth id) := by
  induction depth generalizing id with
  | zero => exact .throw _
  | succ depth inductionHypothesis =>
      intro program
      rw [inferAt, Running.bind_of_ok (Running.get_apply _),
        Running.bind_of_ok (Running.get_apply _), Program.node, Program.node,
        Program.node?_restated]
      rcases program.node? id with _ | ⟨kind, position, parent?⟩
      · rfl
      · cases kind with
        | expression expression =>
            apply (formTy_seenThrough change inductionHypothesis position expression.form).bind
            intro ty state
            exact congrArg (EStateM.Result.ok ty) (Program.tag_restated change state id ty)
        | leaf content =>
            change (liftExcept (leafTy (program.restated change) id position content) :
              Inferring Ty) (program.restated change) = _
            rw [leafTy_restated]
            exact SeenThrough.lift _ program
        | program code => rfl
        | codeBlock statements symbols => rfl
        | statement content => rfl

theorem infer_seenThrough (id : NodeId) : SeenThrough (Program.restated change) (infer id) := by
  intro program
  rw [infer, Running.bind_of_ok (Running.get_apply _), Running.bind_of_ok (Running.get_apply _),
    Program.size_restated]
  exact inferAt_seenThrough change _ id program

/-! ## Steps of statements -/

section

variable {α : Type}

theorem inferring_seenThrough
    {action : Inferring α}
    (seen : SeenThrough (Program.restated change) action) :
    SeenThrough (State.restated change) (inferring action) := by
  intro state
  rw [inferring, inferring, State.restated, seen state.program]
  cases action state.program <;> rfl

theorem lookingUp_seenThrough
    {query : Program -> Except Fault α}
    (same : ∀ program : Program, query (program.restated change) = query program) :
    SeenThrough (State.restated change) (lookingUp query) := by
  intro state
  rw [lookingUp_apply, lookingUp_apply, State.restated, same state.program]
  cases query state.program <;> rfl

/-- A node is looked up for its place. -/
theorem lookingUp_node_seenThrough
    {next : Position -> Analyzing α}
    (nextSeen : ∀ position, SeenThrough (State.restated change) (next position))
    (id : NodeId) :
    SeenThrough (State.restated change)
      (lookingUp (fun program => program.node id) >>= fun node => next node.position) := by
  intro state
  rw [Running.bind_apply, Running.bind_apply, lookingUp_apply, lookingUp_apply, State.restated,
    Program.node, Program.node, Program.node?_restated]
  rcases state.program.node? id with _ | node
  · rfl
  · exact nextSeen node.position state

/-- A program is looked up and kept. -/
theorem lookingUp_program_seenThrough
    {query : Program -> Except Fault Program}
    (commutes : ∀ program : Program,
      query (program.restated change) = (query program).map (Program.restated change)) :
    SeenThrough (State.restated change)
      (lookingUp query >>= fun program =>
        modify fun state => { state with program := program }) := by
  intro state
  rw [Running.bind_apply, Running.bind_apply, lookingUp_apply, lookingUp_apply, State.restated,
    commutes state.program]
  cases query state.program <;> rfl

theorem report_seenThrough (event : Event) :
    SeenThrough (State.restated change) (report event) :=
  fun _ => rfl

end

theorem identifierName_restated (id : NodeId) (program : Program) :
    identifierName (program.restated change) id = identifierName program id := by
  rw [identifierName, identifierName, Program.node, Program.node, Program.node?_restated]
  rcases program.node? id with _ | ⟨kind, position, parent?⟩
  · rfl
  · cases kind <;> rfl

theorem keywordTy_restated (id : NodeId) (program : Program) :
    keywordTy (program.restated change) id = keywordTy program id := by
  rw [keywordTy, keywordTy, Program.node, Program.node, Program.node?_restated]
  rcases program.node? id with _ | ⟨kind, position, parent?⟩
  · rfl
  · cases kind <;> rfl

theorem declaredTy_seenThrough
    (name : String) (position : Position) (typeKeyword expression : Option NodeId) :
    SeenThrough (State.restated change) (declaredTy name position typeKeyword expression) := by
  cases typeKeyword with
  | none =>
      cases expression with
      | none => exact .throw _
      | some expression =>
          exact (inferring_seenThrough change (infer_seenThrough change expression)).bind
            fun _ => .pure _
  | some keyword =>
      have keywordSeen : SeenThrough (State.restated change)
          (lookingUp fun program => keywordTy program keyword) :=
        lookingUp_seenThrough change (keywordTy_restated change keyword)
      cases expression with
      | none => exact keywordSeen.bind fun _ => .pure _
      | some expression =>
          apply keywordSeen.bind
          intro declared
          apply (inferring_seenThrough change (infer_seenThrough change expression)).bind
          intro inferred
          split
          · exact .pure _
          · exact lookingUp_node_seenThrough change (fun _ => .throw _) expression

theorem declareSymbol_seenThrough (start : NodeId) (symbol : Symbol) (position : Position) :
    SeenThrough (State.restated change) (declareSymbol start symbol position) := by
  apply (lookingUp_seenThrough change fun program =>
    (program.looksLike_restated change).enclosingScope_eq start).bind
  intro scope
  apply (report_seenThrough change _).bind
  intro _
  exact lookingUp_program_seenThrough change fun program =>
    program.declareIn_restated change scope symbol position

theorem resolveTarget_seenThrough (statement identifier : NodeId) (name : String) :
    SeenThrough (State.restated change) (resolveTarget statement identifier name) := by
  have resolveSeen (position : Position) : SeenThrough (State.restated change)
      (lookingUp fun program => program.resolve statement name position) :=
    lookingUp_seenThrough change fun program =>
      (program.looksLike_restated change).resolve_eq statement name position
  exact lookingUp_node_seenThrough change resolveSeen identifier

theorem markInitialized_seenThrough (scope : NodeId) (name : String) (position : Position) :
    SeenThrough (State.restated change) (markInitialized scope name position) := by
  intro state
  rw [markInitialized, Running.bind_apply, Running.bind_apply, lookingUp_apply, lookingUp_apply,
    State.restated, Program.markInitialized_restated]
  rcases state.program.markInitialized scope name with fault | _ | ⟨_ | _, program⟩ <;> rfl

/-! ## Statements -/

/-- A statement of a given form does the same whatever forms the statements of its program
have. -/
theorem analyzeForm_seenThrough (id : NodeId) (position : Position) (statement : Statement) :
    SeenThrough (State.restated change) (analyzeForm id position statement) := by
  have nameSeen (identifier : NodeId) : SeenThrough (State.restated change)
      (lookingUp fun program => identifierName program identifier) :=
    lookingUp_seenThrough change (identifierName_restated change identifier)
  have inferSeen := fun expression =>
    inferring_seenThrough change (infer_seenThrough change expression)
  cases statement with
  | declaration identifier typeKeyword expression =>
      apply (nameSeen identifier).bind
      intro name
      apply (declaredTy_seenThrough change name position typeKeyword expression).bind
      intro declared
      exact declareSymbol_seenThrough change id _ position
  | assignment identifier expression =>
      apply (nameSeen identifier).bind
      intro name
      apply (resolveTarget_seenThrough change id identifier name).bind
      rintro ⟨scope, symbol⟩
      apply (inferSeen expression).bind
      intro inferred
      split
      · exact markInitialized_seenThrough change scope name position
      · exact lookingUp_node_seenThrough change (fun _ => .throw _) expression
  | input identifier =>
      apply (nameSeen identifier).bind
      intro name
      apply (resolveTarget_seenThrough change id identifier name).bind
      rintro ⟨scope, symbol⟩
      exact markInitialized_seenThrough change scope name position
  | output expression =>
      apply (inferSeen expression).bind
      intro ty
      exact .pure _

/-! ## Runs -/

/-- A statement is analyzed in its form. -/
theorem analyzeStatement_eq_ok_iff (id : NodeId) (state after : State) :
    analyzeStatement id state = .ok () after ↔
      ∃ content position parent?,
        state.program.node? id = some ⟨.statement content, position, parent?⟩ ∧
        analyzeForm id position content state = .ok () after := by
  rw [analyzeStatement, Running.bind_of_outcome (lookingUp_apply _ _), Program.node]
  rcases state.program.node? id with _ | ⟨kind, position, parent?⟩
  · constructor
    · intro done
      cases done
    · rintro ⟨_, _, _, ⟨⟩, _⟩
  · cases kind with
    | statement content =>
        constructor
        · exact fun done => ⟨content, position, parent?, rfl, done⟩
        · rintro ⟨_, _, _, ⟨⟩, done⟩
          exact done
    | _ =>
        constructor
        · intro done
          cases done
        · rintro ⟨_, _, _, ⟨⟩, _⟩

/-- Where an analysis comes to a statement, it could as well find that in another form. -/
def Restatable
    (change : NodeId -> Statement -> Statement)
    (ids : List NodeId)
    (state : State) : Prop :=
  ∀ (front rest : List NodeId) (id : NodeId) (before after : State)
    (content : Statement) (position : Position) (parent? : Option NodeId),
    ids = front ++ id :: rest -> analyzeAll front state = .ok () before ->
    before.program.node? id = some ⟨.statement content, position, parent?⟩ ->
    analyzeForm id position content before = .ok () after ->
    analyzeForm id position (change id content) before = .ok () after

section

variable {change : NodeId -> Statement -> Statement}

/-- One statement is analyzed in its new form. -/
theorem analyzeStatement_restated
    {id : NodeId} {content : Statement} {position : Position} {parent? : Option NodeId}
    {state after : State}
    (found : state.program.node? id = some ⟨.statement content, position, parent?⟩)
    (done : analyzeForm id position (change id content) state = .ok () after) :
    analyzeStatement id (state.restated change) = .ok () (after.restated change) := by
  refine (analyzeStatement_eq_ok_iff _ _ _).mpr ⟨change id content, position, parent?, ?_, ?_⟩
  · rw [State.restated, Program.node?_restated, found]
    rfl
  · rw [analyzeForm_seenThrough change id position (change id content) state, done]
    rfl

/-- All statements are analyzed in their new forms. -/
theorem Restatable.analyzeAll
    {ids : List NodeId} {state final : State}
    (restatable : Restatable change ids state)
    (run : analyzeAll ids state = .ok () final) :
    analyzeAll ids (state.restated change) = .ok () (final.restated change) := by
  induction ids generalizing state with
  | nil =>
      cases run
      rfl
  | cons first rest inductionHypothesis =>
      rw [Typing.analyzeAll, Running.bind_eq_ok_iff] at run
      obtain ⟨_, middle, firstDone, restDone⟩ := run
      obtain ⟨content, position, parent?, found, done⟩ :=
        (analyzeStatement_eq_ok_iff _ _ _).mp firstDone
      have here := restatable [] rest first state middle content position parent? rfl rfl found done
      have later : Restatable change rest middle := by
        intro front behind id before after content position parent? isRest frontDone
        apply restatable (first :: front) behind id before after content position parent?
          (congrArg (first :: ·) isRest)
        rw [Typing.analyzeAll, Running.bind_of_ok firstDone]
        exact frontDone
      rw [Typing.analyzeAll, Running.bind_of_ok (analyzeStatement_restated found here)]
      exact inductionHypothesis later restDone

/-- A program is accepted with its statements in their new forms. -/
theorem Restatable.analyze
    {program : Program}
    (restatable : Restatable change program.statements
      ⟨program, [.analyzing program.statements.length]⟩)
    (accepted : (analyze program).result = .ok ()) :
    (Typing.analyze (program.restated change)).result = .ok () ∧
      (Typing.analyze (program.restated change)).program =
        (Typing.analyze program).program.restated change := by
  obtain ⟨later, run⟩ := (exists_analyzeAll_iff program _).mp ⟨accepted, rfl⟩
  refine (exists_analyzeAll_iff _ _).mpr ⟨later, ?_⟩
  rw [Program.statements_restated]
  exact restatable.analyzeAll run

end

end Typing

/-- The forms of statements show in no recorded type and in no symbol. -/
theorem Program.sameTyping_restated
    (change : NodeId -> Statement -> Statement) (program : Program) :
    program.SameTyping (program.restated change) where
  recorded := by
    intro id
    rw [recordedTy?, recordedTy?, kind?_restated]
    cases program.kind? id with
    | none => rfl
    | some kind => cases kind <;> rfl
  symbols := (symbols_restated change program).symm

end ScriptLang
