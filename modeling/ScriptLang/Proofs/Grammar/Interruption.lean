import ScriptLang.Proofs.Grammar.Blocks
import ScriptLang.Proofs.Grammar.Whole

/-!
# Interrupted sessions

Whatever a parser has been asked to do, its program is closed.  So when the parsing of a
block stops, no way leads from the block to the nodes that the refused statement has left
behind, and none back.
-/

namespace ScriptLang

open Source (Position)

namespace Running

/-- The state that a result leaves, whether it is a value or a fault. -/
def Leaves {ε σ α : Type} (result : EStateM.Result ε σ α) (after : σ) : Prop :=
  (∃ value, result = .ok value after) ∨ ∃ fault, result = .error fault after

/-- A condition that holds in either case holds of the state that is left. -/
theorem Ends.of_leaves
    {ε σ α : Type} {holds : σ -> Prop} {result : EStateM.Result ε σ α} {after : σ}
    (ends : Ends (fun _ last => holds last) (fun _ last => holds last) result)
    (leaves : Leaves result after) :
    holds after := by
  rcases leaves with ⟨value, rfl⟩ | ⟨fault, rfl⟩
  · exact ends
  · exact ends

end Running

open Running (Leaves)

namespace Grammar
namespace Session

/-- What a parser may be asked to do in a session. -/
inductive Operation : {α : Type} -> Parsing α -> Prop
  | advance : Operation advance
  | expect (kind : TokenKind) (expectation : Expectation) :
      Operation (run (Grammar.expect kind expectation))
  | takeRemaining : Operation takeRemaining
  | addNode (kind : NodeKind) (position : Position) :
      Operation (run (build (Program.addNode kind position)))
  | addLeaf (token : Token) : Operation (run (build (Grammar.addLeaf token)))
  | call (form : Form) : Operation (call form)
  | parseBlock (block : NodeId) (start stop : Nat) : Operation (parseBlock block start stop)

/-- The sessions that a parser can come to. -/
inductive Reached : Session -> Prop
  | new (tokens : List Token) (file : String) : Reached (Session.new tokens file)
  | register
      {session : Session} (reached : Reached session) (kind : TokenKind) (form : Form) :
      Reached (session.register kind form)
  | registerStandard
      {session : Session} (reached : Reached session) : Reached session.registerStandard
  | operate
      {session after : Session} {α : Type} {action : Parsing α}
      (reached : Reached session)
      (operation : Operation action)
      (leaves : Leaves (action session) after) :
      Reached after

/-! ## Closed programs -/

/-- An action keeps a closed program closed. -/
def KeepsClosed {σ α : Type} (view : σ -> Program) (action : EStateM Fault σ α) : Prop :=
  ∀ state, (view state).Closed ->
    Running.Ends (fun _ after => (view after).Closed) (fun _ after => (view after).Closed)
      (action state)

namespace KeepsClosed

variable {σ α β : Type} {view : σ -> Program}

theorem bind
    {first : EStateM Fault σ α} {next : α -> EStateM Fault σ β}
    (keeps : KeepsClosed view first)
    (nextKeeps : ∀ value, KeepsClosed view (next value)) :
    KeepsClosed view (first >>= next) :=
  fun state closed => (keeps state closed).bind fun value after stillClosed =>
    nextKeeps value after stillClosed

/-- What only grows behind a closed program keeps it closed. -/
theorem of_grows
    {good : σ -> α -> Program -> Prop} {action : EStateM Fault σ α}
    (grows : ∀ state, Grows view (view state) state (good state) (action state)) :
    KeepsClosed view action :=
  fun state closed => (grows state).imp (fun _ _ holds => holds.1.closed closed)
    fun _ _ grown => grown.closed closed

theorem run
    {action : Reading α}
    (keeps : KeepsClosed Reader.program action) :
    KeepsClosed Session.program (Session.run action) := by
  intro session closed
  have ends := keeps session.reader closed
  unfold Session.run
  cases result : action session.reader with
  | ok value reader =>
      rw [result] at ends
      exact ends
  | error fault reader =>
      rw [result] at ends
      exact ends

end KeepsClosed

theorem keepsClosed_addNode (kind : NodeKind) (position : Position) :
    KeepsClosed Reader.program (build (Program.addNode kind position)) := by
  intro reader closed
  unfold build Program.addNode
  cases added : reader.program.add kind position with
  | ok after => exact closed.add added
  | error fault => exact closed

theorem keepsClosed_parseChunk (block : NodeId) (chunk : Chunk) :
    KeepsClosed Session.program (parseChunk block chunk) := by
  intro session closed
  let start : Reader := ⟨chunk.tokens, chunk.semicolon.span.start, session.program⟩
  have unchanged : session.program.GrownFrom start.program := .refl session.program
  have grows := readStatement_grows unchanged session.forms
  unfold parseChunk
  dsimp only
  cases read : readStatement session.forms start with
  | error fault reader =>
      rw [read] at grows
      exact grows.closed closed
  | ok result reader =>
      rw [read] at grows
      have stillClosed := grows.1.closed closed
      dsimp only
      rcases pushed : reader.program.pushStatement block result.2 with fault | _ | after
      · exact stillClosed
      · exact stillClosed
      · exact stillClosed.pushStatement pushed

theorem keepsClosed_parseChunks (block : NodeId) (list : List Chunk) :
    KeepsClosed Session.program (parseChunks block list) := by
  induction list with
  | nil => exact fun _ closed => closed
  | cons chunk rest inductionHypothesis =>
      exact (keepsClosed_parseChunk block chunk).bind fun _ => inductionHypothesis

/-- Statements that are completed keep a closed program closed. -/
theorem Completes.closed
    {block : NodeId} {session last : Session} {list : List Chunk} {statements : List NodeId}
    (completes : Completes block session list statements last)
    (closed : session.program.Closed) :
    last.program.Closed := by
  induction completes with
  | nil session => exact closed
  | @cons session next last chunk rest first statement statements reader read parsed _
      inductionHypothesis =>
      have ends := keepsClosed_parseChunk block chunk session closed
      rw [parsed] at ends
      exact inductionHypothesis ends

theorem keepsClosed_refuseTrailing (trailing : List Token) :
    KeepsClosed Session.program (refuseTrailing trailing) := by
  intro session closed
  unfold refuseTrailing
  cases trailing.getLast? <;> exact closed

theorem keepsClosed_parseBlock (block : NodeId) (start stop : Nat) :
    KeepsClosed Session.program (parseBlock block start stop) := by
  intro session closed
  unfold parseBlock
  rw [Running.bind_of_ok (Running.get_apply _)]
  dsimp only
  split
  · exact closed
  · exact ((keepsClosed_parseChunks block _).bind fun _ => keepsClosed_refuseTrailing _)
      { session with index := start } closed

/-- Every operation keeps a closed program closed. -/
theorem Operation.keepsClosed
    {α : Type} {action : Parsing α}
    (operation : Operation action) :
    KeepsClosed Session.program action := by
  cases operation with
  | advance =>
      intro session closed
      exact closed
  | expect kind expectation =>
      exact .run (.of_grows fun reader => expect_grows (.refl reader.program) kind expectation)
  | takeRemaining =>
      intro session closed
      exact closed
  | addNode kind position => exact (keepsClosed_addNode kind position).run
  | addLeaf token =>
      exact .run (.of_grows fun reader =>
        build_grows (addLeaf_grows (.refl reader.program) token))
  | call form =>
      intro session closed
      have keeps : KeepsClosed Session.program (run form.read) :=
        .run (.of_grows fun reader => read_grows (.refl reader.program) form)
      have ends := keeps session closed
      unfold Session.call
      dsimp only
      cases result : run form.read session with
      | ok node after =>
          rw [result] at ends
          dsimp only
          split <;> exact ends
      | error fault after =>
          rw [result] at ends
          dsimp only
          split <;> exact ends
  | parseBlock block start stop => exact keepsClosed_parseBlock block start stop

/-- The program of every session that a parser can come to is closed. -/
theorem Reached.closed
    {session : Session}
    (reached : Reached session) :
    session.program.Closed := by
  induction reached with
  | new tokens file => exact Program.closed_empty _
  | register _ kind form inductionHypothesis => exact inductionHypothesis
  | registerStandard _ inductionHypothesis => exact inductionHypothesis
  | operate _ operation leaves inductionHypothesis =>
      exact (operation.keepsClosed _ inductionHypothesis).of_leaves leaves

end Session

/-- An interrupted block keeps exactly its completed statements.  If the parsing of a block is
refused for its range, then nothing has changed.  If it stops later, then the statements completed
so far stand at the end of the block and have it as their parent, all other former nodes are as
they were, the nodes of the completed statements are as they were when these were completed, and no
way leads from the block down to the nodes that have been added since then, or from them up to
it. -/
theorem parseBlock_interrupted
    {session after : Session} {block start stop : Nat} {fault : Fault}
    {old : List NodeId} {symbols : SymbolTable} {position : Position} {parent? : Option NodeId}
    (reached : Session.Reached session)
    (isBlock : session.program.node? block = some ⟨.codeBlock old symbols, position, parent?⟩)
    (failed : Session.parseBlock block start stop session = .error fault after) :
    ((start ≥ stop ∨ stop > session.tokens.length) -> after = session) ∧
    (¬ (start ≥ stop ∨ stop > session.tokens.length) ->
      ∃ done rest trailing statements middle,
        chunks ((session.tokens.drop start).take (stop - start)) = (done ++ rest, trailing) ∧
        Session.Completes block { session with index := start } done statements middle ∧
        Session.Stops block middle fault after rest trailing ∧
        after.program.node? block =
          some ⟨.codeBlock (old ++ statements) symbols, position, parent?⟩ ∧
        (∀ statement ∈ statements, after.program.parent? statement = some block) ∧
        (∀ id : Nat, id < session.program.size -> id ≠ block ->
          after.program.node? id = session.program.node? id) ∧
        (∀ id : Nat, id < middle.program.size ->
          after.program.node? id = middle.program.node? id) ∧
        ∀ id : Nat, middle.program.size ≤ id ->
          ¬ after.program.Under block id ∧ ¬ after.program.ClimbsTo id block) := by
  constructor
  · intro outOfRange
    rw [Session.parseBlock, Running.bind_of_ok (Running.get_apply _)] at failed
    simp only [if_pos outOfRange] at failed
    cases failed
    rfl
  · intro inRange
    obtain ⟨done, rest, trailing, statements, middle, areChunks, completes, stops⟩ :=
      Session.exists_of_parseBlock_eq_error inRange failed
    have isFormer : block < session.program.size := (Array.getElem?_eq_some_iff.mp isBlock).1
    let restarted : Session := { session with index := start }
    have isBlockThere : restarted.program.node? block =
        some ⟨.codeBlock old symbols, position, parent?⟩ := isBlock
    -- The block is filled up to where the parsing stops.  From there on nodes only grow behind all
    -- others.
    have completed : Program.Filled block statements session.program middle.program :=
      completes.filled isBlockThere
    have stillFormer := Nat.lt_of_lt_of_le isFormer completed.size_le
    have grown := stops.grownFrom (completed.content _ _ _ _ isBlock)
    have filled := completed.append (.of_grownFrom grown stillFormer) isFormer
    rw [List.append_nil] at filled
    refine ⟨done, rest, trailing, statements, middle, areChunks, completes, stops,
      filled.content _ _ _ _ isBlock, fun statement member => (filled.attached statement member).2,
      filled.others, grown.former, fun id isLeft => ⟨fun under => ?_, fun climbs => ?_⟩⟩
    · have inFront := grown.lt_of_under (completes.closed reached.closed) stillFormer under
      exact Nat.not_lt_of_le isLeft inFront
    · exact Nat.not_lt_of_le (grown.le_of_climbsTo isLeft climbs) stillFormer

/-- A statement in front of one with an open parenthesis. -/
theorem parseBlock_interrupted_of_parenthesis :
    ∃ tokens fault after statements middle position,
      Token.tokenize "declare x = 1; declare y = (2 + 3; stdout x;" "" = .ok tokens ∧
      Session.parseBlock 0 0 tokens.length (Session.new tokens "").registerStandard =
        .error fault after ∧
      after.program.node? 0 = some ⟨.codeBlock statements .empty, position, some 1⟩ ∧
      (∀ statement ∈ statements, after.program.parent? statement = some 0) ∧
      ∀ id : Nat, Program.size middle ≤ id ->
        ¬ after.program.Under 0 id ∧ ¬ after.program.ClimbsTo id 0 := by
  have seen : (Token.tokenize "declare x = 1; declare y = (2 + 3; stdout x;" "").toOption.map
      (fun tokens => (tokens.length, (parse tokens "").isOk)) = some (16, false) := by
    decide +kernel
  cases tokenized : Token.tokenize "declare x = 1; declare y = (2 + 3; stdout x;" "" with
  | error diagnostic =>
      rw [tokenized] at seen
      cases seen
  | ok tokens =>
      rw [tokenized] at seen
      obtain ⟨length, refused⟩ := Prod.mk.inj (Option.some.inj seen)
      let session := (Session.new tokens "").registerStandard
      have nonempty : session.tokens.isEmpty = false := by
        rw [List.isEmpty_eq_false_iff, ← List.length_pos_iff]
        exact Nat.lt_of_lt_of_eq (Nat.succ_pos 15) length.symm
      cases failed : Session.parseBlock 0 0 tokens.length session with
      | ok result after =>
          have block : Session.parseBlock session.program.code 0 session.tokens.length session =
              .ok result after := failed
          rw [parse, parseLogged, parseProgram_apply session nonempty, block] at refused
          cases refused
      | error fault after =>
          have reached : Session.Reached session := .registerStandard (.new tokens "")
          obtain ⟨_, interrupted⟩ := parseBlock_interrupted reached rfl failed
          have inRange : ¬ (0 ≥ tokens.length ∨ tokens.length > session.tokens.length) := by
            have size : session.tokens.length = tokens.length := rfl
            omega
          obtain ⟨_, _, _, statements, middle, _, _, _, content, attached, _, _, apart⟩ :=
            interrupted inRange
          exact ⟨tokens, fault, after, statements, middle.program, _, rfl, failed, content,
            attached, apart⟩

end Grammar
end ScriptLang
