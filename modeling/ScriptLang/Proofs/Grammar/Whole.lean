import ScriptLang.Grammar.Session
import ScriptLang.Proofs.Grammar.Sentence
import ScriptLang.Proofs.Program.Assembly
import ScriptLang.Token.Tokenize

/-!
# Reading whole programs as trees

The trees of all statements of a token list.  The main statement says that parsing
a token list gives the program that is assembled from these trees, or fails with
the same fault.
-/

namespace ScriptLang
namespace Grammar

open Source (Position)

namespace Sentence

/-- The trees of statements whose first node would have number `start`. -/
def readChunks (start : Nat) : List Chunk -> Except Fault (List StatementTree)
  | [] => .ok []
  | chunk :: rest => do
      let statement ← read start chunk.semicolon.span.start chunk.tokens
      let others ← readChunks (start + statement.descendants + 1) rest
      return statement :: others

/-- Refuse tokens that no semicolon follows. -/
def refuseTrailing (trailing : List Token) : Except Fault Unit :=
  match trailing.getLast? with
  | none => .ok ()
  | some last => .error (.ofSyntax (.missingSemicolon last.value) last.span.stop)

/-- The trees of all statements of a token list. -/
def readProgram (tokens : List Token) (file : String) : Except Fault (List StatementTree) :=
  if tokens.isEmpty then .error (.ofSyntax .emptyProgram (.start file))
  else do
    let statements ← readChunks 2 (chunks tokens).1
    refuseTrailing (chunks tokens).2
    return statements

/-- The place where a program starts. -/
def startOf (tokens : List Token) (file : String) : Position :=
  (tokens.head?.map fun token => token.span.start).getD (.start file)

end Sentence

/-- The program of given statements before any type has been inferred. -/
def untaggedProgram (position : Position) (statements : List StatementTree) : Program :=
  Program.assemble position .empty (statements.map Tagged.plain)

/-- Parsing a chunk puts its statement behind those that are parsed already. -/
theorem parseChunk_mirrors
    (position : Position) (statements : List StatementTree) (chunk : Chunk) (session : Session)
    (standard : session.forms = FormTable.standard)
    (program : session.program = untaggedProgram position statements) :
    match Sentence.read session.program.size chunk.semicolon.span.start chunk.tokens with
    | .ok statement =>
        ∃ index limit log, Session.parseChunk 0 chunk session = .ok ()
          { session with
            index := index
            limit := limit
            log := log
            program := untaggedProgram position (statements ++ [statement]) }
    | .error fault => ∃ after, Session.parseChunk 0 chunk session = .error fault after := by
  obtain ⟨tokens, semicolon⟩ := chunk
  cases tokens with
  | nil => exact ⟨_, rfl⟩
  | cons first rest =>
      have mirrors := readStatement_mirrors semicolon.span.start session.program first rest
      unfold Session.parseChunk
      rw [standard]
      dsimp only
      cases read : Sentence.read session.program.size semicolon.span.start (first :: rest) with
      | error fault =>
          rw [read] at mirrors
          obtain ⟨unread, nodes, failed⟩ := mirrors
          rw [failed]
          exact ⟨_, rfl⟩
      | ok statement =>
          rw [read] at mirrors
          unfold ReadingMirrors wholePicture at mirrors
          rw [mirrors]
          have pushed := Program.pushStatement_assemble position .empty
            (statements.map Tagged.plain) (.plain statement)
          simp only [untaggedProgram] at program
          simp only [← program] at pushed
          simp only [Tagged.plain] at pushed
          simp only [pushed]
          refine ⟨session.index + (first :: rest).length + 1,
            session.index + (first :: rest).length, session.log ++ [.parsedStatement first], ?_⟩
          simp only [untaggedProgram, List.map_append, List.map_cons, List.map_nil]
          rfl

/-- Parsing chunks puts their statements behind those that are parsed already. -/
theorem parseChunks_mirrors
    (position : Position) (rest : List Chunk) (statements : List StatementTree)
    (session : Session)
    (standard : session.forms = FormTable.standard)
    (program : session.program = untaggedProgram position statements) :
    match Sentence.readChunks session.program.size rest with
    | .ok others =>
        ∃ index limit log, Session.parseChunks 0 rest session = .ok ()
          { session with
            index := index
            limit := limit
            log := log
            program := untaggedProgram position (statements ++ others) }
    | .error fault => ∃ after, Session.parseChunks 0 rest session = .error fault after := by
  induction rest generalizing statements session with
  | nil =>
      refine ⟨session.index, session.limit, session.log, ?_⟩
      rw [List.append_nil, ← program]
      rfl
  | cons chunk rest inductionHypothesis =>
      have first := parseChunk_mirrors position statements chunk session standard program
      unfold Sentence.readChunks Session.parseChunks
      cases read : Sentence.read session.program.size chunk.semicolon.span.start chunk.tokens with
      | error fault =>
          rw [read] at first
          obtain ⟨after, failed⟩ := first
          rw [Running.bind_of_error failed]
          exact ⟨after, rfl⟩
      | ok statement =>
          rw [read] at first
          obtain ⟨index, limit, log, done⟩ := first
          rw [Running.bind_of_ok done, ok_bind]
          have size : (untaggedProgram position (statements ++ [statement])).size =
              session.program.size + statement.descendants + 1 := by
            simp [program, untaggedProgram, Tagged.extent, Tagged.plain]
            omega
          have others := inductionHypothesis (statements ++ [statement])
            { session with
              index := index
              limit := limit
              log := log
              program := untaggedProgram position (statements ++ [statement]) } standard rfl
          simp only [size] at others
          cases readRest : Sentence.readChunks (session.program.size + statement.descendants + 1)
              rest with
          | error fault =>
              rw [readRest] at others
              exact others
          | ok last =>
              rw [readRest] at others
              simp only [List.append_assoc, List.singleton_append] at others
              exact others

theorem refuseTrailing_apply (trailing : List Token) (session : Session) :
    Session.refuseTrailing trailing session =
      match Sentence.refuseTrailing trailing with
      | .ok () => .ok () session
      | .error fault => .error fault session := by
  unfold Session.refuseTrailing Sentence.refuseTrailing
  cases trailing.getLast? <;> rfl

theorem forms_registerStandard (tokens : List Token) (file : String) :
    (Session.new tokens file).registerStandard.forms = FormTable.standard := by
  funext kind
  exact Option.or_none

/-- Parsing a whole token list into the outermost code block parses its chunks. -/
theorem parseBlock_whole
    (session : Session)
    (nonempty : 0 < session.tokens.length) :
    Session.parseBlock 0 0 session.tokens.length session =
      (Session.parseChunks 0 (chunks session.tokens).1 >>= fun _ =>
        Session.refuseTrailing (chunks session.tokens).2) { session with index := 0 } := by
  have inRange : ¬ (0 ≥ session.tokens.length ∨ session.tokens.length > session.tokens.length) := by
    omega
  have whole : (session.tokens.drop 0).take (session.tokens.length - 0) = session.tokens := by
    simp
  unfold Session.parseBlock
  rw [Running.bind_of_ok (Running.get_apply _), if_neg inRange, whole]
  rfl

/-- A session with tokens parses all of them and reports what it has parsed. -/
theorem parseProgram_apply
    (session : Session)
    (nonempty : session.tokens.isEmpty = false) :
    parseProgram session =
      match Session.parseBlock session.program.code 0 session.tokens.length session with
      | .ok () after => .ok ()
          { after with
            log := after.log ++
              [.parsed after.program.statements.length after.program.size after.file] }
      | .error fault after => .error fault after := by
  unfold parseProgram
  rw [Running.bind_of_ok (Running.get_apply _), nonempty]
  simp only [Bool.false_eq_true, if_false, Running.bind_apply]
  cases Session.parseBlock session.program.code 0 session.tokens.length session <;> rfl

/-- Parsing a whole token list reads the trees of its statements. -/
theorem parseProgram_mirrors
    (position : Position) (session : Session)
    (standard : session.forms = FormTable.standard)
    (program : session.program = untaggedProgram position []) :
    match Sentence.readProgram session.tokens session.file with
    | .ok statements =>
        ∃ after, parseProgram session = .ok () after ∧
          after.program = untaggedProgram position statements
    | .error fault => ∃ after, parseProgram session = .error fault after := by
  unfold Sentence.readProgram
  cases nonempty : session.tokens.isEmpty with
  | true =>
      unfold parseProgram
      rw [Running.bind_of_ok (Running.get_apply _), nonempty]
      exact ⟨session, rfl⟩
  | false =>
      have positive : 0 < session.tokens.length := by
        rw [List.isEmpty_eq_false_iff] at nonempty
        exact List.length_pos_iff.mpr nonempty
      have block := parseBlock_whole session positive
      have reading := parseChunks_mirrors position (chunks session.tokens).1 []
        { session with index := 0 } standard program
      have code : session.program.code = 0 := by rw [program]; rfl
      have size : session.program.size = 2 := by rw [program]; rfl
      rw [parseProgram_apply session nonempty, code, block]
      simp only [Bool.false_eq_true, if_false]
      simp only [size, List.nil_append] at reading
      cases read : Sentence.readChunks 2 (chunks session.tokens).1 with
      | error fault =>
          rw [read] at reading
          obtain ⟨after, failed⟩ := reading
          rw [Running.bind_of_error failed]
          exact ⟨after, rfl⟩
      | ok statements =>
          rw [read] at reading
          obtain ⟨index, limit, log, done⟩ := reading
          rw [Running.bind_of_ok done, refuseTrailing_apply, ok_bind]
          cases Sentence.refuseTrailing (chunks session.tokens).2 with
          | error fault => exact ⟨_, rfl⟩
          | ok _ => exact ⟨_, rfl, rfl⟩

/-- Parsing a token list gives the program of the trees of its statements. -/
theorem parse_eq (tokens : List Token) (file : String) :
    parse tokens file =
      (Sentence.readProgram tokens file).map
        (untaggedProgram (Sentence.startOf tokens file)) := by
  have mirrors := parseProgram_mirrors (Sentence.startOf tokens file)
    (Session.new tokens file).registerStandard (forms_registerStandard tokens file) rfl
  change match Sentence.readProgram tokens file with
    | .ok statements => _
    | .error fault => _ at mirrors
  unfold parse parseLogged
  cases read : Sentence.readProgram tokens file with
  | error fault =>
      rw [read] at mirrors
      obtain ⟨after, failed⟩ := mirrors
      rw [failed]
      rfl
  | ok statements =>
      rw [read] at mirrors
      obtain ⟨after, done, program⟩ := mirrors
      rw [done]
      exact congrArg Except.ok program

/-- A parsed program is that of the trees of its statements. -/
theorem exists_statements_of_parse
    {tokens : List Token} {file : String} {program : Program}
    (parsed : parse tokens file = .ok program) :
    ∃ statements, Sentence.readProgram tokens file = .ok statements ∧
      program = untaggedProgram (Sentence.startOf tokens file) statements := by
  rw [parse_eq] at parsed
  cases read : Sentence.readProgram tokens file with
  | error fault =>
      rw [read] at parsed
      cases parsed
  | ok statements =>
      rw [read] at parsed
      cases parsed
      exact ⟨statements, rfl, rfl⟩

/-- Whether the tokens of a source are parsed as a program. -/
def parses (source file : String) : Bool :=
  match Token.tokenize source file with
  | .ok tokens => (parse tokens file).isOk
  | .error _ => false

theorem exists_of_parses
    {source file : String}
    (succeeds : parses source file = true) :
    ∃ tokens program, Token.tokenize source file = .ok tokens ∧
      parse tokens file = .ok program := by
  unfold parses at succeeds
  cases tokenized : Token.tokenize source file with
  | error diagnostic =>
      rw [tokenized] at succeeds
      cases succeeds
  | ok tokens =>
      rw [tokenized] at succeeds
      cases parsed : parse tokens file with
      | error fault =>
          simp only [parsed] at succeeds
          cases succeeds
      | ok program => exact ⟨tokens, program, rfl, parsed⟩

end Grammar
end ScriptLang
