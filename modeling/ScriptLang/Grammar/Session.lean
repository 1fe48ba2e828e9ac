import ScriptLang.Grammar.Statement
import ScriptLang.Log

/-!
# Parsing sessions

A session parses the statements of a token list into the blocks of a program.
It keeps the number of tokens that are read and the limit of the current
statement, which is the number of tokens before its semicolon; tokens beyond the
limit cannot be seen.  When a statement is refused, the session keeps what was
read and added before.

`parse` is a session over a whole program: every statement of the token list
becomes a statement of the outermost code block.
-/

namespace ScriptLang
namespace Grammar

open Source (Position)

/-- The tokens before a semicolon, and the semicolon. -/
structure Chunk where
  tokens : List Token
  semicolon : Token
  deriving DecidableEq, Repr

/-- Cut tokens behind every semicolon; the tokens behind the last one are left over. -/
def chunks : List Token -> List Chunk × List Token
  | [] => ([], [])
  | token :: rest =>
      if token.kind = .semicolon then (⟨[], token⟩ :: (chunks rest).1, (chunks rest).2)
      else
        match chunks rest with
        | ([], trailing) => ([], token :: trailing)
        | (first :: others, trailing) =>
            ({ first with tokens := token :: first.tokens } :: others, trailing)

/-- Cutting loses no token and keeps the order. -/
theorem flatMap_chunks (tokens : List Token) :
    (chunks tokens).1.flatMap (fun chunk => chunk.tokens ++ [chunk.semicolon]) ++
      (chunks tokens).2 = tokens := by
  induction tokens with
  | nil => rfl
  | cons token rest inductionHypothesis =>
      simp only [chunks]
      split
      · simpa using inductionHypothesis
      · revert inductionHypothesis
        rcases chunks rest with ⟨_ | ⟨first, others⟩, trailing⟩ <;> simp

/-- Semicolons stand at the ends of chunks and nowhere else. -/
theorem semicolons_chunks (tokens : List Token) :
    (∀ chunk ∈ (chunks tokens).1,
      chunk.semicolon.kind = .semicolon ∧ ∀ token ∈ chunk.tokens, token.kind ≠ .semicolon) ∧
    ∀ token ∈ (chunks tokens).2, token.kind ≠ .semicolon := by
  induction tokens with
  | nil => simp [chunks]
  | cons token rest inductionHypothesis =>
      simp only [chunks]
      split
      · next isSemicolon => simpa [isSemicolon] using inductionHypothesis
      · next notSemicolon =>
          revert inductionHypothesis
          rcases chunks rest with ⟨_ | ⟨first, others⟩, trailing⟩ <;> grind

/-- The state of parsing a token list. -/
structure Session where
  tokens : List Token
  /-- The number of tokens that are read. -/
  index : Nat
  /-- The number of tokens before the end of the current statement. -/
  limit : Nat
  file : String
  forms : FormTable
  program : Program
  log : Log

/-- Parsing in a session. -/
abbrev Parsing := EStateM Fault Session

namespace Session

/-- The place of the token with the given number, or of the last one before it. -/
def positionAt (session : Session) (index : Nat) : Position :=
  match session.tokens[index]? with
  | some token => token.span.start
  | none =>
      match session.tokens.getLast? with
      | some token => token.span.start
      | none => .start session.file

/-- The place of the next token. -/
def position (session : Session) : Position := session.positionAt session.index

/-- A session in which no token starts a statement yet. -/
def new (tokens : List Token) (file : String) : Session where
  tokens := tokens
  index := 0
  limit := 0
  file := file
  forms := .empty
  program := .empty ((tokens.head?.map fun token => token.span.start).getD (.start file))
  log := []

/-- Let a kind of first token start a form. -/
def register (session : Session) (kind : TokenKind) (form : Form) : Session :=
  { session with
    forms := fun other => if other = kind then some form else session.forms other }

/-- Let the first tokens of the language start its statements. -/
def registerStandard (session : Session) : Session :=
  { session with
    forms := fun kind => (FormTable.standard kind).or (session.forms kind) }

/-- The names of the kinds that start a form, in alphabetical order. -/
def registered (session : Session) : List String :=
  ((TokenKind.all.filter fun kind => (session.forms kind).isSome).map TokenKind.name).mergeSort

/-- The reader of the current statement. -/
def reader (session : Session) : Reader where
  unread := (session.tokens.drop session.index).take (session.limit - session.index)
  stop := session.positionAt (max session.index session.limit)
  program := session.program

/-- The session after a reader of its current statement has gone on. -/
def advanceTo (session : Session) (reader : Reader) : Session :=
  { session with
    index := session.index + (session.reader.unread.length - reader.unread.length)
    program := reader.program }

/-- Read from the current statement. -/
def run (action : Reading α) : Parsing α := fun session =>
  match action session.reader with
  | .ok result reader => .ok result (session.advanceTo reader)
  | .error fault reader => .error fault (session.advanceTo reader)

/-- The next token of the current statement. -/
def current? (session : Session) : Option Token := session.reader.unread.head?

/-- Read the next token of the current statement, if there is one. -/
def advance : Parsing (Option Token) := do
  let token? := (← get).current?
  run skip
  return token?

/-- Move to the end of the current statement and give the tokens that were unread. -/
def takeRemaining : Parsing (List Token) := do
  let session ← get
  set { session with index := session.limit }
  return session.reader.unread

/-- Read a form from the current statement.  An expression always takes the statement to its
end. -/
def call (form : Form) : Parsing NodeId := fun session =>
  let moveOn (after : Session) : Session :=
    if form = .expression then { after with index := session.limit } else after
  match run form.read session with
  | .ok node after => .ok node (moveOn after)
  | .error fault after => .error fault (moveOn after)

/-- Parse one statement into a block and move behind its semicolon. -/
def parseChunk (block : NodeId) (chunk : Chunk) : Parsing Unit := fun session =>
  let limit := session.index + chunk.tokens.length
  let stop := chunk.semicolon.span.start
  match readStatement session.forms ⟨chunk.tokens, stop, session.program⟩ with
  | .error fault reader =>
      .error fault
        { session with
          index := limit - reader.unread.length
          limit := limit
          program := reader.program }
  | .ok (first, statement) reader =>
      let parsed :=
        { session with
          index := limit
          limit := limit
          program := reader.program
          log := session.log ++ [.parsedStatement first] }
      match reader.program.pushStatement block statement with
      | .error fault => .error fault parsed
      | .ok none => .error (.ofInternal (.notACodeBlock block) stop) parsed
      | .ok (some program) => .ok () { parsed with index := limit + 1, program := program }

/-- Parse statements into a block one after the other. -/
def parseChunks (block : NodeId) : List Chunk -> Parsing Unit
  | [] => return
  | chunk :: rest => do
      parseChunk block chunk
      parseChunks block rest

/-- Refuse tokens that no semicolon follows. -/
def refuseTrailing (trailing : List Token) : Parsing Unit :=
  match trailing.getLast? with
  | none => return
  | some last => throw (.ofSyntax (.missingSemicolon last.value) last.span.stop)

/-- Parse the tokens from one number up to another into a block. -/
def parseBlock (block : NodeId) (start stop : Nat) : Parsing Unit := do
  let session ← get
  let size := session.tokens.length
  if start ≥ stop ∨ stop > size then
    throw (.ofInternal (.tokenRange start stop size) session.position)
  else
    let (statements, trailing) := chunks ((session.tokens.drop start).take (stop - start))
    set { session with index := start }
    parseChunks block statements
    refuseTrailing trailing

end Session

/-- The session of a whole program, which stops at the first statement that is refused. -/
def parseProgram : Parsing Unit := do
  let session ← get
  if session.tokens.isEmpty then
    throw (.ofSyntax .emptyProgram (.start session.file))
  else
    Session.parseBlock session.program.code 0 session.tokens.length
    modify fun session =>
      { session with
        log := session.log ++
          [.parsed session.program.statements.length session.program.size session.file] }

/-- Parse all tokens into a program, and tell what happened. -/
def parseLogged (tokens : List Token) (file : String) : Except Fault Program × Log :=
  match parseProgram (Session.new tokens file).registerStandard with
  | .ok () session => (.ok session.program, session.log)
  | .error fault session => (.error fault, session.log)

/-- Parse all tokens into a program. -/
def parse (tokens : List Token) (file : String) : Except Fault Program :=
  (parseLogged tokens file).1

end Grammar
end ScriptLang
