import ScriptLang.Grammar.Session
import ScriptLang.Proofs.Grammar.Growth
import ScriptLang.Proofs.Program.Filled

/-!
# Statements of code blocks

The statements of a range of tokens are put into a code block one after the other.  A
statement that is refused leaves nodes behind, but these have grown apart from all
others: the block keeps the statements in front of it and nothing else.
-/

namespace ScriptLang

open Source (Position)

namespace Grammar
namespace Session

/-- Statements are completed one after the other: each is read, and put into a block. -/
inductive Completes (block : NodeId) :
    Session -> List Chunk -> List NodeId -> Session -> Prop
  | nil (session : Session) : Completes block session [] [] session
  | cons
      {session next last : Session} {chunk : Chunk} {rest : List Chunk} {first : Token}
      {statement : NodeId} {statements : List NodeId} {reader : Reader}
      (read : readStatement session.forms
        ⟨chunk.tokens, chunk.semicolon.span.start, session.program⟩ =
          .ok (first, statement) reader)
      (parsed : parseChunk block chunk session = .ok () next)
      (completes : Completes block next rest statements last) :
      Completes block session (chunk :: rest) (statement :: statements) last

/-- The parsing of a block stops at a statement that is refused, or at tokens behind the last
semicolon. -/
inductive Stops (block : NodeId) (session : Session) (fault : Fault) (after : Session) :
    List Chunk -> List Token -> Prop
  | refused
      {chunk : Chunk} {rest : List Chunk} {trailing : List Token}
      (failed : parseChunk block chunk session = .error fault after) :
      Stops block session fault after (chunk :: rest) trailing
  | unfinished
      {trailing : List Token}
      (failed : refuseTrailing trailing session = .error fault after) :
      Stops block session fault after [] trailing

section

variable {block : NodeId} {session : Session} {old : List NodeId} {symbols : SymbolTable}
  {position : Position} {parent? : Option NodeId}

/-- A statement that is parsed has been read. -/
theorem exists_read_of_parseChunk
    {chunk : Chunk} {next : Session}
    (parsed : parseChunk block chunk session = .ok () next) :
    ∃ first statement reader, readStatement session.forms
      ⟨chunk.tokens, chunk.semicolon.span.start, session.program⟩ =
        .ok (first, statement) reader := by
  unfold parseChunk at parsed
  dsimp only at parsed
  cases read : readStatement session.forms
      ⟨chunk.tokens, chunk.semicolon.span.start, session.program⟩ with
  | ok result reader => exact ⟨result.1, result.2, reader, rfl⟩
  | error fault reader =>
      rw [read] at parsed
      cases parsed

/-- The chunks of a block are parsed up to one that is refused, or all of them. -/
theorem parseChunks_completes (block : NodeId) (session : Session) (list : List Chunk) :
    Running.Ends
      (fun _ last => ∃ statements, Completes block session list statements last)
      (fun fault after => ∃ done chunk rest statements middle, list = done ++ chunk :: rest ∧
        Completes block session done statements middle ∧
        parseChunk block chunk middle = .error fault after)
      (parseChunks block list session) := by
  induction list generalizing session with
  | nil => exact ⟨[], .nil session⟩
  | cons chunk rest inductionHypothesis =>
      rw [parseChunks, Running.bind_apply]
      cases parsed : parseChunk block chunk session with
      | error fault after => exact ⟨[], chunk, rest, [], session, rfl, .nil session, parsed⟩
      | ok _ next =>
          obtain ⟨first, statement, reader, read⟩ := exists_read_of_parseChunk parsed
          apply (inductionHypothesis next).imp
          · rintro _ last ⟨statements, completes⟩
            exact ⟨statement :: statements, .cons read parsed completes⟩
          · rintro fault after ⟨done, failing, others, statements, middle, rfl, completes, failed⟩
            exact ⟨chunk :: done, failing, others, statement :: statements, middle, rfl,
              .cons read parsed completes, failed⟩

variable
  (isBlock : session.program.node? block = some ⟨.codeBlock old symbols, position, parent?⟩)

include isBlock

/-- A statement is put into the block when it has been read, and only then. -/
theorem parseChunk_ends (chunk : Chunk) :
    Running.Ends
      (fun _ next => ∀ first statement reader, readStatement session.forms
          ⟨chunk.tokens, chunk.semicolon.span.start, session.program⟩ =
            .ok (first, statement) reader ->
        session.program.GrownFrom reader.program ∧
          session.program.Added reader.program statement ∧
          next.program = reader.program.pushed block statement)
      (fun _ after => session.program.GrownFrom after.program)
      (parseChunk block chunk session) := by
  let start : Reader := ⟨chunk.tokens, chunk.semicolon.span.start, session.program⟩
  have unchanged : session.program.GrownFrom start.program := .refl session.program
  have grows := readStatement_grows unchanged session.forms
  unfold parseChunk
  dsimp only
  cases read : readStatement session.forms start with
  | error fault reader =>
      rw [read] at grows
      exact grows
  | ok result reader =>
      rw [read] at grows
      obtain ⟨grown, _, added⟩ := grows
      have isFormer : block < session.program.size := (Array.getElem?_eq_some_iff.mp isBlock).1
      have stillBlock := (grown.former block isFormer).trans isBlock
      simp only [Program.pushStatement_eq stillBlock added.2]
      rintro first statement other ⟨⟩
      exact ⟨grown, added, rfl⟩

/-- Completed statements fill the block. -/
theorem Completes.filled
    {list : List Chunk} {statements : List NodeId} {last : Session}
    (completes : Completes block session list statements last) :
    Program.Filled block statements session.program last.program := by
  induction completes generalizing old with
  | nil session =>
      have isFormer : block < session.program.size := (Array.getElem?_eq_some_iff.mp isBlock).1
      exact .of_grownFrom (.refl _) isFormer
  | @cons session next last chunk rest first statement statements reader read parsed _
      inductionHypothesis =>
      have isFormer : block < session.program.size := (Array.getElem?_eq_some_iff.mp isBlock).1
      have ends := parseChunk_ends isBlock chunk
      rw [parsed] at ends
      obtain ⟨grown, added, isPushed⟩ := ends first statement reader read
      have filled := Program.filled_pushed grown isBlock added
      rw [← isPushed] at filled
      exact filled.append (inductionHypothesis (filled.content _ _ _ _ isBlock)) isFormer

/-- Where the parsing stops, nodes have only grown behind the others. -/
theorem Stops.grownFrom
    {fault : Fault} {after : Session} {rest : List Chunk} {trailing : List Token}
    (stops : Stops block session fault after rest trailing) :
    session.program.GrownFrom after.program := by
  cases stops with
  | @refused chunk rest trailing failed =>
      have ends := parseChunk_ends isBlock chunk
      rw [failed] at ends
      exact ends
  | unfinished failed =>
      rw [refuseTrailing] at failed
      cases last : trailing.getLast? with
      | none =>
          rw [last] at failed
          cases failed
      | some token =>
          rw [last] at failed
          cases failed
          exact .refl _

end

/-- A range of tokens is parsed up to where its parsing stops. -/
theorem exists_of_parseBlock_eq_error
    {block : NodeId} {start stop : Nat} {session after : Session} {fault : Fault}
    (inRange : ¬ (start ≥ stop ∨ stop > session.tokens.length))
    (failed : parseBlock block start stop session = .error fault after) :
    ∃ done rest trailing statements middle,
      chunks ((session.tokens.drop start).take (stop - start)) = (done ++ rest, trailing) ∧
      Completes block { session with index := start } done statements middle ∧
      Stops block middle fault after rest trailing := by
  rw [parseBlock, Running.bind_of_ok (Running.get_apply _)] at failed
  simp only [if_neg inRange] at failed
  rw [Running.bind_of_ok (Running.set_apply _ _), Running.bind_apply] at failed
  let range := (session.tokens.drop start).take (stop - start)
  have completes := parseChunks_completes block { session with index := start } (chunks range).1
  cases parsed : parseChunks block (chunks range).1 { session with index := start } with
  | ok _ middle =>
      rw [parsed] at completes failed
      obtain ⟨statements, completes⟩ := completes
      refine ⟨(chunks range).1, [], (chunks range).2, statements, middle, ?_, completes,
        .unfinished failed⟩
      rw [List.append_nil]
  | error other last =>
      rw [parsed] at completes failed
      cases failed
      obtain ⟨done, chunk, rest, statements, middle, isList, completes, refused⟩ := completes
      exact ⟨done, chunk :: rest, (chunks range).2, statements, middle, Prod.ext isList rfl,
        completes, .refused refused⟩

end Session
end Grammar
end ScriptLang
