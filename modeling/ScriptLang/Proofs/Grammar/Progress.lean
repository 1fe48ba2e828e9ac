import ScriptLang.Proofs.Grammar.Blocks
import ScriptLang.Proofs.Grammar.Whole

/-!
# What the parser tells

The parser reports every statement that it completes by the first token, and a
program that it completes by its statements and nodes.  A statement that is refused
reports nothing.
-/

namespace ScriptLang
namespace Grammar

/-- The parser completes the first statements of a token list, each starting with the given token,
and refuses the first of the remaining ones. -/
structure Completed
    (tokens : List Token)
    (file : String)
    (done rest : List Chunk)
    (firsts : List Token) : Prop where
  cut : (chunks tokens).1 = done ++ rest
  completes : ∃ statements middle,
    Session.Completes 0 (Session.new tokens file).registerStandard done statements middle ∧
      ∀ chunk ∈ rest.head?, ∃ fault after,
        Session.parseChunk 0 chunk middle = .error fault after
  starts : done.map (fun chunk => chunk.tokens.head?) = firsts.map some

/-- The first token of a statement is the first one that is read. -/
theorem head?_of_readStatement
    {forms : FormTable} {reader after : Reader} {first : Token} {statement : NodeId}
    (read : readStatement forms reader = .ok (first, statement) after) :
    reader.unread.head? = some first := by
  rw [readStatement, Running.bind_of_ok (Running.get_apply _)] at read
  cases unread : reader.unread with
  | nil =>
      simp only [unread] at read
      cases read
  | cons token rest =>
      simp only [unread] at read
      cases isForm : forms token.kind with
      | none =>
          simp only [isForm] at read
          cases read
      | some form =>
          simp only [isForm] at read
          obtain ⟨node, middle, _, last⟩ := (Running.bind_eq_ok_iff _ _ _ _ _).mp read
          rw [Running.bind_of_ok (Running.get_apply _)] at last
          cases leftover : middle.unread with
          | nil =>
              simp only [leftover] at last
              cases last
              rfl
          | cons other others =>
              simp only [leftover] at last
              cases last

namespace Session

variable {block : NodeId} {session : Session} {old : List NodeId} {symbols : SymbolTable}
  {position : Source.Position} {parent? : Option NodeId}
  (isBlock : session.program.node? block = some ⟨.codeBlock old symbols, position, parent?⟩)

include isBlock

/-- A statement is reported by its first token when it has been parsed, and only then. -/
theorem parseChunk_tells (chunk : Chunk) :
    Running.Ends
      (fun _ next => next.file = session.file ∧ ∃ first, chunk.tokens.head? = some first ∧
        next.log = session.log ++ [.parsedStatement first])
      (fun _ after => after.log = session.log)
      (parseChunk block chunk session) := by
  let start : Reader := ⟨chunk.tokens, chunk.semicolon.span.start, session.program⟩
  have unchanged : session.program.GrownFrom start.program := .refl session.program
  have grows := readStatement_grows unchanged session.forms
  unfold parseChunk
  dsimp only
  cases read : readStatement session.forms start with
  | error fault reader => exact rfl
  | ok result reader =>
      rw [read] at grows
      obtain ⟨grown, _, added⟩ := grows
      have isFormer : block < session.program.size := (Array.getElem?_eq_some_iff.mp isBlock).1
      have stillBlock := (grown.former block isFormer).trans isBlock
      simp only [Program.pushStatement_eq stillBlock added.2]
      exact ⟨rfl, result.1, head?_of_readStatement read, rfl⟩

/-- Statements are reported in order when they have been completed. -/
theorem Completes.tells
    {list : List Chunk} {statements : List NodeId} {last : Session}
    (completes : Completes block session list statements last) :
    last.file = session.file ∧ statements.length = list.length ∧
      ∃ firsts : List Token, list.map (fun chunk => chunk.tokens.head?) = firsts.map some ∧
        last.log = session.log ++ firsts.map .parsedStatement := by
  induction completes generalizing old with
  | nil session => exact ⟨rfl, rfl, [], rfl, (List.append_nil _).symm⟩
  | @cons session next last chunk rest first statement statements reader read parsed completes
      inductionHypothesis =>
      have one : Completes block session [chunk] [statement] next := .cons read parsed (.nil next)
      have stillBlock := (one.filled isBlock).content _ _ _ _ isBlock
      have tells := parseChunk_tells isBlock chunk
      rw [parsed] at tells
      obtain ⟨sameFile, token, isFirst, reported⟩ := tells
      obtain ⟨restFile, length, firsts, starts, restReported⟩ := inductionHypothesis stillBlock
      refine ⟨restFile.trans sameFile, congrArg Nat.succ length, token :: firsts, ?_, ?_⟩
      · rw [List.map_cons, List.map_cons, isFirst, starts]
      · rw [restReported, reported, List.append_assoc]
        rfl

end Session

section

variable (tokens : List Token) (file : String)

/-- The outermost code block of a new session is empty. -/
theorem node?_new :
    (Session.new tokens file).registerStandard.program.node? 0 =
      some ⟨.codeBlock [] .empty, Sentence.startOf tokens file, some 1⟩ := rfl

/-- The parsing of a token list stops where its chunks or what is behind them make it stop. -/
theorem parseProgram_new (nonempty : tokens.isEmpty = false) :
    let session := (Session.new tokens file).registerStandard
    parseProgram session =
      match Session.parseChunks 0 (chunks tokens).1 session with
      | .error fault after => .error fault after
      | .ok _ after =>
          match Sentence.refuseTrailing (chunks tokens).2 with
          | .error fault => .error fault after
          | .ok _ => .ok ()
              { after with
                log := after.log ++
                  [.parsed after.program.statements.length after.program.size after.file] } := by
  intro session
  have positive : 0 < session.tokens.length := by
    rw [List.isEmpty_eq_false_iff] at nonempty
    exact List.length_pos_iff.mpr nonempty
  have code : session.program.code = 0 := rfl
  have start : { session with index := 0 } = session := rfl
  have sameTokens : session.tokens = tokens := rfl
  rw [parseProgram_apply session nonempty, code, parseBlock_whole session positive,
    Running.bind_apply, start, sameTokens]
  cases Session.parseChunks 0 (chunks tokens).1 session with
  | error fault after => rfl
  | ok _ after =>
      simp only [refuseTrailing_apply]
      cases Sentence.refuseTrailing (chunks tokens).2 <;> rfl

/-- The parser reports the statements that it completes before its first fault, and the program if
there is none. -/
theorem exists_completed :
    ∃ done rest firsts, Completed tokens file done rest firsts ∧
      (∀ program, parse tokens file = .ok program ->
        rest = [] ∧ firsts.length = program.statements.length) ∧
      (parseLogged tokens file).2 = firsts.map .parsedStatement ++
        match parse tokens file with
        | .ok program => [.parsed program.statements.length program.size file]
        | .error _ => [] := by
  let session := (Session.new tokens file).registerStandard
  cases nonempty : tokens.isEmpty with
  | true =>
      rw [List.isEmpty_iff] at nonempty
      subst nonempty
      refine ⟨[], [], [], ⟨rfl, ⟨[], session, .nil session, ?_⟩, rfl⟩, ?_, rfl⟩
      · rintro chunk ⟨⟩
      · rintro program ⟨⟩
  | false =>
      have run := parseProgram_new tokens file nonempty
      have completes := Session.parseChunks_completes 0 session (chunks tokens).1
      unfold parse parseLogged
      dsimp only at run
      rw [run]
      cases parsed : Session.parseChunks 0 (chunks tokens).1 session with
      | error fault after =>
          rw [parsed] at completes
          obtain ⟨done, chunk, rest, statements, middle, isList, completed, failed⟩ := completes
          obtain ⟨_, _, firsts, starts, reported⟩ := completed.tells (node?_new tokens file)
          have stops := Session.parseChunk_tells
            ((completed.filled (node?_new tokens file)).content _ _ _ _ (node?_new tokens file))
            chunk
          rw [failed] at stops
          refine ⟨done, chunk :: rest, firsts,
            ⟨isList, ⟨statements, middle, completed, ?_⟩, starts⟩, ?_, ?_⟩
          · rintro _ ⟨⟩
            exact ⟨fault, after, failed⟩
          · rintro program ⟨⟩
          · dsimp only
            rw [stops, reported]
            exact (List.append_nil _).symm
      | ok _ after =>
          rw [parsed] at completes
          obtain ⟨statements, completed⟩ := completes
          obtain ⟨sameFile, length, firsts, starts, reported⟩ :=
            completed.tells (node?_new tokens file)
          refine ⟨(chunks tokens).1, [], firsts, ⟨(List.append_nil _).symm,
            ⟨statements, after, completed, ?_⟩, starts⟩, ?_, ?_⟩
          · rintro chunk ⟨⟩
          · intro program isProgram
            refine ⟨rfl, ?_⟩
            have filled := completed.filled (node?_new tokens file)
            have block := filled.content _ _ _ _ (node?_new tokens file)
            have code : after.program.code = 0 := filled.code
            have listed : after.program.statements = statements := by
              rw [Program.statements, code, block, List.nil_append]
            have lengths := congrArg List.length starts
            rw [List.length_map, List.length_map] at lengths
            dsimp only at isProgram
            cases unfinished : Sentence.refuseTrailing (chunks tokens).2 with
            | error fault =>
                rw [unfinished] at isProgram
                cases isProgram
            | ok _ =>
                rw [unfinished] at isProgram
                cases isProgram
                rw [listed, length, lengths]
          · dsimp only
            cases Sentence.refuseTrailing (chunks tokens).2 with
            | error fault =>
                rw [List.append_nil]
                exact reported
            | ok _ =>
                dsimp only
                rw [reported, sameFile]
                rfl

end

end Grammar
end ScriptLang
