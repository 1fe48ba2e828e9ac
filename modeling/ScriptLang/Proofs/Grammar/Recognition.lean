import Mathlib.Data.List.Forall2
import ScriptLang.Proofs.Grammar.Phrase
import ScriptLang.Proofs.Grammar.Printing
import ScriptLang.Proofs.Program.Shape

/-!
# The grammar of programs

A program is a nonempty sequence of phrases, each with a semicolon behind it.  The
main statement says that the parser accepts exactly these token lists, that the
statements of the parsed program are in order what the phrases mean, and that it
refuses all other token lists.
-/

namespace ScriptLang
namespace Grammar

open Source (Position)
open Phrase (Builds Means)

/-- Tokens are a nonempty sequence of chunks without semicolons, each of them followed by a
semicolon. -/
structure IsCut (tokens : List Token) (cut : List Chunk) : Prop where
  nonempty : cut ≠ []
  whole : tokens = cut.flatMap fun chunk => chunk.tokens ++ [chunk.semicolon]
  semicolons : ∀ chunk ∈ cut,
    chunk.semicolon.kind = .semicolon ∧ ∀ token ∈ chunk.tokens, token.kind ≠ .semicolon

/-- Tokens are a sequence of phrases whose expressions are accepted, with a semicolon behind each
of them. -/
def IsProgram (tokens : List Token) : Prop :=
  ∃ cut, IsCut tokens cut ∧ ∀ chunk ∈ cut, ∃ phrase, IsPhrase chunk.tokens phrase ∧
    ∀ expression ∈ phrase.expression?, Accepted expression

/-- A node of a program is a statement with the parts of a chunk, which stands at the first token
of the chunk. -/
def Shows (program : Program) (chunk : Chunk) (id : NodeId) : Prop :=
  ∃ first rest phrase command,
    chunk.tokens = first :: rest ∧
    IsPhrase chunk.tokens phrase ∧
    phrase.Means command ∧
    program.command? id = some command ∧
    (program.node? id).map Node.position = some first.span.start

/-! ## Cutting -/

/-- Chunks that are put together are cut as before. -/
theorem chunks_flatMap
    {cut : List Chunk}
    (semicolons : ∀ chunk ∈ cut,
      chunk.semicolon.kind = .semicolon ∧ ∀ token ∈ chunk.tokens, token.kind ≠ .semicolon) :
    chunks (cut.flatMap fun chunk => chunk.tokens ++ [chunk.semicolon]) = (cut, []) := by
  induction cut with
  | nil => rfl
  | cons chunk rest inductionHypothesis =>
      obtain ⟨⟨isSemicolon, noSemicolon⟩, restSemicolons⟩ := List.forall_mem_cons.mp semicolons
      rw [List.flatMap_cons, List.append_assoc, List.singleton_append,
        chunks_append_cons _ noSemicolon isSemicolon, inductionHypothesis restSemicolons]

theorem IsCut.chunks_eq
    {tokens : List Token} {cut : List Chunk}
    (isCut : IsCut tokens cut) :
    chunks tokens = (cut, []) := by
  rw [isCut.whole]
  exact chunks_flatMap isCut.semicolons

/-- Tokens without a rest behind their last semicolon are cut. -/
theorem isCut_chunks
    {tokens : List Token}
    (nonempty : tokens ≠ [])
    (noTrailing : (chunks tokens).2 = []) :
    IsCut tokens (chunks tokens).1 where
  nonempty := by
    intro nothing
    have whole := flatMap_chunks tokens
    rw [nothing, noTrailing] at whole
    exact nonempty whole.symm
  whole := by
    have whole := flatMap_chunks tokens
    rw [noTrailing, List.append_nil] at whole
    exact whole.symm
  semicolons := (semicolons_chunks tokens).1

/-- The tokens of the chunks of a cut are tokens of the list. -/
theorem IsCut.mem
    {tokens : List Token} {cut : List Chunk} {chunk : Chunk} {token : Token}
    (isCut : IsCut tokens cut)
    (inCut : chunk ∈ cut)
    (inChunk : token ∈ chunk.tokens) :
    token ∈ tokens := by
  rw [isCut.whole]
  exact List.mem_flatMap.mpr ⟨chunk, inCut, List.mem_append_left _ inChunk⟩

namespace Sentence

theorem refuseTrailing_eq_ok_iff (trailing : List Token) :
    refuseTrailing trailing = .ok () ↔ trailing = [] := by
  unfold refuseTrailing
  cases last : trailing.getLast? with
  | none => simpa using last
  | some token =>
      have nonempty : trailing ≠ [] := by
        rintro rfl
        cases last
      simp [nonempty]

/-- The statements of a token list are those of its cut. -/
theorem readProgram_eq_ok_iff
    (tokens : List Token) (file : String) (statements : List StatementTree) :
    readProgram tokens file = .ok statements ↔
      ∃ cut, IsCut tokens cut ∧ readChunks 2 cut = .ok statements := by
  constructor
  · intro isRead
    unfold readProgram at isRead
    split at isRead
    · cases isRead
    · next nonempty =>
        obtain ⟨found, chunksRead, refused⟩ := (bind_eq_ok_iff _ _ _).mp isRead
        obtain ⟨⟨⟩, noTrailing, result⟩ := (bind_eq_ok_iff _ _ _).mp refused
        cases result
        rw [List.isEmpty_iff] at nonempty
        exact ⟨_, isCut_chunks nonempty ((refuseTrailing_eq_ok_iff _).mp noTrailing), chunksRead⟩
  · rintro ⟨cut, isCut, chunksRead⟩
    have nonempty : tokens.isEmpty = false := by
      rw [List.isEmpty_eq_false_iff]
      rintro rfl
      have same := isCut.chunks_eq
      cases same
      exact isCut.nonempty rfl
    unfold readProgram
    rw [nonempty, isCut.chunks_eq]
    dsimp only
    rw [chunksRead]
    rfl

/-- A chunk is a phrase for a statement. -/
def Reads (chunk : Chunk) (statement : StatementTree) : Prop :=
  ∃ phrase, IsPhrase chunk.tokens phrase ∧ Builds phrase statement

/-- Chunks are read as the statements that their phrases are read as. -/
theorem readChunks_eq_ok_iff
    {cut : List Chunk}
    (start : Nat) (statements : List StatementTree)
    (coherent : ∀ chunk ∈ cut, ∀ token ∈ chunk.tokens, token.Coherent) :
    readChunks start cut = .ok statements ↔ List.Forall₂ Reads cut statements := by
  induction cut generalizing start statements with
  | nil =>
      rw [readChunks, List.forall₂_nil_left_iff, Except.ok.injEq]
      exact eq_comm
  | cons chunk rest inductionHypothesis =>
      obtain ⟨chunkCoherent, restCoherent⟩ := List.forall_mem_cons.mp coherent
      rw [readChunks]
      constructor
      · intro chunksRead
        obtain ⟨statement, isRead, behind⟩ := (bind_eq_ok_iff _ _ _).mp chunksRead
        obtain ⟨others, othersRead, result⟩ := (bind_eq_ok_iff _ _ _).mp behind
        cases result
        exact .cons (exists_phrase_of_read chunkCoherent isRead)
          ((inductionHypothesis _ others restCoherent).mp othersRead)
      · intro reads
        cases reads with
        | cons firstReads restReads =>
            obtain ⟨phrase, isPhrase, builds⟩ := firstReads
            rw [read_of_isPhrase start _ chunkCoherent isPhrase builds, ok_bind,
              (inductionHypothesis _ _ restCoherent).mpr restReads]
            rfl

/-- Phrases whose expressions are accepted are read as statements. -/
theorem exists_reads
    {cut : List Chunk}
    (coherent : ∀ chunk ∈ cut, ∀ token ∈ chunk.tokens, token.Coherent)
    (phrases : ∀ chunk ∈ cut, ∃ phrase, IsPhrase chunk.tokens phrase ∧
      ∀ expression ∈ phrase.expression?, Accepted expression) :
    ∃ statements, List.Forall₂ Reads cut statements := by
  induction cut with
  | nil => exact ⟨[], .nil⟩
  | cons chunk rest inductionHypothesis =>
      obtain ⟨chunkCoherent, restCoherent⟩ := List.forall_mem_cons.mp coherent
      obtain ⟨⟨phrase, isPhrase, accepted⟩, restPhrases⟩ := List.forall_mem_cons.mp phrases
      obtain ⟨statement, builds⟩ := Phrase.exists_builds chunkCoherent isPhrase accepted
      obtain ⟨others, reads⟩ := inductionHypothesis restCoherent restPhrases
      exact ⟨statement :: others, .cons ⟨phrase, isPhrase, builds⟩ reads⟩

/-- A program in which the statements of chunks are laid out shows the chunks. -/
theorem shows_of_reads
    {program : Program} {cut : List Chunk} {statements : List StatementTree} {start : Nat}
    (coherent : ∀ chunk ∈ cut, ∀ token ∈ chunk.tokens, token.Coherent)
    (reads : List.Forall₂ Reads cut statements)
    (holds : program.Holds start (Tagged.layouts start (statements.map Tagged.plain))) :
    List.Forall₂ (Shows program) cut (Tagged.tops start (statements.map Tagged.plain)) := by
  induction reads generalizing start with
  | nil => exact .nil
  | @cons chunk statement rest others firstReads restReads inductionHypothesis =>
      obtain ⟨chunkCoherent, restCoherent⟩ := List.forall_mem_cons.mp coherent
      obtain ⟨phrase, isPhrase, builds⟩ := firstReads
      obtain ⟨⟨command, means, isCommand⟩, first, tokens, isFirst, starts⟩ :=
        Phrase.exists_means chunkCoherent isPhrase builds
      rw [List.map_cons, Tagged.layouts, Program.holds_append, StatementTree.length_layout,
        ← Nat.add_assoc] at holds
      obtain ⟨statementHolds, othersHold⟩ := holds
      refine .cons ⟨first, tokens, phrase, command, isFirst, isPhrase, means, ?_, ?_⟩
        (inductionHypothesis restCoherent othersHold)
      · rw [← isCommand]
        exact Program.command?_of_statement statementHolds
      · rw [← starts]
        exact congrArg (Option.map Node.position) (Program.holds_statement statementHolds).2.2

end Sentence

/-- The parser accepts exactly the grammar.  A token list is parsed if it is a sequence of phrases
with a semicolon behind each of them, and refused otherwise; the statements of the program are in
order what the phrases mean. -/
theorem parse_iff_isProgram
    {tokens : List Token}
    (file : String)
    (coherent : ∀ token ∈ tokens, token.Coherent) :
    ((∃ program, parse tokens file = .ok program) ↔ IsProgram tokens) ∧
    (¬ IsProgram tokens -> ∃ fault, parse tokens file = .error fault) ∧
    ∀ program, parse tokens file = .ok program ->
      ∃ cut, IsCut tokens cut ∧ List.Forall₂ (Shows program) cut program.statements := by
  have cutCoherent : ∀ cut, IsCut tokens cut -> ∀ chunk ∈ cut, ∀ token ∈ chunk.tokens,
      token.Coherent := fun cut isCut chunk inCut token inChunk =>
    coherent token (isCut.mem inCut inChunk)
  have parsedIff : (∃ program, parse tokens file = .ok program) ↔ IsProgram tokens := by
    constructor
    · rintro ⟨program, parsed⟩
      obtain ⟨statements, isRead, _⟩ := exists_statements_of_parse parsed
      obtain ⟨cut, isCut, chunksRead⟩ := (Sentence.readProgram_eq_ok_iff _ _ _).mp isRead
      have reads := (Sentence.readChunks_eq_ok_iff _ _ (cutCoherent cut isCut)).mp chunksRead
      refine ⟨cut, isCut, ?_⟩
      intro chunk inCut
      obtain ⟨index, inRange, rfl⟩ := List.getElem_of_mem inCut
      obtain ⟨phrase, isPhrase, builds⟩ := reads.get inRange (reads.length_eq ▸ inRange)
      exact ⟨phrase, isPhrase, builds.accepted⟩
    · rintro ⟨cut, isCut, phrases⟩
      obtain ⟨statements, reads⟩ := Sentence.exists_reads (cutCoherent cut isCut) phrases
      have chunksRead := (Sentence.readChunks_eq_ok_iff 2 _ (cutCoherent cut isCut)).mpr reads
      have isRead := (Sentence.readProgram_eq_ok_iff tokens file _).mpr ⟨cut, isCut, chunksRead⟩
      exact ⟨_, by rw [parse_eq, isRead]; rfl⟩
  refine ⟨parsedIff, ?_, ?_⟩
  · intro notProgram
    cases parsed : parse tokens file with
    | error fault => exact ⟨fault, rfl⟩
    | ok program => exact absurd (parsedIff.mp ⟨program, parsed⟩) notProgram
  · intro program parsed
    obtain ⟨statements, isRead, rfl⟩ := exists_statements_of_parse parsed
    obtain ⟨cut, isCut, chunksRead⟩ := (Sentence.readProgram_eq_ok_iff _ _ _).mp isRead
    have reads := (Sentence.readChunks_eq_ok_iff _ _ (cutCoherent cut isCut)).mp chunksRead
    refine ⟨cut, isCut, ?_⟩
    rw [untaggedProgram, Program.statements_assemble]
    exact Sentence.shows_of_reads (cutCoherent cut isCut) reads
      (Program.holds_assemble _ _ _)

/-- A program in all forms of statements; the declaration has a colon without a type. -/
theorem isProgram_of_all_forms :
    ∃ tokens program cut,
      Token.tokenize "declare x : = 1; x := x + 2; stdin x; stdout ~x;" "" = .ok tokens ∧
      parse tokens "" = .ok program ∧ IsProgram tokens ∧ IsCut tokens cut ∧
      List.Forall₂ (Shows program) cut program.statements := by
  obtain ⟨tokens, program, tokenized, parsed⟩ := exists_of_parses
    (by decide +kernel : parses "declare x : = 1; x := x + 2; stdin x; stdout ~x;" "" = true)
  obtain ⟨parsedIff, _, inOrder⟩ := parse_iff_isProgram "" (Token.coherent_of_tokenize tokenized)
  obtain ⟨cut, isCut, statements⟩ := inOrder program parsed
  exact ⟨tokens, program, cut, tokenized, parsed, parsedIff.mp ⟨program, parsed⟩, isCut,
    statements⟩

end Grammar
end ScriptLang
