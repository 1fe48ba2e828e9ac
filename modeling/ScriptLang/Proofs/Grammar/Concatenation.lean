import ScriptLang.Proofs.Fault.Reading
import ScriptLang.Proofs.Grammar.Printing
import ScriptLang.Proofs.Program.Shifted

/-!
# Programs with more statements behind them

No statement depends on what stands behind its semicolon.  Its tree does not even
depend on the nodes that are in the program already, which are only counted to
name a node in a refusal that coherent tokens never meet.  The main statement says
that two token lists, of which the first one ends with a semicolon, are parsed one
behind the other, and that the first statement that is refused decides the fault.
-/

namespace ScriptLang
namespace Grammar

open Source (Position)

/-- The tokens of an expression that coherent operands can stand in are read to the same tree
wherever its nodes will stand. -/
theorem Forest.parse_start
    {tokens : List Token}
    (start other : Nat) (position : Position)
    (coherent : ∀ token ∈ tokens, token.Coherent) :
    parse start tokens position = parse other tokens position := by
  unfold parse
  split
  · rfl
  · cases read : readAll greatestDepth tokens with
    | error fault => rfl
    | ok trees =>
        have every := readAll_every (carries_of_coherent coherent) read
        rcases trees with _ | ⟨tree, _ | ⟨second, others⟩⟩
        · rfl
        · have isExpression := isExpression_of_every ((allEvery_cons _ _ _).mp every).1
          rw [ok_bind, ok_bind, single, single, if_pos isExpression, if_pos isExpression]
        · rfl

namespace Sentence

section

variable {tokens : List Token} (start other : Nat) (stop : Position)

/-- A coherent token, of whose leaf nothing else is asked. -/
theorem readable_of_coherent
    (coherent : ∀ token ∈ tokens, token.Coherent) :
    ∀ token ∈ tokens, Readable (fun _ => True) token :=
  fun token member => ⟨coherent token member, fun _ _ _ => trivial⟩

theorem takeInitializer_start
    (readable : ∀ token ∈ tokens, Readable (fun _ => True) token) :
    takeInitializer start stop tokens = takeInitializer other stop tokens := by
  cases tokens with
  | nil => rfl
  | cons token rest =>
      have restCoherent : ∀ token ∈ rest, token.Coherent := fun token member =>
        (readable token (List.mem_cons_of_mem _ member)).1
      simp only [takeInitializer, Forest.parse_start start other _ restCoherent]

theorem declaration_start
    (first : Token)
    (readable : ∀ token ∈ tokens, Readable (fun _ => True) token) :
    declaration start stop first tokens = declaration other stop first tokens := by
  refine (expectFirst_yields .identifier .declaredName stop readable).bind_congr ?_
  rintro ⟨identifierToken, rest⟩ ⟨isIdentifier, identifierReadable, restReadable⟩
  refine (leafAt_yields_name isIdentifier identifierReadable).bind_congr ?_
  intro identifier _
  refine (takeType_yields _ _ (takeColon_readable restReadable)).bind_congr ?_
  rintro ⟨typeKeyword, behindType⟩ ⟨_, behindReadable⟩
  dsimp only
  rw [takeInitializer_start _ (other + (identifier :: typeKeyword.toList).length) _
    behindReadable]

theorem assignment_start
    {first : Token}
    (isIdentifier : first.kind = .identifier)
    (firstReadable : Readable (fun _ => True) first)
    (readable : ∀ token ∈ tokens, Readable (fun _ => True) token) :
    assignment start stop first tokens = assignment other stop first tokens := by
  refine (leafAt_yields_name isIdentifier firstReadable).bind_congr ?_
  intro identifier _
  refine (expectFirst_yields .colon _ stop readable).bind_congr ?_
  rintro ⟨colon, behindColon⟩ ⟨_, _, behindColonReadable⟩
  refine (expectFirst_yields .equal _ stop behindColonReadable).bind_congr ?_
  rintro ⟨equal, behindEqual⟩ ⟨_, _, behindEqualReadable⟩
  dsimp only
  rw [Forest.parse_start _ (other + 1) _ fun token member => (behindEqualReadable token member).1]

theorem form_start
    {first : Token}
    (firstReadable : Readable (fun _ => True) first)
    (readable : ∀ token ∈ tokens, Readable (fun _ => True) token) :
    form start stop first tokens = form other stop first tokens := by
  unfold form
  split
  · exact declaration_start start other stop first readable
  · next isIdentifier => exact assignment_start start other stop isIdentifier firstReadable readable
  · rfl
  · rw [output, Forest.parse_start start other _ fun token member => (readable token member).1]
    rfl
  · rfl

/-- Coherent tokens are read to the same statement, or refused in the same way, wherever its
nodes will stand. -/
theorem read_start
    (readable : ∀ token ∈ tokens, Readable (fun _ => True) token) :
    read start stop tokens = read other stop tokens := by
  cases tokens with
  | nil => rfl
  | cons first rest =>
      obtain ⟨firstReadable, restReadable⟩ := List.forall_mem_cons.mp readable
      rw [read, read, form_start start other stop firstReadable restReadable]

end

/-- All tokens of all chunks are coherent. -/
def ReadableChunks (list : List Chunk) : Prop :=
  ∀ chunk ∈ list, ∀ token ∈ chunk.tokens, Readable (fun _ => True) token

theorem readChunks_start
    {list : List Chunk}
    (start other : Nat)
    (readable : ReadableChunks list) :
    readChunks start list = readChunks other list := by
  induction list generalizing start other with
  | nil => rfl
  | cons chunk rest inductionHypothesis =>
      obtain ⟨chunkReadable, restReadable⟩ := List.forall_mem_cons.mp readable
      rw [readChunks, readChunks, read_start start other _ chunkReadable]
      refine bind_congr fun statement => ?_
      rw [inductionHypothesis _ (other + statement.descendants + 1) restReadable]

/-- Chunks are read one after the other, up to the first that is refused. -/
theorem readChunks_append
    {first second : List Chunk}
    (start : Nat)
    (readable : ReadableChunks second) :
    readChunks start (first ++ second) = do
      let statements ← readChunks start first
      let others ← readChunks start second
      return statements ++ others := by
  induction first generalizing start with
  | nil =>
      rw [List.nil_append, readChunks, ok_bind]
      cases readChunks start second <;> rfl
  | cons chunk rest inductionHypothesis =>
      rw [List.cons_append, readChunks, readChunks]
      cases read start chunk.semicolon.span.start chunk.tokens with
      | error fault => rfl
      | ok statement =>
          rw [ok_bind, ok_bind, inductionHypothesis,
            readChunks_start (start + statement.descendants + 1) start readable]
          cases readChunks (start + statement.descendants + 1) rest with
          | error fault => rfl
          | ok statements => cases readChunks start second <;> rfl

end Sentence

/-- Tokens that end with a semicolon leave nothing behind their last chunk. -/
theorem trailing_eq_nil
    {tokens : List Token}
    (ends : tokens.getLast?.map Token.kind = some .semicolon) :
    (chunks tokens).2 = [] := by
  have whole := flatMap_chunks tokens
  have noSemicolon := (semicolons_chunks tokens).2
  rcases List.eq_nil_or_concat' (chunks tokens).2 with nothing | ⟨others, final, trailing⟩
  · exact nothing
  · rw [trailing, ← List.append_assoc] at whole
    rw [trailing] at noSemicolon
    rw [← whole, List.getLast?_concat] at ends
    exact absurd (Option.some.inj ends) (noSemicolon final (by simp))

/-- Tokens behind a semicolon are cut on their own. -/
theorem chunks_append
    {first : List Token}
    (second : List Token)
    (whole : (chunks first).2 = []) :
    chunks (first ++ second) =
      ((chunks first).1 ++ (chunks second).1, (chunks second).2) := by
  induction first with
  | nil => rfl
  | cons token rest inductionHypothesis =>
      rw [List.cons_append, chunks, chunks]
      rw [chunks] at whole
      split
      · next isSemicolon =>
          rw [if_pos isSemicolon] at whole
          rw [inductionHypothesis whole]
          rfl
      · next notSemicolon =>
          rw [if_neg notSemicolon] at whole
          cases cut : chunks rest with
          | mk found trailing =>
              rw [cut] at whole inductionHypothesis
              cases found with
              | nil => cases whole
              | cons chunk others =>
                  rw [inductionHypothesis whole]
                  rfl

/-- The tokens of the chunks are tokens of the list. -/
theorem Sentence.readableChunks_of_coherent
    {tokens : List Token}
    (coherent : ∀ token ∈ tokens, token.Coherent) :
    ReadableChunks (chunks tokens).1 := by
  intro chunk inChunks token inChunk
  refine readable_of_coherent coherent token ?_
  rw [← flatMap_chunks tokens]
  refine List.mem_append_left _ (List.mem_flatMap.mpr ⟨chunk, inChunks, ?_⟩)
  exact List.mem_append_left _ inChunk

section

variable {first second : List Token}

/-- The statements of two token lists are read one after the other. -/
theorem Sentence.readProgram_append
    (file : String)
    (ends : first.getLast?.map Token.kind = some .semicolon)
    (nonempty : second ≠ [])
    (coherent : ∀ token ∈ second, token.Coherent) :
    readProgram (first ++ second) file = do
      let statements ← readProgram first file
      let others ← readProgram second file
      return statements ++ others := by
  have firstNonempty : first ≠ [] := by
    rintro rfl
    cases ends
  have whole := trailing_eq_nil ends
  unfold readProgram
  simp only [List.isEmpty_iff, firstNonempty, nonempty, List.append_eq_nil_iff, false_and,
    if_false, chunks_append second whole, whole,
    readChunks_append 2 (readableChunks_of_coherent coherent)]
  cases readChunks 2 (chunks first).1 with
  | error fault => rfl
  | ok statements =>
      cases readChunks 2 (chunks second).1 with
      | error fault => rfl
      | ok others => cases refuseTrailing (chunks second).2 <;> rfl

/-- Two token lists of which the first one ends with a semicolon are parsed one behind the
other. -/
theorem parse_append
    (file : String)
    (ends : first.getLast?.map Token.kind = some .semicolon)
    (nonempty : second ≠ [])
    (coherent : ∀ token ∈ second, token.Coherent) :
    parse (first ++ second) file = do
      let program ← parse first file
      let other ← parse second file
      return program.followedBy other := by
  have samePosition : Sentence.startOf (first ++ second) file = Sentence.startOf first file := by
    cases first with
    | nil => cases ends
    | cons token rest => rfl
  rw [parse_eq, parse_eq, parse_eq, samePosition,
    Sentence.readProgram_append file ends nonempty coherent]
  cases Sentence.readProgram first file with
  | error fault => rfl
  | ok statements =>
      cases Sentence.readProgram second file with
      | error fault => rfl
      | ok others =>
          change Except.ok _ = Except.ok _
          rw [untaggedProgram, List.map_append, Program.assemble_append]
          rfl

end

/-- Parsing is compositional at semicolons.  If the first token list ends with a semicolon, both
are parsed one behind the other: the first of them that is refused decides the fault, and
otherwise the nodes of the first program are followed by those of the second one. -/
theorem parse_sequence
    {first second : List Token}
    (file : String)
    (ends : first.getLast?.map Token.kind = some .semicolon)
    (nonempty : second ≠ [])
    (coherent : ∀ token ∈ first ++ second, token.Coherent) :
    (∀ fault, parse first file = .error fault -> parse (first ++ second) file = .error fault) ∧
    ∀ program, parse first file = .ok program ->
      (∀ fault, parse second file = .error fault ->
        parse (first ++ second) file = .error fault) ∧
      ∀ other, parse second file = .ok other ->
        parse (first ++ second) file = .ok (program.followedBy other) ∧
          program.IsSequence other (program.followedBy other) := by
  have both := parse_append file ends nonempty fun token member =>
    coherent token (List.mem_append_right first member)
  refine ⟨?_, ?_⟩
  · intro fault failed
    rw [both, failed, error_bind]
  · intro program parsed
    rw [parsed, ok_bind] at both
    refine ⟨?_, ?_⟩
    · intro fault failed
      rw [both, failed, error_bind]
    · intro other otherParsed
      rw [otherParsed, ok_bind] at both
      obtain ⟨statements, _, rfl⟩ := exists_statements_of_parse parsed
      obtain ⟨others, _, rfl⟩ := exists_statements_of_parse otherParsed
      exact ⟨both, Program.isSequence_assemble ..⟩

/-- A declaration and an assignment that are parsed on their own. -/
theorem parse_sequence_of_declaration_and_assignment :
    ∃ first second program other,
      Token.tokenize "declare x := 1;" "" = .ok first ∧
      Token.tokenize "x := (x + 2) * 3; stdout x;" "" = .ok second ∧
      parse first "" = .ok program ∧ parse second "" = .ok other ∧
      parse (first ++ second) "" = .ok (program.followedBy other) ∧
      program.IsSequence other (program.followedBy other) := by
  obtain ⟨first, program, tokenized, parsed⟩ := exists_of_parses
    (by decide +kernel : parses "declare x := 1;" "" = true)
  obtain ⟨second, other, otherTokenized, otherParsed⟩ := exists_of_parses
    (by decide +kernel : parses "x := (x + 2) * 3; stdout x;" "" = true)
  have ends : (Token.tokenize "declare x := 1;" "").toOption.bind
      (fun tokens => tokens.getLast?.map Token.kind) = some .semicolon := by decide +kernel
  rw [tokenized] at ends
  have nonempty : second ≠ [] := by
    rintro rfl
    rw [parse_eq] at otherParsed
    cases otherParsed
  have coherent : ∀ token ∈ first ++ second, token.Coherent := by
    intro token member
    rcases List.mem_append.mp member with inFirst | inSecond
    · exact Token.coherent_of_tokenize tokenized token inFirst
    · exact Token.coherent_of_tokenize otherTokenized token inSecond
  have sequence := parse_sequence "" ends nonempty coherent
  exact ⟨first, second, program, other, tokenized, otherTokenized, parsed, otherParsed,
    (sequence.2 program parsed).2 other otherParsed⟩

end Grammar
end ScriptLang
