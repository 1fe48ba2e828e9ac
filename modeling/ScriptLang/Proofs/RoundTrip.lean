import ScriptLang.Proofs.Fault.Reading
import ScriptLang.Proofs.Grammar.Printing
import ScriptLang.Proofs.Typing.Lines
import ScriptLang.Proofs.Typing.Unplaced

/-!
# Printed programs are parsed again

The text of a parsed program is cut into tokens and parsed without a fault, and
gives the same program apart from places.  The analysis of the two programs ends
alike: with the same types and symbols, or with the same fault.
-/

namespace ScriptLang

open Source (Position nowhere)
open Grammar (untaggedProgram)

namespace Grammar

/-- A program without its places is the program of its statements without their places. -/
theorem unplaced_untaggedProgram (position : Position) (statements : List StatementTree) :
    (untaggedProgram position statements).unplaced =
      untaggedProgram nowhere (statements.map StatementTree.unplaced) := by
  have agree : List.Forall₂ Tagged.Agrees (statements.map Tagged.plain)
      ((statements.map StatementTree.unplaced).map Tagged.plain) := by
    induction statements with
    | nil => exact .nil
    | cons first rest inductionHypothesis =>
        exact .cons ⟨rfl, fun _ => rfl⟩ inductionHypothesis
  exact Program.unplaced_assemble agree position .empty

/-- The text of a program does not depend on places. -/
theorem toText_untaggedProgram
    {statements again : List StatementTree}
    (position place : Position)
    (same : again.map StatementTree.unplaced = statements.map StatementTree.unplaced) :
    (untaggedProgram place again).toText = (untaggedProgram position statements).toText := by
  have statementsOf : ∀ list : List StatementTree,
      (list.map Tagged.plain).map Tagged.statement = list := by
    intro list
    rw [List.map_map]
    exact List.map_id list
  apply String.toList_injective
  unfold untaggedProgram
  rw [Program.toList_toText_assemble, Program.toList_toText_assemble, statementsOf, statementsOf,
    ← StatementTree.programPieces_unplaced again, same, StatementTree.programPieces_unplaced]

/-- A parsed program consists of statements that can be printed. -/
theorem exists_printable_of_parse
    {source file parsedAs : String} {tokens : List Token} {program : Program}
    (tokenized : Token.tokenize source file = .ok tokens)
    (parsed : parse tokens parsedAs = .ok program) :
    ∃ position statements, statements ≠ [] ∧
      (∀ statement ∈ statements, statement.WellFormed Leaf.Printable) ∧
      program = untaggedProgram position statements := by
  have readable : ∀ token ∈ tokens, Readable Leaf.Printable token := by
    intro token member
    exact ⟨Token.coherent_of_tokenize tokenized token member, fun _ content carries =>
      Token.carriesPrintable_of_tokenize tokenized token member content carries⟩
  have yields := Sentence.readProgram_yields parsedAs readable
  rw [parse_eq] at parsed
  cases read : Sentence.readProgram tokens parsedAs with
  | error fault =>
      rw [read] at parsed
      cases parsed
  | ok statements =>
      rw [read] at parsed
      cases parsed
      exact ⟨_, statements, Sentence.ne_nil_of_readProgram read, yields.value read, rfl⟩

/-- The text of printable statements is parsed as these statements, each of them on its line. -/
theorem parse_toText
    {statements : List StatementTree}
    (nonempty : statements ≠ [])
    (wellFormed : ∀ statement ∈ statements, statement.WellFormed Leaf.Printable)
    (position : Position) (file parsedAs : String) :
    ∃ tokens place again,
      Token.tokenize (untaggedProgram position statements).toText file = .ok tokens ∧
      parse tokens parsedAs = .ok (untaggedProgram place again) ∧
      again.map StatementTree.unplaced = statements.map StatementTree.unplaced ∧
      ∀ index statement, again[index]? = some statement ->
        statement.position.line = index + 1 := by
  have scans := StatementTree.scanSource_toText position .empty (statements.map Tagged.plain) file
    (by rw [List.map_map]; exact List.map_id statements) wellFormed
  obtain ⟨again, read, same, lines⟩ :=
    Sentence.readProgram_programPieces nonempty wellFormed file parsedAs
  let tokens := Token.finished
    (Token.Piece.placed (.start file) (StatementTree.programPieces statements))
  have parsed : parse tokens parsedAs =
      .ok (untaggedProgram (Sentence.startOf tokens parsedAs) again) := by
    rw [parse_eq, read]
    rfl
  exact ⟨tokens, _, again, Token.tokenize_of_scanSource scans, parsed, same, lines⟩

end Grammar

namespace Typing

/-- Two analyses end alike: both without a fault and with the same types and symbols, or both
with the same fault, where places do not matter. -/
def Outcome.Alike (first second : Outcome) : Prop :=
  match first.result, second.result with
  | .ok (), .ok () => second.program.unplaced = first.program.unplaced
  | .error fault, .error other => other.unplaced = fault.unplaced
  | _, _ => False

/-- The analyses of programs that are the same apart from places end alike. -/
theorem analyze_alike
    {statements again : List StatementTree}
    (position place : Position)
    (same : again.map StatementTree.unplaced = statements.map StatementTree.unplaced) :
    (analyze (untaggedProgram position statements)).Alike
      (analyze (untaggedProgram place again)) := by
  have checked := StatementTree.checkAll_unplaced 2 .empty statements
  have checkedAgain := StatementTree.checkAll_unplaced 2 .empty again
  rw [same, checked] at checkedAgain
  unfold untaggedProgram Outcome.Alike
  rw [analyze_assemble, analyze_assemble]
  cases result : StatementTree.checkAll 2 .empty statements with
  | error fault =>
      rw [result] at checkedAgain
      cases resultAgain : StatementTree.checkAll 2 .empty again with
      | error other =>
          rw [resultAgain] at checkedAgain
          exact (Except.error.inj checkedAgain).symm
      | ok symbols =>
          rw [resultAgain] at checkedAgain
          cases checkedAgain
  | ok symbols =>
      rw [result] at checkedAgain
      cases resultAgain : StatementTree.checkAll 2 .empty again with
      | error other =>
          rw [resultAgain] at checkedAgain
          cases checkedAgain
      | ok symbolsAgain =>
          rw [resultAgain] at checkedAgain
          have sameSymbols := Except.ok.inj checkedAgain
          change (analyzedProgram place again).unplaced =
            (analyzedProgram position statements).unplaced
          rw [unplaced_analyzedProgram place resultAgain, unplaced_analyzedProgram position result,
            same, sameSymbols]

/-- Every symbol is declared on the line of the statement that declares it. -/
theorem declaredOn_of_analyze
    {statements : List StatementTree}
    (position : Position)
    (succeeds : (analyze (untaggedProgram position statements)).result = .ok ())
    {index : Nat} {id : NodeId} {name : String}
    (isStatement : (untaggedProgram position statements).statements[index]? = some id)
    (declares : (untaggedProgram position statements).declaredName? id = some name) :
    ∃ statement, statements[index]? = some statement ∧
      (analyze (untaggedProgram position statements)).program.symbols.DeclaredOn name
        statement.position.line := by
  have holds : (untaggedProgram position statements).Holds 2
      (Tagged.layouts 2 (statements.map Tagged.plain)) :=
    Program.holds_extend (Program.frame position _ .empty) _
  unfold untaggedProgram at succeeds isStatement ⊢
  rw [Program.statements_assemble] at isStatement
  rw [analyze_assemble] at succeeds ⊢
  obtain ⟨tagged, isTagged, sameName⟩ := Program.declaredName?_tops holds isStatement
  rw [List.getElem?_map] at isTagged
  obtain ⟨statement, found, rfl⟩ := Option.map_eq_some_iff.mp isTagged
  cases checked : StatementTree.checkAll 2 .empty statements with
  | error fault =>
      rw [checked] at succeeds
      cases succeeds
  | ok symbols =>
      refine ⟨statement, found, ?_⟩
      obtain ⟨declared, _⟩ := StatementTree.declaredOn_of_checkAll checked
      rw [analyzedProgram_of_checkAll_eq_ok position checked, Program.symbols_assemble]
      apply declared statement (List.mem_of_getElem? found)
      rw [declares] at sameName
      exact sameName.symm

end Typing

/-- Printing is undone by parsing.  The text of a parsed program is parsed again, as the same
program apart from places, which has the same text.  The analyses of the two programs end
alike, and the symbol that a statement of the printed program declares is on the line with the
number of that statement. -/
theorem parse_toText_of_parse
    {source file parsedAs : String} {tokens : List Token} {program : Program}
    (tokenized : Token.tokenize source file = .ok tokens)
    (parsed : Grammar.parse tokens parsedAs = .ok program)
    (fileAgain parsedAgainAs : String) :
    ∃ tokensAgain again,
      Token.tokenize program.toText fileAgain = .ok tokensAgain ∧
      Grammar.parse tokensAgain parsedAgainAs = .ok again ∧
      again.unplaced = program.unplaced ∧
      again.toText = program.toText ∧
      (Typing.analyze program).Alike (Typing.analyze again) ∧
      ((Typing.analyze again).result = .ok () ->
        ∀ index id name, again.statements[index]? = some id ->
          again.declaredName? id = some name ->
          (Typing.analyze again).program.symbols.DeclaredOn name (index + 1)) := by
  obtain ⟨position, statements, nonempty, wellFormed, rfl⟩ :=
    Grammar.exists_printable_of_parse tokenized parsed
  obtain ⟨tokensAgain, place, again, tokenizedAgain, parsedAgain, same, lines⟩ :=
    Grammar.parse_toText nonempty wellFormed position fileAgain parsedAgainAs
  refine ⟨tokensAgain, untaggedProgram place again, tokenizedAgain, parsedAgain, ?_, ?_, ?_, ?_⟩
  · rw [Grammar.unplaced_untaggedProgram, Grammar.unplaced_untaggedProgram, same]
  · exact Grammar.toText_untaggedProgram position place same
  · exact Typing.analyze_alike position place same
  · intro succeeds index id name isStatement declares
    obtain ⟨statement, found, declared⟩ :=
      Typing.declaredOn_of_analyze place succeeds isStatement declares
    rw [← lines index statement found]
    exact declared

/-- A program whose operator stands behind its operands, and whose statements do not stand on
lines of their own. -/
theorem parse_toText_of_postfix :
    ∃ tokens program tokensAgain again,
      Token.tokenize "declare x = 1 2 +; stdout\n x;" "" = .ok tokens ∧
      Grammar.parse tokens "" = .ok program ∧
      Token.tokenize program.toText "" = .ok tokensAgain ∧
      Grammar.parse tokensAgain "" = .ok again ∧
      again.unplaced = program.unplaced ∧
      again.toText = program.toText ∧
      (Typing.analyze program).Alike (Typing.analyze again) := by
  have succeeds : ((Token.tokenize "declare x = 1 2 +; stdout\n x;" "").toOption.bind
      fun tokens => (Grammar.parse tokens "").toOption).isSome = true := by decide +kernel
  cases tokenized : Token.tokenize "declare x = 1 2 +; stdout\n x;" "" with
  | error diagnostic =>
      rw [tokenized] at succeeds
      cases succeeds
  | ok tokens =>
      rw [tokenized] at succeeds
      change (Grammar.parse tokens "").toOption.isSome = true at succeeds
      cases parsed : Grammar.parse tokens "" with
      | error fault =>
          rw [parsed] at succeeds
          cases succeeds
      | ok program =>
          obtain ⟨tokensAgain, again, tokenizedAgain, parsedAgain, same, sameText, alike, _⟩ :=
            parse_toText_of_parse tokenized parsed "" ""
          exact ⟨tokens, program, tokensAgain, again, rfl, parsed, tokenizedAgain, parsedAgain,
            same, sameText, alike⟩

end ScriptLang
