import ScriptLang.Proofs.Program.Bare
import ScriptLang.Proofs.RoundTrip
import ScriptLang.Proofs.Token.Joining
import ScriptLang.Proofs.Twin.Checking
import ScriptLang.Proofs.Twin.Reading

/-!
# Layout

Two lists of scanned tokens that differ in their spans only, as two sources give
that are laid out differently.  They come to the same: to programs that differ in
places only and are analyzed alike, or to the same fault of the same stage, at the
same token of both lists.
-/

namespace ScriptLang

open Source (Position nowhere)
open Grammar (untaggedProgram)

/-- A token without its span. -/
def Token.unplaced (token : Token) : Token := { token with span := ⟨nowhere, nowhere⟩ }

/-- Two places are the starts, or the ends, of the tokens with the same number in two lists. -/
def Corresponding (first second : List Token) (place other : Position) : Prop :=
  ∃ (index : Nat) (token twin : Token),
    first[index]? = some token ∧ second[index]? = some twin ∧
      (place = token.span.start ∧ other = twin.span.start ∨
        place = token.span.stop ∧ other = twin.span.stop)

/-- What two lists of scanned tokens come to when they mean the same.  The files may differ. -/
inductive SameMeaning (first second : List Token) (file otherFile : String) : Prop
  /-- Both are refused by the parser. -/
  | unparsed
      (fault other : Fault)
      (refused : Grammar.parse (Token.finished first) file = .error fault)
      (otherRefused : Grammar.parse (Token.finished second) otherFile = .error other)
      (faults : Fault.Twin (Corresponding first second) fault other)
  /-- Both are parsed, and refused by the analysis. -/
  | mistyped
      (program again : Program) (fault other : Fault)
      (parsed : Grammar.parse (Token.finished first) file = .ok program)
      (parsedAgain : Grammar.parse (Token.finished second) otherFile = .ok again)
      (samePrograms : again.unplaced = program.unplaced)
      (refused : (Typing.analyze program).result = .error fault)
      (otherRefused : (Typing.analyze again).result = .error other)
      (faults : Fault.Twin (Corresponding first second) fault other)
  /-- Both are accepted. -/
  | accepted
      (program again : Program)
      (parsed : Grammar.parse (Token.finished first) file = .ok program)
      (parsedAgain : Grammar.parse (Token.finished second) otherFile = .ok again)
      (analyzed : (Typing.analyze program).result = .ok ())
      (analyzedAgain : (Typing.analyze again).result = .ok ())
      (samePrograms : (Typing.analyze again).program.unplaced =
        (Typing.analyze program).program.unplaced)
      (sameText : (Typing.analyze again).program.toText = (Typing.analyze program).program.toText)

namespace Token

section

variable {first second : List Token}

/-- Tokens that differ in their spans only are twins, at corresponding places. -/
theorem forall₂_twin_of_map_unplaced_eq
    (same : first.map unplaced = second.map unplaced) :
    List.Forall₂ (Token.Twin (Corresponding first second)) first second := by
  have sameLength : first.length = second.length := by
    simpa only [List.length_map] using congrArg List.length same
  apply List.forall₂_of_length_eq_of_get sameLength
  intro index inFirst inSecond
  have isToken : first[index]? = some (first.get ⟨index, inFirst⟩) :=
    List.getElem?_eq_getElem inFirst
  have isTwin : second[index]? = some (second.get ⟨index, inSecond⟩) :=
    List.getElem?_eq_getElem inSecond
  have sameHere : (first.get ⟨index, inFirst⟩).unplaced =
      (second.get ⟨index, inSecond⟩).unplaced := by
    have atIndex := congrArg (fun list => list[index]?) same
    simp only [List.getElem?_map, isToken, isTwin, Option.map_some] at atIndex
    exact Option.some.inj atIndex
  have starts : Corresponding first second (first.get ⟨index, inFirst⟩).span.start
      (second.get ⟨index, inSecond⟩).span.start :=
    ⟨index, _, _, isToken, isTwin, .inl ⟨rfl, rfl⟩⟩
  have stops : Corresponding first second (first.get ⟨index, inFirst⟩).span.stop
      (second.get ⟨index, inSecond⟩).span.stop :=
    ⟨index, _, _, isToken, isTwin, .inr ⟨rfl, rfl⟩⟩
  generalize first.get ⟨index, inFirst⟩ = token,
    second.get ⟨index, inSecond⟩ = twin at sameHere starts stops
  obtain ⟨kind, value, ⟨start, stop⟩, payload⟩ := token
  obtain ⟨otherKind, otherValue, ⟨otherStart, otherStop⟩, otherPayload⟩ := twin
  cases sameHere
  exact .intro kind value payload starts stops

end

section

variable {same : Position -> Position -> Prop}

/-- Two tokens are joined to one that starts as the first and ends as the second. -/
theorem join_twin
    {token other second otherSecond : Token}
    (kind : TokenKind)
    (twin : Token.Twin same token other)
    (secondTwin : Token.Twin same second otherSecond) :
    Token.Twin same (join kind token second) (join kind other otherSecond) := by
  unfold join
  rw [twin.value_eq, secondTwin.value_eq]
  exact .intro kind _ .empty twin.start secondTwin.stop

theorem withBinding_twin
    {token other : Token}
    (twin : Token.Twin same token other) :
    Token.Twin same token.withBinding other.withBinding := by
  unfold withBinding
  rw [twin.kind_eq]
  cases twin with
  | intro kind value payload sameStart sameStop =>
      dsimp only
      split
      · exact .intro kind value _ sameStart sameStop
      · exact .intro kind value payload sameStart sameStop

variable {tokens others : List Token}

/-- Pairs are joined at the same numbers of both lists, since only kinds decide. -/
theorem joinPairs_twin
    (twins : List.Forall₂ (Token.Twin same) tokens others) :
    List.Forall₂ (Token.Twin same) (joinPairs tokens) (joinPairs others) := by
  fun_induction joinPairs tokens generalizing others with
  | case1 first second rest kind joined inductionHypothesis =>
      cases twins with
      | cons firstTwin behind =>
          cases behind with
          | cons secondTwin restTwins =>
              rw [firstTwin.kind_eq, secondTwin.kind_eq] at joined
              rw [joinPairs, joined]
              exact .cons (join_twin kind firstTwin secondTwin) (inductionHypothesis restTwins)
  | case2 first second rest apart inductionHypothesis =>
      cases twins with
      | cons firstTwin behind =>
          have later := inductionHypothesis behind
          cases behind with
          | cons secondTwin restTwins =>
              rw [firstTwin.kind_eq, secondTwin.kind_eq] at apart
              rw [joinPairs, apart]
              exact .cons firstTwin later
  | case3 tokens fewer =>
      cases twins with
      | nil => exact .nil
      | cons firstTwin behind =>
          cases behind with
          | nil => exact .cons firstTwin .nil
          | cons secondTwin restTwins => exact absurd rfl (fewer _ _ _)

/-- The passes behind the scanner make twins of twins. -/
theorem finished_twin
    (twins : List.Forall₂ (Token.Twin same) tokens others) :
    List.Forall₂ (Token.Twin same) (finished tokens) (finished others) := by
  unfold finished bindOperators
  rw [List.forall₂_map_left_iff, List.forall₂_map_right_iff]
  exact (joinPairs_twin twins).imp fun _ _ => withBinding_twin

/-- Some token is left of every list that has one. -/
theorem finished_ne_nil
    (nonempty : tokens ≠ []) :
    finished tokens ≠ [] := by
  intro isEmpty
  have noPairs : joinPairs tokens = [] := List.map_eq_nil_iff.mp isEmpty
  unfold joinPairs at noPairs
  split at noPairs
  · split at noPairs <;> cases noPairs
  · exact nonempty noPairs

end

end Token

/-- Twin statements are the same without their places. -/
theorem StatementTree.map_unplaced_of_twin
    {same : Position -> Position -> Prop} {statements others : List StatementTree}
    (twins : List.Forall₂ (StatementTree.Twin same) statements others) :
    others.map unplaced = statements.map unplaced := by
  symm
  rw [← List.forall₂_eq_eq_eq, List.forall₂_map_left_iff, List.forall₂_map_right_iff]
  exact twins.imp fun _ _ => Twin.unplaced_eq

/-- The analysis of a parsed program ends as the check of its statements. -/
theorem Typing.result_analyze_untaggedProgram
    (position : Position) (statements : List StatementTree) :
    (analyze (untaggedProgram position statements)).result =
      (StatementTree.checkAll 2 .empty statements).map fun _ => () := by
  rw [untaggedProgram, analyze_assemble]

/-- Layout does not matter: tokens that differ in their spans only come to the same. -/
theorem sameMeaning_of_map_unplaced_eq
    {first second : List Token}
    (nonempty : first ≠ [])
    (same : first.map Token.unplaced = second.map Token.unplaced)
    (file otherFile : String) :
    SameMeaning first second file otherFile := by
  have twins := Token.finished_twin (Token.forall₂_twin_of_map_unplaced_eq same)
  have reading := Grammar.Sentence.readProgram_twin file otherFile
    (Token.finished_ne_nil nonempty) twins
  have parsing := Grammar.parse_eq (Token.finished first) file
  have parsingAgain := Grammar.parse_eq (Token.finished second) otherFile
  generalize Grammar.Sentence.startOf (Token.finished first) file = position at parsing
  generalize Grammar.Sentence.startOf (Token.finished second) otherFile = place at parsingAgain
  generalize Grammar.Sentence.readProgram (Token.finished first) file = read,
    Grammar.Sentence.readProgram (Token.finished second) otherFile = readAgain
    at reading parsing parsingAgain
  cases reading with
  | error faults => exact .unparsed _ _ parsing parsingAgain faults
  | @ok statements again statementsTwin =>
      have sameStatements := StatementTree.map_unplaced_of_twin statementsTwin
      have alike := Typing.analyze_alike position place sameStatements
      have checking := StatementTree.checkAll_twin 2 SymbolTable.twin_empty statementsTwin
      have result := Typing.result_analyze_untaggedProgram position statements
      have resultAgain := Typing.result_analyze_untaggedProgram place again
      generalize StatementTree.checkAll 2 .empty statements = checked,
        StatementTree.checkAll 2 .empty again = checkedAgain at checking result resultAgain
      cases checking with
      | error faults =>
          have samePrograms : (untaggedProgram place again).unplaced =
              (untaggedProgram position statements).unplaced := by
            rw [Grammar.unplaced_untaggedProgram, Grammar.unplaced_untaggedProgram,
              sameStatements]
          exact .mistyped _ _ _ _ parsing parsingAgain samePrograms result resultAgain faults
      | ok symbolsTwin =>
          change (Typing.analyze (untaggedProgram position statements)).result = .ok () at result
          change (Typing.analyze (untaggedProgram place again)).result = .ok () at resultAgain
          unfold Typing.Outcome.Alike at alike
          rw [result, resultAgain] at alike
          refine .accepted _ _ parsing parsingAgain result resultAgain alike ?_
          rw [← Program.toText_unplaced, alike, Program.toText_unplaced]

/-- An operator whose two characters are on different lines, with a comment between them, and
the same statement on one line: both compare a number with a truth value. -/
theorem sameMeaning_of_split_operator :
    ∃ first second,
      Token.scanSource "stdout 1 <= true;" "" = .ok first ∧
      Token.scanSource "stdout\n\t1 < // less\r\n=true\n;" "other" = .ok second ∧
      SameMeaning first second "" "other" := by
  have succeeds : ((Token.scanSource "stdout 1 <= true;" "").toOption.bind fun first =>
      (Token.scanSource "stdout\n\t1 < // less\r\n=true\n;" "other").toOption.map fun second =>
        decide (first ≠ [] ∧ first.map Token.unplaced = second.map Token.unplaced)) =
      some true := by decide +kernel
  cases scanned : Token.scanSource "stdout 1 <= true;" "" with
  | error diagnostic =>
      rw [scanned] at succeeds
      cases succeeds
  | ok first =>
      cases scannedAgain : Token.scanSource "stdout\n\t1 < // less\r\n=true\n;" "other" with
      | error diagnostic =>
          rw [scanned, scannedAgain] at succeeds
          cases succeeds
      | ok second =>
          rw [scanned, scannedAgain] at succeeds
          obtain ⟨nonempty, same⟩ := of_decide_eq_true (Option.some.inj succeeds)
          exact ⟨first, second, rfl, rfl, sameMeaning_of_map_unplaced_eq nonempty same "" "other"⟩

end ScriptLang
