import ScriptLang.Proofs.Typing.Frame
import ScriptLang.Proofs.Typing.Interruption

/-!
# Recorded types of whole programs

Which types are recorded when the analysis of a program ends.  After one that succeeds
every expression has the type that its rule gives.  One that fails at a statement has
typed all expressions in front of it and none behind it, and those in the statement as
its fault tells.
-/

namespace ScriptLang

open Source (Position)
open Grammar (untaggedProgram)

namespace Program

/-- The types that are left by an analysis that has failed at the statement with a number: all in
front of that statement, none behind it, and those within it that satisfy a condition. -/
structure TaggedUpTo (program final : Program) (index : Nat) (within : NodeId -> Prop) :
    Prop where
  /-- Every expression belongs to a statement. -/
  placed : ∀ id, final.IsExpression id -> ∃ place statement : Nat,
    program.statements[place]? = some statement ∧ program.Under statement id
  tagged : ∀ (place : Nat) (statement id : NodeId), program.statements[place]? = some statement ->
    program.Under statement id -> final.IsExpression id ->
      ((final.recordedTy? id).isSome ↔ place < index ∨ place = index ∧ within id)

/-- If the parts of a statement are what its form calls for, then only a target that is not
declared stops it in front of its expression. -/
theorem undeclared_of_unready
    {program : Program} {symbols : SymbolTable} {id : NodeId} {fault : Fault}
    (fitsAt : program.FitsAt id)
    (unready : program.Unready symbols id fault) :
    ∃ name position, fault = .report ⟨.undeclared name, position⟩ := by
  cases unready with
  | target statement identifier node name isStatement isTarget isNode isName undeclared =>
      exact ⟨name, node.position, rfl⟩
  | name statement identifier node isStatement isIdentifier isNode noName =>
      have isName : program.IsIdentifier identifier := by
        have fits := fitsAt _ isStatement
        cases statement <;> cases isIdentifier
        · exact fits.1
        · exact fits.1
        · exact fits
      obtain ⟨name, isName⟩ := isName
      rw [kind?_of_node? isNode] at isName
      exact absurd (Option.some.inj isName) (noName name)
  | keyword statement keyword node isStatement isKeyword isNode noType =>
      have isType : program.IsTypeKeyword keyword := by
        have fits := fitsAt _ isStatement
        cases statement with
        | declaration identifier typeKeyword expression => exact fits.2.1 keyword isKeyword
        | _ => cases isKeyword
      obtain ⟨ty, isType⟩ := isType
      rw [kind?_of_node? isNode] at isType
      exact absurd (Option.some.inj isType) (noType ty)
  | bare identifier name position isStatement =>
      obtain ⟨_, _, _, typed⟩ := fitsAt _ isStatement
      exact absurd typed (by simp)

end Program

namespace Typing

open Program

/-- An analysis changes nothing but types and symbols. -/
theorem bare_analyzedProgram (position : Position) (statements : List StatementTree) :
    (analyzedProgram position statements).bare = (untaggedProgram position statements).bare := by
  have isTree : (untaggedProgram position statements).IsTree := isTree_assemble
  have keeps := (analyze_keepsBare isTree.wellLinked).2
  rw [untaggedProgram, analyze_assemble] at keeps
  exact keeps

section

variable (position : Position) (before after : List StatementTree) (statement : StatementTree)

/-- A statement behind others stands behind their nodes. -/
theorem holds_untaggedProgram :
    (untaggedProgram position (before ++ statement :: after)).Holds
      (2 + Tagged.extent (before.map Tagged.plain))
      (statement.layout Tree.untagged (2 + Tagged.extent (before.map Tagged.plain)) (some 0)) := by
  have holds := holds_assemble position .empty ((before ++ statement :: after).map Tagged.plain)
  rw [List.map_append, Tagged.layouts_append, holds_append, Tagged.length_layouts, List.map_cons,
    Tagged.layouts, holds_append] at holds
  rw [untaggedProgram, List.map_append]
  exact holds.2.1

/-- The statements in front of one, this one, and those behind it. -/
theorem getElem?_statements_untaggedProgram :
    let statements := (untaggedProgram position (before ++ statement :: after)).statements
    let top := 2 + Tagged.extent (before.map Tagged.plain) + statement.descendants
    (∀ index, index < before.length ->
      statements[index]? = (Tagged.tops 2 (before.map Tagged.plain))[index]?) ∧
    statements[before.length]? = some top ∧
    ∀ index, statements[before.length + 1 + index]? =
      (Tagged.tops (top + 1) (after.map Tagged.plain))[index]? := by
  intro statements top
  have split : statements = Tagged.tops 2 (before.map Tagged.plain) ++
      top :: Tagged.tops (top + 1) (after.map Tagged.plain) := by
    simp only [statements, untaggedProgram, statements_assemble, List.map_append,
      Tagged.tops_append]
    rfl
  have length : (Tagged.tops 2 (before.map Tagged.plain)).length = before.length := by
    rw [Tagged.length_tops, List.length_map]
  rw [split]
  refine ⟨fun index inFront => ?_, ?_, fun index => ?_⟩
  · exact List.getElem?_append_left (length.symm ▸ inFront)
  · rw [List.getElem?_append_right (Nat.le_of_eq length), length, Nat.sub_self]
    rfl
  · have behind : before.length + 1 + index - before.length = index + 1 := by omega
    rw [List.getElem?_append_right (by omega), length, behind, List.getElem?_cons_succ]

end

section

variable {before : List StatementTree} {statement : StatementTree} {last : SymbolTable}
  {fault : Fault}
  (position : Position) (after : List StatementTree)
  (checked : StatementTree.checkAll 2 .empty before = .ok last)
  (refused : statement.check (2 + Tagged.extent (before.map Tagged.plain)) last = .error fault)

include checked refused

/-- The analysis fails at the statement that the check refuses. -/
theorem failsAt_of_refused :
    (untaggedProgram position (before ++ statement :: after)).FailsAt fault before.length := by
  let statements := before ++ statement :: after
  let log : Log := [.analyzing (untaggedProgram position statements).statements.length]
  have found := (getElem?_statements_untaggedProgram position before after statement).2.1
  obtain ⟨reached, run, _⟩ := analyzeAll_take position statements before.length log
  obtain ⟨stopped, runOn, _⟩ := analyzeAll_take position statements (before.length + 1) log
  have taken : statements.take before.length = before := List.take_left
  have takenOn : statements.take (before.length + 1) = before ++ [statement] := by
    rw [List.take_length_add_append]
    rfl
  rw [taken, checked] at run
  rw [takenOn, StatementTree.checkAll_append checked, StatementTree.checkAll, refused,
    analyzeAll_take_succ found run] at runOn
  exact ⟨_, reached, stopped, found, run, runOn⟩

/-- What is left of a program whose check refuses a statement. -/
theorem holds_analyzedProgram :
    let final := analyzedProgram position (before ++ statement :: after)
    let place := 2 + Tagged.extent (before.map Tagged.plain)
    final.symbols = last ∧
      final.Holds 2 (Tagged.layouts 2 (StatementTree.typedAll 2 .empty before)) ∧
      final.Holds place (statement.reached last place (some 0)) ∧
      final.Holds (place + statement.descendants + 1)
        (Tagged.layouts (place + statement.descendants + 1) (after.map Tagged.plain)) := by
  intro final place
  have nodes : StatementTree.reachedAll 2 .empty (before ++ statement :: after) =
      Tagged.layouts 2 (StatementTree.typedAll 2 .empty before) ++
        (statement.reached last place (some 0) ++
          Tagged.layouts (place + statement.descendants + 1) (after.map Tagged.plain)) := by
    rw [StatementTree.reachedAll_append checked, StatementTree.reachedAll, refused]
  have holds : final.Holds 2 _ := holds_extend _ _
  rw [nodes, holds_append, holds_append, Tagged.length_layouts, StatementTree.length_reached,
    StatementTree.extent_typedAll] at holds
  refine ⟨?_, holds⟩
  rw [symbols_analyzedProgram, StatementTree.symbolsOfAll_append checked,
    StatementTree.symbolsOfAll, refused]

/-- The types that are left of a program whose check refuses a statement. -/
theorem exists_stopsAt_of_refused :
    let program := untaggedProgram position (before ++ statement :: after)
    let final := analyzedProgram position (before ++ statement :: after)
    ∃ failing within, program.statements[before.length]? = some failing ∧
      program.StopsAt final failing fault within ∧
      ∀ id, final.IsExpression id -> ∃ index top, program.statements[index]? = some top ∧
        program.Under top id ∧
        final.TypedIff id (index < before.length ∨ index = before.length ∧ within id) := by
  intro program final
  have same := bare_analyzedProgram position (before ++ statement :: after)
  have holds := holds_untaggedProgram position before after statement
  obtain ⟨earlierAre, isHere, laterAre⟩ :=
    getElem?_statements_untaggedProgram position before after statement
  obtain ⟨symbolsAre, earlier, reached, later⟩ :=
    holds_analyzedProgram position after checked refused
  rw [← symbolsAre] at reached refused
  obtain ⟨within, stops, typedIff⟩ := exists_stopsAt holds reached refused
  refine ⟨_, within, isHere, stops, ?_⟩
  intro id isExpression
  have inProgram := (isExpression_iff_of_bare_eq same id).mp isExpression
  obtain ⟨least, less⟩ := range_of_isExpression inProgram
  rw [List.map_append, Tagged.extent_append, List.map_cons, Tagged.extent] at less
  -- The nodes of every statement are numbered without a gap, so the number of the expression tells
  -- whether it belongs to a statement in front of the failing one, to one behind it, or to it.
  rcases Nat.lt_or_ge id (2 + Tagged.extent (before.map Tagged.plain)) with inFront | behind
  · obtain ⟨index, top, isEarlier, isTop, isUnder, typed⟩ :=
      typedAt_of_typedAll checked symbolsAre earlier least inFront isExpression
    refine ⟨index, top, (earlierAre index isEarlier).trans isTop,
      (under_iff_of_bare_eq same top id).mp isUnder, .inl ⟨.inl isEarlier, typed⟩⟩
  · rcases Nat.lt_or_ge
        (2 + Tagged.extent (before.map Tagged.plain) + statement.descendants) id with
      isLater | inStatement
    · obtain ⟨index, top, isTop, isUnder, untyped⟩ :=
        recordedTy?_of_plain later isLater (by simp only [Tagged.plain] at less; omega) isExpression
      refine ⟨before.length + 1 + index, top, (laterAre index).trans isTop,
        (under_iff_of_bare_eq same top id).mp isUnder, .inr ⟨by omega, untyped⟩⟩
    · refine ⟨before.length, _, isHere, (subtree_of_statement holds).under behind inStatement, ?_⟩
      rcases typedIff id behind inStatement inProgram with ⟨isWithin, typed⟩ | ⟨notWithin, untyped⟩
      · exact .inl ⟨.inr ⟨rfl, isWithin⟩, typed⟩
      · refine .inr ⟨?_, untyped⟩
        rintro (less | ⟨_, isWithin⟩)
        · exact Nat.lt_irrefl _ less
        · exact notWithin isWithin

end

/-- The expressions of a program that is checked without a fault stand for the types that their
rules give. -/
theorem typedAt_of_checked
    {statements : List StatementTree} {last : SymbolTable} {id : NodeId}
    (position : Position)
    (checked : StatementTree.checkAll 2 .empty statements = .ok last)
    (isExpression : (analyzedProgram position statements).IsExpression id) :
    (analyzedProgram position statements).TypedAt id := by
  have inProgram := (isExpression_iff_of_bare_eq (bare_analyzedProgram position statements) id).mp
    isExpression
  obtain ⟨least, less⟩ := range_of_isExpression inProgram
  rw [analyzedProgram_of_checkAll_eq_ok position checked] at isExpression ⊢
  obtain ⟨_, _, _, _, _, typed⟩ := typedAt_of_typedAll checked (symbols_assemble ..)
    (holds_assemble position last _) least less isExpression
  exact typed

/-- A program that is checked with a fault is left with types up to that fault. -/
theorem exists_taggedUpTo
    {statements : List StatementTree} {fault : Fault}
    (position : Position)
    (failed : StatementTree.checkAll 2 .empty statements = .error fault) :
    let program := untaggedProgram position statements
    let final := analyzedProgram position statements
    (∀ id ty, final.recordedTy? id = some ty -> final.verdict? id = some (.ok ty)) ∧
      ∃ index statement within, program.FailsAt fault index ∧
        program.statements[index]? = some statement ∧
        program.StopsAt final statement fault within ∧ program.TaggedUpTo final index within := by
  intro program final
  obtain ⟨before, statement, after, last, rfl, checked, refused⟩ :=
    StatementTree.exists_refused_of_checkAll failed
  obtain ⟨failing, within, isFailing, stops, typedIff⟩ :=
    exists_stopsAt_of_refused position after checked refused
  constructor
  · intro id ty recorded
    obtain ⟨_, _, _, _, here⟩ := typedIff id (isExpression_of_recordedTy? recorded)
    exact here.verdict?_eq recorded
  refine ⟨before.length, failing, within, failsAt_of_refused position after checked refused,
    isFailing, stops, ?_, ?_⟩
  · intro id isExpression
    obtain ⟨index, top, isTop, isUnder, _⟩ := typedIff id isExpression
    exact ⟨index, top, isTop, isUnder⟩
  · intro place other id isOther isUnder isExpression
    obtain ⟨index, top, isTop, underTop, here⟩ := typedIff id isExpression
    have subtrees := (subtrees_assemble position .empty
      ((before ++ statement :: after).map Tagged.plain)).1
    change (untaggedProgram position (before ++ statement :: after)).statements[place]? =
      some other at isOther
    rw [untaggedProgram, statements_assemble] at isOther isTop
    obtain rfl := subtrees.index_unique isOther isTop isUnder underTop
    exact here.isSome_iff isExpression

end Typing

/-- The recorded types.  Every type that an analysis leaves is the one that the rule of its
expression gives for the types of the operands.  An analysis without a fault leaves a type at
every expression.  One that fails does so at a statement: it leaves types at all expressions in
front of that statement and at none behind it, and at those in the statement that come before the
fault.  In the program of a source nothing but an undeclared target stops a statement in front of
its expression. -/
theorem recordedTypes_of_parse
    {tokens : List Token} {file : String} {program : Program}
    (parsed : Grammar.parse tokens file = .ok program) :
    (∀ id ty, (Typing.analyze program).program.recordedTy? id = some ty ->
      (Typing.analyze program).program.verdict? id = some (.ok ty)) ∧
    ((Typing.analyze program).result = .ok () ->
      ∀ id, (Typing.analyze program).program.IsExpression id ->
        ∃ ty, (Typing.analyze program).program.recordedTy? id = some ty) ∧
    (∀ fault, (Typing.analyze program).result = .error fault ->
      ∃ index statement within, program.FailsAt fault index ∧
        program.statements[index]? = some statement ∧
        program.StopsAt (Typing.analyze program).program statement fault within ∧
        program.TaggedUpTo (Typing.analyze program).program index within) ∧
    ∀ source sourceFile, Token.tokenize source sourceFile = .ok tokens ->
      ∀ symbols id fault, program.Unready symbols id fault ->
        ∃ name position, fault = .report ⟨.undeclared name, position⟩ := by
  have fits : ∀ source sourceFile, Token.tokenize source sourceFile = .ok tokens ->
      ∀ id, program.FitsAt id := (isTree_of_parse parsed).2
  obtain ⟨statements, _, rfl⟩ := Grammar.exists_statements_of_parse parsed
  let position := Grammar.Sentence.startOf tokens file
  have analyzed := Typing.analyze_assemble position statements
  have left : (Typing.analyze (untaggedProgram position statements)).program =
      Typing.analyzedProgram position statements := congrArg Typing.Outcome.program analyzed
  have result : (Typing.analyze (untaggedProgram position statements)).result =
      (StatementTree.checkAll 2 .empty statements).map fun _ => () :=
    congrArg Typing.Outcome.result analyzed
  have onlyTargets : ∀ source sourceFile, Token.tokenize source sourceFile = .ok tokens ->
      ∀ symbols id fault, (untaggedProgram position statements).Unready symbols id fault ->
        ∃ name position, fault = .report ⟨.undeclared name, position⟩ := by
    intro source sourceFile tokenized symbols id fault unready
    exact Program.undeclared_of_unready (fits source sourceFile tokenized id) unready
  rw [left, result]
  cases checked : StatementTree.checkAll 2 .empty statements with
  | ok last =>
      have typedIff : ∀ id, (Typing.analyzedProgram position statements).IsExpression id ->
          (Typing.analyzedProgram position statements).TypedIff id True :=
        fun _ isExpression =>
          .inl ⟨trivial, Typing.typedAt_of_checked position checked isExpression⟩
      refine ⟨?_, ?_, ?_, onlyTargets⟩
      · intro id ty recorded
        exact (typedIff id (Program.isExpression_of_recordedTy? recorded)).verdict?_eq recorded
      · intro _ id isExpression
        exact Option.isSome_iff_exists.mp
          (((typedIff id isExpression).isSome_iff isExpression).mpr trivial)
      · intro fault failed
        cases failed
  | error fault =>
      obtain ⟨verdicts, stops⟩ := Typing.exists_taggedUpTo position checked
      refine ⟨verdicts, ?_, ?_, onlyTargets⟩
      · intro accepted
        cases accepted
      · intro other failed
        cases failed
        exact stops

/-- A program whose analysis has typed the first operand of a product when it fails in the second
one. -/
theorem recordedTypes_of_refused_product :
    ∃ tokens program fault,
      Token.tokenize "declare x = 1; x := (x + 2) * (x + true); stdout x;" "" = .ok tokens ∧
      Grammar.parse tokens "" = .ok program ∧
      (Typing.analyze program).result = .error fault ∧
      ∃ index statement within, program.FailsAt fault index ∧
        program.statements[index]? = some statement ∧
        program.StopsAt (Typing.analyze program).program statement fault within ∧
        program.TaggedUpTo (Typing.analyze program).program index within := by
  obtain ⟨tokens, program, tokenized, parsed⟩ := Grammar.exists_of_parses
    (by decide +kernel : Grammar.parses
      "declare x = 1; x := (x + 2) * (x + true); stdout x;" "" = true)
  have refused : ((Token.tokenize "declare x = 1; x := (x + 2) * (x + true); stdout x;"
      "").toOption.bind fun tokens => (Grammar.parse tokens "").toOption.map fun program =>
        (Typing.analyze program).result.isOk) = some false := by decide +kernel
  rw [tokenized] at refused
  change (Grammar.parse tokens "").toOption.map _ = some false at refused
  rw [parsed] at refused
  cases failed : (Typing.analyze program).result with
  | ok _ =>
      change some (Typing.analyze program).result.isOk = some false at refused
      rw [failed] at refused
      cases refused
  | error fault =>
      obtain ⟨_, _, left, _⟩ := recordedTypes_of_parse parsed
      exact ⟨tokens, program, fault, tokenized, parsed, failed, left fault failed⟩

end ScriptLang
