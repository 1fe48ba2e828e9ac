import ScriptLang.Proofs.Typing.Inference

/-!
# Nodes that an analysis has come to

The nodes of a statement, and of several, after their analysis has ended.  Where
the check accepts a statement, these are the nodes of its tree with all types.
-/

namespace ScriptLang

open Source (Position)

namespace StatementTree

/-- The nodes of a statement after its analysis has ended. -/
def reached (symbols : SymbolTable) (start : Nat) (parent? : Option NodeId)
    (statement : StatementTree) : List Node :=
  let top := some (start + statement.descendants)
  let first := start + statement.leaves.length
  statement.leaves.map (LeafAt.node top) ++
    (match statement.expression? with
    | none => []
    | some tree =>
        if statement.reachesExpression start symbols then tree.expressionReached symbols first top
        else tree.expressionLayout Tree.untagged first top) ++
    [statement.node start parent?]

theorem reached_eq_layout
    {symbols : SymbolTable} {start : Nat} {statement : StatementTree}
    (parent? : Option NodeId)
    (untouched : statement.expression? = none ∨
      statement.reachesExpression start symbols = false) :
    statement.reached symbols start parent? = statement.layout Tree.untagged start parent? := by
  unfold reached layout lower parts
  cases expression : statement.expression? with
  | none => rfl
  | some tree =>
      rcases untouched with isNone | notReached
      · rw [expression] at isNone
        cases isNone
      · simp only [notReached]
        rfl

theorem outlook_reached
    (symbols : SymbolTable) (start : Nat) (parent? : Option NodeId) (statement : StatementTree) :
    (statement.reached symbols start parent?).map Program.outlook =
      (statement.layout Tree.untagged start parent?).map Program.outlook := by
  unfold reached layout lower parts
  cases statement.expression? with
  | none => rfl
  | some tree =>
      simp only [expressionNodes]
      split <;> simp only [List.map_append, Tree.outlook_expressionReached]

@[simp] theorem length_reached
    (symbols : SymbolTable) (start : Nat) (parent? : Option NodeId) (statement : StatementTree) :
    (statement.reached symbols start parent?).length = statement.descendants + 1 := by
  have lengths := congrArg List.length (statement.outlook_reached symbols start parent?)
  simpa using lengths

theorem reached_of_typeIn_eq_ok
    {symbols : SymbolTable} {start : Nat} {statement : StatementTree} {tree : Tree} {ty : Ty}
    (parent? : Option NodeId)
    (isExpression : statement.expression? = some tree)
    (reaches : statement.reachesExpression start symbols = true)
    (typed : tree.typeIn symbols = .ok ty) :
    statement.reached symbols start parent? =
      statement.layout (Tree.typing symbols) start parent? := by
  simp only [reached, layout, lower, parts, isExpression, reaches, expressionNodes, if_true,
    Tree.expressionReached_of_typeIn_eq_ok _ _ typed]

theorem exists_typeIn_of_declaredTy
    {symbols : SymbolTable} {start : Nat} {name : String} {position : Position}
    {typeKeyword : Option LeafAt} {tree : Tree} {result : Ty × Bool}
    (declared : declaredTy start symbols name position typeKeyword (some tree) = .ok result) :
    (typeKeyword.all fun leaf => (keywordTy (start + 1) leaf).isOk) = true ∧
      ∃ ty, tree.typeIn symbols = .ok ty := by
  cases typeKeyword with
  | none =>
      obtain ⟨ty, typed, _⟩ := (bind_eq_ok_iff _ _ _).mp declared
      exact ⟨rfl, ty, typed⟩
  | some leaf =>
      obtain ⟨named, keyword, rest⟩ := (bind_eq_ok_iff _ _ _).mp declared
      obtain ⟨ty, typed, _⟩ := (bind_eq_ok_iff _ _ _).mp rest
      exact ⟨by simp [keyword, Except.isOk, Except.toBool], ty, typed⟩

/-- The check of a statement without a fault comes to its expression, which is well typed. -/
theorem exists_typeIn_of_check
    {symbols next : SymbolTable} {start : Nat} {statement : StatementTree} {tree : Tree}
    (checked : statement.check start symbols = .ok next)
    (isExpression : statement.expression? = some tree) :
    statement.reachesExpression start symbols = true ∧ ∃ ty, tree.typeIn symbols = .ok ty := by
  cases statement with
  | declaration position identifier typeKeyword expression =>
      cases isExpression
      obtain ⟨name, named, rest⟩ := (bind_eq_ok_iff _ _ _).mp checked
      obtain ⟨result, declared, _⟩ := (bind_eq_ok_iff _ _ _).mp rest
      obtain ⟨keywords, typed⟩ := exists_typeIn_of_declaredTy declared
      refine ⟨?_, typed⟩
      rw [reachesExpression, named, keywords]
      rfl
  | assignment position identifier expression =>
      cases isExpression
      obtain ⟨name, named, rest⟩ := (bind_eq_ok_iff _ _ _).mp checked
      obtain ⟨symbol, resolved, last⟩ := (bind_eq_ok_iff _ _ _).mp rest
      obtain ⟨ty, typed, _⟩ := (bind_eq_ok_iff _ _ _).mp last
      refine ⟨?_, ty, typed⟩
      rw [reachesExpression, named]
      simp only [resolved]
      rfl
  | input position identifier => cases isExpression
  | output position expression =>
      cases isExpression
      obtain ⟨ty, typed, _⟩ := (bind_eq_ok_iff _ _ _).mp checked
      exact ⟨rfl, ty, typed⟩

/-- The nodes of a statement that is checked without a fault get the types of all trees in
it. -/
theorem reached_of_check_eq_ok
    {symbols next : SymbolTable} {start : Nat} {statement : StatementTree}
    (parent? : Option NodeId)
    (checked : statement.check start symbols = .ok next) :
    statement.reached symbols start parent? =
      statement.layout (Tree.typing symbols) start parent? := by
  cases isExpression : statement.expression? with
  | none => simp only [reached, layout, lower, parts, isExpression, expressionNodes]
  | some tree =>
      obtain ⟨reaches, ty, typed⟩ := exists_typeIn_of_check checked isExpression
      exact reached_of_typeIn_eq_ok parent? isExpression reaches typed

/-- The symbols after statements up to the first fault. -/
def symbolsOfAll (start : Nat) (symbols : SymbolTable) : List StatementTree -> SymbolTable
  | [] => symbols
  | first :: rest =>
      match first.check start symbols with
      | .ok next => symbolsOfAll (start + first.descendants + 1) next rest
      | .error _ => symbols

/-- What the check of statements reports. -/
def eventsOfAll (start : Nat) (symbols : SymbolTable) : List StatementTree -> Log
  | [] => []
  | first :: rest =>
      first.events start symbols ++
        match first.check start symbols with
        | .ok next => eventsOfAll (start + first.descendants + 1) next rest
        | .error _ => []

/-- The nodes of statements after their analysis has ended. -/
def reachedAll (start : Nat) (symbols : SymbolTable) : List StatementTree -> List Node
  | [] => []
  | first :: rest =>
      first.reached symbols start (some 0) ++
        match first.check start symbols with
        | .ok next => reachedAll (start + first.descendants + 1) next rest
        | .error _ => Tagged.layouts (start + first.descendants + 1) (rest.map Tagged.plain)

/-- Statements with the types that their check infers. -/
def typedAll (start : Nat) (symbols : SymbolTable) : List StatementTree -> List Tagged
  | [] => []
  | first :: rest =>
      ⟨Tree.typing symbols, first⟩ ::
        typedAll (start + first.descendants + 1)
          ((first.check start symbols).toOption.getD symbols) rest

theorem map_statement_typedAll
    (start : Nat) (symbols : SymbolTable) (statements : List StatementTree) :
    (typedAll start symbols statements).map Tagged.statement = statements := by
  induction statements generalizing start symbols with
  | nil => rfl
  | cons first rest inductionHypothesis =>
      rw [typedAll, List.map_cons, inductionHypothesis]

/-- The check of one more statement. -/
theorem exists_checkAll_take_succ
    {start index : Nat} {symbols before : SymbolTable} {statements : List StatementTree}
    {statement : StatementTree}
    (found : statements[index]? = some statement)
    (checked : checkAll start symbols (statements.take index) = .ok before) :
    ∃ place, checkAll start symbols (statements.take (index + 1)) =
      statement.check place before := by
  induction statements generalizing start symbols index with
  | nil => cases found
  | cons first rest inductionHypothesis =>
      cases index with
      | zero =>
          cases found
          cases checked
          refine ⟨start, ?_⟩
          rw [List.take_succ_cons, List.take_zero, checkAll]
          cases statement.check start before <;> rfl
      | succ index =>
          rw [List.take_succ_cons] at checked
          obtain ⟨next, firstChecked, restChecked⟩ := (bind_eq_ok_iff _ _ _).mp checked
          obtain ⟨place, oneMore⟩ := inductionHypothesis found restChecked
          refine ⟨place, ?_⟩
          rw [List.take_succ_cons, checkAll, firstChecked]
          exact oneMore

section

variable (start : Nat) (symbols : SymbolTable) (statements : List StatementTree)

theorem map_statement_typedAll_eq_plain :
    (typedAll start symbols statements).map Tagged.statement =
      (statements.map Tagged.plain).map Tagged.statement := by
  rw [map_statement_typedAll, Tagged.map_statement_plain]

/-- Statements stand in the same places with and without types. -/
theorem tops_typedAll :
    Tagged.tops start (typedAll start symbols statements) =
      Tagged.tops start (statements.map Tagged.plain) :=
  Tagged.tops_congr (map_statement_typedAll_eq_plain ..) start

/-- Statements have as many nodes with types as without. -/
theorem extent_typedAll :
    Tagged.extent (typedAll start symbols statements) =
      Tagged.extent (statements.map Tagged.plain) :=
  Tagged.extent_congr (map_statement_typedAll_eq_plain ..)

end

theorem exists_getElem?_typedAll
    {index : Nat} {statements : List StatementTree} {statement : StatementTree}
    (found : statements[index]? = some statement)
    (start : Nat) (symbols : SymbolTable) :
    ∃ tagged, (typedAll start symbols statements)[index]? = some tagged ∧
      tagged.statement = statement := by
  rw [← map_statement_typedAll start symbols statements, List.getElem?_map] at found
  exact Option.map_eq_some_iff.mp found

/-- A statement has the types that are inferred after the statements before it. -/
theorem exists_of_getElem?_typedAll
    {start index : Nat} {symbols last : SymbolTable} {statements : List StatementTree}
    {tagged : Tagged}
    (checked : checkAll start symbols statements = .ok last)
    (found : (typedAll start symbols statements)[index]? = some tagged) :
    ∃ (place : Nat) (before next : SymbolTable),
      checkAll start symbols (statements.take index) = .ok before ∧
        tagged.statement.check place before = .ok next ∧
        statements[index]? = some tagged.statement ∧ tagged.tag = Tree.typing before := by
  induction statements generalizing start symbols index with
  | nil => cases found
  | cons first rest inductionHypothesis =>
      obtain ⟨next, firstChecked, restChecked⟩ := (bind_eq_ok_iff _ _ _).mp checked
      rw [typedAll] at found
      cases index with
      | zero =>
          cases found
          exact ⟨start, symbols, next, rfl, firstChecked, rfl, rfl⟩
      | succ index =>
          rw [List.getElem?_cons_succ, firstChecked] at found
          obtain ⟨place, before, after, takenChecked, rest⟩ :=
            inductionHypothesis restChecked found
          refine ⟨place, before, after, ?_, rest⟩
          rw [List.take_succ_cons, checkAll, firstChecked]
          exact takenChecked

/-- The statements behind the first one start behind its nodes. -/
theorem add_extent_cons (start : Nat) (first : StatementTree) (rest : List StatementTree) :
    start + Tagged.extent ((first :: rest).map Tagged.plain) =
      start + first.descendants + 1 + Tagged.extent (rest.map Tagged.plain) := by
  rw [List.map_cons, Tagged.extent, ← Nat.add_assoc, ← Nat.add_assoc]
  rfl

section

variable {start : Nat} {symbols last : SymbolTable} {statements : List StatementTree}
  (checked : checkAll start symbols statements = .ok last)

include checked

/-- The check goes on behind statements that it accepts. -/
theorem checkAll_append (rest : List StatementTree) :
    checkAll start symbols (statements ++ rest) =
      checkAll (start + Tagged.extent (statements.map Tagged.plain)) last rest := by
  induction statements generalizing start symbols with
  | nil =>
      cases checked
      rfl
  | cons first others inductionHypothesis =>
      obtain ⟨next, firstChecked, othersChecked⟩ := (bind_eq_ok_iff _ _ _).mp checked
      rw [List.cons_append, checkAll, firstChecked, add_extent_cons]
      exact inductionHypothesis othersChecked

/-- The symbols behind statements that are accepted are those of the check. -/
theorem symbolsOfAll_append (rest : List StatementTree) :
    symbolsOfAll start symbols (statements ++ rest) =
      symbolsOfAll (start + Tagged.extent (statements.map Tagged.plain)) last rest := by
  induction statements generalizing start symbols with
  | nil =>
      cases checked
      rfl
  | cons first others inductionHypothesis =>
      obtain ⟨next, firstChecked, othersChecked⟩ := (bind_eq_ok_iff _ _ _).mp checked
      rw [List.cons_append, symbolsOfAll, firstChecked, add_extent_cons]
      exact inductionHypothesis othersChecked

/-- The nodes of statements that are accepted have all types of the check. -/
theorem reachedAll_append (rest : List StatementTree) :
    reachedAll start symbols (statements ++ rest) =
      Tagged.layouts start (typedAll start symbols statements) ++
        reachedAll (start + Tagged.extent (statements.map Tagged.plain)) last rest := by
  induction statements generalizing start symbols with
  | nil =>
      cases checked
      rfl
  | cons first others inductionHypothesis =>
      obtain ⟨next, firstChecked, othersChecked⟩ := (bind_eq_ok_iff _ _ _).mp checked
      have here := reached_of_check_eq_ok (some 0) firstChecked
      rw [List.cons_append, reachedAll, typedAll, Tagged.layouts, here, firstChecked,
        add_extent_cons, List.append_assoc]
      exact congrArg _ (inductionHypothesis othersChecked)

/-- A program that is checked without a fault has all types and symbols of the check. -/
theorem reachedAll_of_checkAll_eq_ok :
    symbolsOfAll start symbols statements = last ∧
      reachedAll start symbols statements =
        Tagged.layouts start (typedAll start symbols statements) := by
  have symbolsAre := symbolsOfAll_append checked []
  have nodesAre := reachedAll_append checked []
  rw [List.append_nil] at symbolsAre nodesAre
  exact ⟨symbolsAre, nodesAre.trans (List.append_nil _)⟩

end

/-- A check with a fault accepts the statements in front of one that it refuses. -/
theorem exists_refused_of_checkAll
    {start : Nat} {symbols : SymbolTable} {statements : List StatementTree} {fault : Fault}
    (failed : checkAll start symbols statements = .error fault) :
    ∃ before statement after last, statements = before ++ statement :: after ∧
      checkAll start symbols before = .ok last ∧
      statement.check (start + Tagged.extent (before.map Tagged.plain)) last = .error fault := by
  induction statements generalizing start symbols with
  | nil => cases failed
  | cons first rest inductionHypothesis =>
      rcases (bind_eq_error_iff _ _ _).mp failed with refused | ⟨next, firstChecked, restFailed⟩
      · exact ⟨[], first, rest, symbols, rfl, rfl, refused⟩
      · obtain ⟨before, statement, after, last, rfl, checked, refused⟩ :=
          inductionHypothesis restFailed
        refine ⟨first :: before, statement, after, last, rfl, ?_, ?_⟩
        · rw [checkAll, firstChecked]
          exact checked
        · rw [add_extent_cons]
          exact refused

end StatementTree

end ScriptLang
