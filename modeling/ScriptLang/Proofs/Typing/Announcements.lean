import ScriptLang.Proofs.Typing.Coverage
import ScriptLang.Proofs.Typing.Runs

/-!
# Announced declarations

The analysis announces a variable when its declaration has passed the check of its type
and its value, just before the variable is put into the symbol table.  The program that
the analysis leaves shows which declarations these are: those whose value has a type
recorded that fits.  Only a variable that has been declared already is announced in vain.
-/

namespace ScriptLang

open Source (Position)
open Grammar (untaggedProgram)

/-- The fault of a variable that has been declared already. -/
inductive Fault.IsDuplicate : Fault -> Prop
  | intro (name : String) (firstLine : Nat) (position : Position) :
      IsDuplicate (.report ⟨.duplicate name firstLine, position⟩)

namespace Fault

/-- A fault is not that of a variable that has been declared already. -/
def IsFresh (fault : Fault) : Prop := ¬fault.IsDuplicate

end Fault

namespace StatementTree

/-- The type that a declaration passes its check with, given the one that is recorded at its
value. -/
def passedTy? (recorded? : Option Ty) : StatementTree -> Option Ty
  | .declaration _ _ (some keyword) (some _) =>
      keyword.keyword?.bind fun ty => if recorded? = some ty then some ty else none
  | .declaration _ _ (some keyword) none => keyword.keyword?
  | .declaration _ _ none (some _) => recorded?
  | _ => none

/-- The announcement of a declaration, given the type that is recorded at its value. -/
def announcement? (recorded? : Option Ty) (statement : StatementTree) : Option Event :=
  statement.declaredName?.bind fun name =>
    (statement.passedTy? recorded?).map fun ty => .declaring name ty 0

/-- A declaration is not announced if no type is recorded at its value. -/
theorem announcement?_of_untyped
    {statement : StatementTree} {tree : Tree}
    (isTree : statement.expression? = some tree) :
    statement.announcement? none = none := by
  have noTy : statement.passedTy? none = none := by
    cases statement with
    | declaration position identifier typeKeyword expression =>
        cases isTree
        cases typeKeyword with
        | none => rfl
        | some keyword =>
            rw [passedTy?]
            simp
    | _ => rfl
  rw [announcement?, noTy]
  simp

/-- The type that the analysis of a statement leaves at its expression. -/
def leftTy? (start : Nat) (symbols : SymbolTable) (statement : StatementTree) : Option Ty :=
  if statement.reachesExpression start symbols then
    statement.expression?.bind (Tree.typing symbols)
  else none

section

variable {start : Nat} {symbols next : SymbolTable} {statement : StatementTree} {fault : Fault}

/-- A keyword that names a type is known by it. -/
theorem keyword?_eq (id : NodeId) (leaf : LeafAt) :
    leaf.keyword? = (keywordTy id leaf).toOption := by
  unfold LeafAt.keyword? keywordTy
  cases leaf.content <;> rfl

/-- A declaration without a name declares none. -/
theorem declaredName?_of_nameOf_eq_error
    {identifier : LeafAt}
    (failed : nameOf start identifier = .error fault)
    (position : Position) (typeKeyword : Option LeafAt) (expression : Option Tree) :
    (declaration position identifier typeKeyword expression).declaredName? = none := by
  have noName := (nameOf_eq_error failed).2
  rw [declaredName?]
  split
  · next name content => exact absurd content (noName name)
  · rfl

/-- The type that a declaration passes its check with is the one that the check gives it. -/
theorem passedTy?_leftTy?
    {name : String} {identifier : LeafAt}
    (named : nameOf start identifier = .ok name)
    (symbols : SymbolTable) (position : Position) (typeKeyword : Option LeafAt)
    (expression : Option Tree) :
    let statement := declaration position identifier typeKeyword expression
    statement.passedTy? (statement.leftTy? start symbols) =
      (declaredTy start symbols name position typeKeyword expression).toOption.map Prod.fst := by
  intro statement
  have left (tree : Tree) (isTree : expression = some tree) :
      statement.leftTy? start symbols =
        if typeKeyword.all fun leaf => (keywordTy (start + 1) leaf).isOk then tree.typing symbols
        else none := by
    rw [leftTy?, reachesExpression, named]
    simp only [statement, expression?, isTree]
    rfl
  cases typeKeyword with
  | none =>
      cases expression with
      | none => rfl
      | some tree =>
          rw [left tree rfl, declaredTy]
          change tree.typing symbols = _
          rw [Tree.typing]
          cases tree.typeIn symbols <;> rfl
  | some keyword =>
      have isKeyword := keyword?_eq (start + 1) keyword
      cases expression with
      | none =>
          change keyword.keyword? = _
          rw [isKeyword, declaredTy]
          cases keywordTy (start + 1) keyword <;> rfl
      | some tree =>
          rw [left tree rfl, declaredTy]
          change (keyword.keyword?.bind fun ty => _) = _
          rw [isKeyword, Option.all_some]
          cases keywordTy (start + 1) keyword with
          | error fault => rfl
          | ok declared =>
              change (if (if true = true then tree.typing symbols else none) = some declared then
                some declared else none) = _
              rw [if_pos rfl, Tree.typing]
              cases tree.typeIn symbols with
              | error fault => rfl
              | ok inferred =>
                  change (if some inferred = some declared then _ else _) = _
                  simp only [ok_bind, Option.some.injEq, eq_comm]
                  split <;> rfl

/-- A statement reports its announcement and nothing else. -/
theorem events_eq (start : Nat) (symbols : SymbolTable) (statement : StatementTree) :
    statement.events start symbols =
      (statement.announcement? (statement.leftTy? start symbols)).toList := by
  cases statement with
  | declaration position identifier typeKeyword expression =>
      rw [events, announcement?]
      cases named : nameOf start identifier with
      | error fault =>
          rw [declaredName?_of_nameOf_eq_error named]
          rfl
      | ok name =>
          have isName : (declaration position identifier typeKeyword expression).declaredName? =
              some name := by
            rw [declaredName?, (nameAt?_of_nameOf named).1]
          have passed := passedTy?_leftTy? named symbols position typeKeyword expression
          rw [isName, Option.bind_some, passed]
          dsimp only
          cases declaredTy start symbols name position typeKeyword expression <;> rfl
  | assignment position identifier tree => rfl
  | input position identifier => rfl
  | output position tree => rfl

/-! ## Statements that are refused -/

/-- A name that is not declared is not declared twice. -/
theorem resolve_isFresh (symbols : SymbolTable) (name : String) (position : Position) :
    Yields (fun _ => True) Fault.IsFresh (symbols.resolve name position) := by
  unfold SymbolTable.resolve
  split
  · trivial
  · exact nofun

theorem reportAt_isFresh (position : Position) (result : Except TypeCause Ty) :
    Yields (fun _ => True) Fault.IsFresh (Typing.reportAt position result) := by
  cases result with
  | ok ty => trivial
  | error cause => exact nofun

/-- Expressions declare nothing. -/
theorem typeIn_isFresh (symbols : SymbolTable) (tree : Tree) :
    Yields (fun _ => True) Fault.IsFresh (tree.typeIn symbols) := by
  induction tree with
  | leaf content position =>
      cases content with
      | literal value => trivial
      | typeKeyword ty => exact nofun
      | identifier name =>
          refine .bind (resolve_isFresh symbols name position) ?_
          intro symbol _
          split
          · trivial
          · exact nofun
  | unary operator position operand inductionHypothesis =>
      refine .bind inductionHypothesis ?_
      intro ty _
      exact reportAt_isFresh position _
  | binary operator position left right leftHypothesis rightHypothesis =>
      refine .bind leftHypothesis ?_
      intro leftTy _
      refine .bind rightHypothesis ?_
      intro rightTy _
      exact reportAt_isFresh position _

theorem nameOf_isFresh (id : NodeId) (leaf : LeafAt) :
    Yields (fun _ => True) Fault.IsFresh (nameOf id leaf) := by
  unfold nameOf
  split
  · trivial
  · exact nofun

theorem keywordTy_isFresh (id : NodeId) (leaf : LeafAt) :
    Yields (fun _ => True) Fault.IsFresh (keywordTy id leaf) := by
  unfold keywordTy
  split
  · trivial
  · exact nofun

/-- A declaration is compared with others after the check of its type and its value. -/
theorem declaredTy_isFresh
    (start : Nat) (symbols : SymbolTable) (name : String) (position : Position)
    (typeKeyword : Option LeafAt) (expression : Option Tree) :
    Yields (fun _ => True) Fault.IsFresh
      (declaredTy start symbols name position typeKeyword expression) := by
  cases typeKeyword with
  | none =>
      cases expression with
      | none => exact nofun
      | some tree =>
          refine .bind (typeIn_isFresh symbols tree) ?_
          intro ty _
          trivial
  | some leaf =>
      cases expression with
      | none =>
          refine .bind (keywordTy_isFresh (start + 1) leaf) ?_
          intro ty _
          trivial
      | some tree =>
          refine .bind (keywordTy_isFresh (start + 1) leaf) ?_
          intro declared _
          refine .bind (typeIn_isFresh symbols tree) ?_
          intro inferred _
          split
          · trivial
          · exact nofun

/-- A variable is only refused because it has been declared already. -/
theorem isDuplicate_of_declare
    {symbol : Symbol} {position : Position}
    (refused : declare symbols symbol position = .error fault) :
    fault.IsDuplicate := by
  unfold declare at refused
  cases found : symbols.get? symbol.identifier with
  | none =>
      rw [SymbolTable.register_of_get?_eq_none found] at refused
      cases refused
  | some first =>
      rw [SymbolTable.register_of_get?_eq_some found] at refused
      cases refused
      exact .intro ..

/-- A statement that is refused has announced a variable exactly if that has been declared
already. -/
theorem events_ne_nil_iff
    (refused : statement.check start symbols = .error fault) :
    statement.events start symbols ≠ [] ↔ fault.IsDuplicate := by
  -- A statement without an announcement fails with another fault.
  have silent (isSilent : statement.events start symbols = [])
      (yields : Yields (fun _ => True) Fault.IsFresh (statement.check start symbols)) :
      statement.events start symbols ≠ [] ↔ fault.IsDuplicate :=
    iff_of_false (fun announced => announced isSilent) (yields.fault refused)
  cases statement with
  | declaration position identifier typeKeyword expression =>
      rcases (bind_eq_error_iff _ _ _).mp refused with unnamed | ⟨name, named, rest⟩
      · apply silent
        · rw [events, unnamed]
        · exact refused ▸ (nameOf_isFresh start identifier).fault unnamed
      · rcases (bind_eq_error_iff _ _ _).mp rest with untyped | ⟨⟨ty, initialized⟩, typed, last⟩
        · apply silent
          · rw [events, named]
            dsimp only
            rw [untyped]
          · exact refused ▸ (declaredTy_isFresh ..).fault untyped
        · refine iff_of_true ?_ (isDuplicate_of_declare last)
          rw [events, named]
          dsimp only
          rw [typed]
          exact List.cons_ne_nil _ _
  | assignment position identifier tree =>
      apply silent rfl
      refine .bind (nameOf_isFresh start identifier) ?_
      intro name _
      refine .bind (resolve_isFresh symbols name identifier.position) ?_
      intro symbol _
      refine .bind (typeIn_isFresh symbols tree) ?_
      intro inferred _
      split
      · trivial
      · rintro ⟨⟩
  | input position identifier =>
      apply silent rfl
      refine .bind (nameOf_isFresh start identifier) ?_
      intro name _
      refine .bind (resolve_isFresh symbols name identifier.position) ?_
      intro symbol _
      trivial
  | output position tree =>
      apply silent rfl
      refine .bind (typeIn_isFresh symbols tree) ?_
      intro ty _
      trivial

/-! ## Statements that are accepted -/

/-- A statement that is accepted has announced a variable exactly if it declares one. -/
theorem length_events
    (accepted : statement.check start symbols = .ok next) :
    (statement.events start symbols).length = statement.declaredName?.toList.length := by
  cases statement with
  | declaration position identifier typeKeyword expression =>
      obtain ⟨name, named, rest⟩ := (bind_eq_ok_iff _ _ _).mp accepted
      obtain ⟨⟨ty, initialized⟩, typed, _⟩ := (bind_eq_ok_iff _ _ _).mp rest
      have isName : (declaration position identifier typeKeyword expression).declaredName? =
          some name := by
        rw [declaredName?, (nameAt?_of_nameOf named).1]
      rw [isName, events, named]
      dsimp only
      rw [typed]
      rfl
  | assignment position identifier tree => rfl
  | input position identifier => rfl
  | output position tree => rfl

/-- Statements that are accepted have announced as many variables as they declare. -/
theorem length_eventsOfAll
    {statements : List StatementTree} {last : SymbolTable}
    (accepted : checkAll start symbols statements = .ok last) :
    (eventsOfAll start symbols statements).length =
      (statements.filterMap declaredName?).length := by
  induction statements generalizing start symbols with
  | nil => rfl
  | cons first rest inductionHypothesis =>
      obtain ⟨next, firstAccepted, restAccepted⟩ := (bind_eq_ok_iff _ _ _).mp accepted
      have lengths := length_events firstAccepted
      have restLengths := inductionHypothesis restAccepted
      rw [eventsOfAll, firstAccepted, List.length_append, lengths, restLengths,
        ← List.length_append]
      cases isName : first.declaredName? with
      | none =>
          rw [List.filterMap_cons_none isName]
          rfl
      | some name =>
          rw [List.filterMap_cons_some isName]
          rfl

/-- Behind statements that are accepted, others report as usual. -/
theorem eventsOfAll_append
    {statements : List StatementTree} {last : SymbolTable}
    (accepted : checkAll start symbols statements = .ok last)
    (others : List StatementTree) :
    eventsOfAll start symbols (statements ++ others) =
      eventsOfAll start symbols statements ++
        eventsOfAll (start + Tagged.extent (statements.map Tagged.plain)) last others := by
  induction statements generalizing start symbols with
  | nil =>
      cases accepted
      rfl
  | cons first rest inductionHypothesis =>
      obtain ⟨next, firstAccepted, restAccepted⟩ := (bind_eq_ok_iff _ _ _).mp accepted
      rw [List.cons_append, eventsOfAll, eventsOfAll, firstAccepted, add_extent_cons,
        List.append_assoc]
      exact congrArg _ (inductionHypothesis restAccepted)

end

end StatementTree

namespace Program

/-- The type that the declaration at a node passes its check with: that of its keyword, if none or
the same is recorded at its value, or else the one that is recorded there. -/
def passedTy? (program : Program) (id : NodeId) : Option Ty := do
  match ← program.kind? id with
  | .statement (.declaration _ (some typeKeyword) (some expression)) =>
      let ty ← program.keyword? typeKeyword
      if program.recordedTy? expression = some ty then some ty else none
  | .statement (.declaration _ (some typeKeyword) none) => program.keyword? typeKeyword
  | .statement (.declaration _ none (some expression)) => program.recordedTy? expression
  | _ => none

/-- The announcement of the declaration at a node: its variable, the type that it passes its check
with, and the outermost code block. -/
def announcement? (program : Program) (id : NodeId) : Option Event := do
  let name ← program.declaredName? id
  let ty ← program.passedTy? id
  return .declaring name ty program.code

theorem exists_of_announcement?_eq_some
    {program : Program} {id : NodeId} {event : Event}
    (announced : program.announcement? id = some event) :
    ∃ name ty, event = .declaring name ty program.code := by
  obtain ⟨name, _, rest⟩ := Option.bind_eq_some_iff.mp announced
  obtain ⟨ty, _, result⟩ := Option.bind_eq_some_iff.mp rest
  exact ⟨name, ty, (Option.some.inj result).symm⟩

section

variable {program : Program} {tag : Tree.Tagging} {start : Nat} {parent? : Option NodeId}
  {statement : StatementTree}

theorem passedTy?_of_holds
    (holds : program.Holds start (statement.layout tag start parent?)) :
    program.passedTy? (start + statement.descendants) =
      statement.passedTy? (statement.expression?.bind tag) := by
  obtain ⟨leaf, _⟩ := parts_of_statement holds
  obtain ⟨_, expressionHolds, top⟩ := holds_statement holds
  rw [passedTy?, kind?_of_node? top]
  cases statement with
  | declaration position identifier typeKeyword initializer =>
      cases typeKeyword with
      | none =>
          cases initializer with
          | none => rfl
          | some tree => exact recordedTy?_of_expressionLayout expressionHolds
      | some keyword =>
          cases initializer with
          | none => exact (leaf 1 keyword rfl).2
          | some tree =>
              let whole := StatementTree.declaration position identifier (some keyword) (some tree)
              have recorded : program.recordedTy? (whole.expressionTop start tree) = tag tree :=
                recordedTy?_of_expressionLayout expressionHolds
              have isKeyword := (leaf 1 keyword rfl).2
              change ((program.keyword? (start + 1)).bind fun ty =>
                if program.recordedTy? _ = some ty then some ty else none) = _
              rw [isKeyword, recorded]
              rfl
  | assignment position identifier tree => rfl
  | input position identifier => rfl
  | output position tree => rfl

/-- A declaration is announced in a program as its tree tells. -/
theorem announcement?_of_holds
    (outermost : program.code = 0)
    (holds : program.Holds start (statement.layout tag start parent?)) :
    program.announcement? (start + statement.descendants) =
      statement.announcement? (statement.expression?.bind tag) := by
  rw [announcement?, declaredName?_of_holds holds, passedTy?_of_holds holds, outermost,
    StatementTree.announcement?]
  simp only [Option.map_eq_bind]
  rfl

/-- A statement that is accepted has announced what its node shows. -/
theorem announcement?_of_accepted
    {symbols next : SymbolTable}
    (outermost : program.code = 0)
    (holds : program.Holds start (statement.layout (Tree.typing symbols) start parent?))
    (accepted : statement.check start symbols = .ok next) :
    (program.announcement? (start + statement.descendants)).toList =
      statement.events start symbols := by
  rw [announcement?_of_holds outermost holds, StatementTree.events_eq, StatementTree.leftTy?]
  split
  · rfl
  · next notReached =>
      cases isTree : statement.expression? with
      | none => rfl
      | some tree =>
          exact absurd (StatementTree.exists_typeIn_of_check accepted isTree).1 notReached

/-- The last node of a statement that the analysis has come to is the statement. -/
theorem node?_of_reached
    {symbols : SymbolTable}
    (holds : program.Holds start (statement.reached symbols start parent?)) :
    program.node? (start + statement.descendants) = some (statement.node start parent?) := by
  have length := StatementTree.length_reached symbols start parent? statement
  rw [StatementTree.reached] at holds length
  rw [List.length_append, List.length_singleton, Nat.succ.injEq] at length
  rw [holds_append, holds_singleton, length] at holds
  exact holds.2

/-- A declaration is not announced as long as no type is recorded at its value. -/
theorem announcement?_of_untyped
    {tree : Tree}
    (top : program.node? (start + statement.descendants) = some (statement.node start parent?))
    (isTree : statement.expression? = some tree)
    (untyped : program.recordedTy? (statement.expressionTop start tree) = none) :
    program.announcement? (start + statement.descendants) = none := by
  have noTy : program.passedTy? (start + statement.descendants) = none := by
    rw [passedTy?, kind?_of_node? top]
    cases statement with
    | declaration position identifier typeKeyword expression =>
        cases isTree
        cases typeKeyword with
        | none => exact untyped
        | some keyword =>
            change ((program.keyword? (start + 1)).bind fun ty =>
              if program.recordedTy? _ = some ty then some ty else none) = none
            rw [untyped]
            cases program.keyword? (start + 1) <;> rfl
    | _ => rfl
  rw [announcement?, noTy]
  cases program.declaredName? (start + statement.descendants) <;> rfl

/-- A statement that is refused has announced what its node shows. -/
theorem announcement?_of_refused
    (outermost : program.code = 0)
    (holds : program.Holds start (statement.reached program.symbols start parent?)) :
    (program.announcement? (start + statement.descendants)).toList =
      statement.events start program.symbols := by
  rw [StatementTree.events_eq]
  cases isTree : statement.expression? with
  | none =>
      rw [StatementTree.reached_eq_layout _ (.inl isTree)] at holds
      rw [announcement?_of_holds outermost holds, StatementTree.leftTy?, isTree]
      split <;> rfl
  | some tree =>
      cases reaches : statement.reachesExpression start program.symbols with
      | false =>
          rw [StatementTree.reached_eq_layout _ (.inr reaches)] at holds
          rw [announcement?_of_holds outermost holds, StatementTree.leftTy?, reaches, isTree]
          rfl
      | true =>
          rw [StatementTree.leftTy?, if_pos reaches, isTree, Option.bind_some]
          cases typed : tree.typeIn program.symbols with
          | ok ty =>
              rw [StatementTree.reached_of_typeIn_eq_ok _ isTree reaches typed] at holds
              rw [announcement?_of_holds outermost holds, isTree]
              rfl
          | error fault =>
              obtain ⟨failing, stops⟩ := exists_stopsAmong_of_expressionReached
                (holds_expressionReached isTree holds reaches) typed
              have untyped := stops.untagged _ stops.greatest (Nat.le_refl _)
              rw [announcement?_of_untyped (node?_of_reached holds) isTree untyped,
                Tree.typing_of_typeIn_eq_error typed, StatementTree.announcement?_of_untyped isTree]

end

/-- Statements that are accepted have announced what their nodes show. -/
theorem filterMap_announcement?_of_accepted
    {program : Program} {start : Nat} {symbols last : SymbolTable} {statements : List StatementTree}
    (outermost : program.code = 0)
    (holds : program.Holds start
      (Tagged.layouts start (StatementTree.typedAll start symbols statements)))
    (accepted : StatementTree.checkAll start symbols statements = .ok last) :
    (Tagged.tops start (statements.map Tagged.plain)).filterMap program.announcement? =
      StatementTree.eventsOfAll start symbols statements := by
  induction statements generalizing start symbols with
  | nil => rfl
  | cons first rest inductionHypothesis =>
      obtain ⟨next, firstAccepted, restAccepted⟩ := (bind_eq_ok_iff _ _ _).mp accepted
      rw [StatementTree.typedAll, firstAccepted, Tagged.layouts, holds_append,
        StatementTree.length_layout] at holds
      have here := announcement?_of_accepted outermost holds.1 firstAccepted
      have others := inductionHypothesis holds.2 restAccepted
      rw [List.filterMap_eq_flatMap_toList] at others ⊢
      rw [List.map_cons, Tagged.tops, List.flatMap_cons, StatementTree.eventsOfAll, firstAccepted]
      exact congrArg₂ _ here others

end Program

namespace Typing

open Program

theorem statements_analyzedProgram (position : Position) (statements : List StatementTree) :
    (analyzedProgram position statements).statements =
      Tagged.tops 2 (statements.map Tagged.plain) := statements_frame

/-- An analysis without a fault announces all declarations of the program. -/
theorem eventsOfAll_of_accepted
    {statements : List StatementTree} {last : SymbolTable}
    (position : Position)
    (accepted : StatementTree.checkAll 2 .empty statements = .ok last) :
    let final := analyzedProgram position statements
    StatementTree.eventsOfAll 2 .empty statements =
      final.statements.filterMap final.announcement? := by
  intro final
  have nodes := holds_assemble position last (StatementTree.typedAll 2 .empty statements)
  rw [← analyzedProgram_of_checkAll_eq_ok position accepted] at nodes
  rw [statements_analyzedProgram]
  exact (filterMap_announcement?_of_accepted rfl nodes accepted).symm

/-- An analysis with a fault announces the declarations in front of the statement that is refused,
and this one if it declares a variable again. -/
theorem eventsOfAll_of_refused
    {before after : List StatementTree} {statement : StatementTree} {last : SymbolTable}
    {fault : Fault}
    (position : Position)
    (accepted : StatementTree.checkAll 2 .empty before = .ok last)
    (refused : statement.check (2 + Tagged.extent (before.map Tagged.plain)) last =
      .error fault) :
    let statements := before ++ statement :: after
    let final := analyzedProgram position statements
    StatementTree.eventsOfAll 2 .empty statements =
        (final.statements.take (before.length + 1)).filterMap final.announcement? ∧
      ((final.statements[before.length]?.bind final.announcement?).isSome ↔
        fault.IsDuplicate) := by
  intro statements final
  let place := 2 + Tagged.extent (before.map Tagged.plain)
  obtain ⟨symbolsAre, earlier, reached, _⟩ :=
    holds_analyzedProgram position after accepted refused
  rw [← symbolsAre] at reached
  have front := filterMap_announcement?_of_accepted rfl earlier accepted
  have here := announcement?_of_refused rfl reached
  rw [symbolsAre] at here
  have listed : final.statements = Tagged.tops 2 (before.map Tagged.plain) ++
      (place + statement.descendants) ::
        Tagged.tops (place + statement.descendants + 1) (after.map Tagged.plain) := by
    rw [statements_analyzedProgram, List.map_append, Tagged.tops_append]
    rfl
  have length : before.length = (Tagged.tops 2 (before.map Tagged.plain)).length := by
    rw [Tagged.length_tops, List.length_map]
  constructor
  · rw [StatementTree.eventsOfAll_append accepted, StatementTree.eventsOfAll, refused,
      List.append_nil, ← here, listed, length, List.take_length_add_append, List.take_succ_cons,
      List.take_zero, List.filterMap_append, front, List.filterMap_eq_flatMap_toList,
      List.flatMap_singleton]
  · rw [listed, length, List.getElem?_append_right (Nat.le_refl _), Nat.sub_self,
      List.getElem?_cons_zero, Option.bind_some, ← StatementTree.events_ne_nil_iff refused, ← here]
    cases final.announcement? (place + statement.descendants) <;> simp

end Typing

end ScriptLang
