import ScriptLang.Proofs.Typing.Coverage
import ScriptLang.Proofs.Typing.Footprint
import ScriptLang.Proofs.Typing.Restated

/-!
# Type keywords of declarations

A declaration with a value need not name a type, and it may as well name the one that
is inferred for its value.  Either way its variable has the same type, so that all that
comes behind it is checked with the same symbols.
-/

namespace ScriptLang

open Source (Position)
open Grammar (untaggedProgram)

namespace Statement

/-- A declaration with a value, without a type keyword; any other statement stays as it is. -/
def erased : Statement -> Statement
  | .declaration identifier _ (some expression) => .declaration identifier none (some expression)
  | statement => statement

/-- A declaration with a value, with the given type keyword; any other statement stays as it is. -/
def ascribed (keyword : NodeId) : Statement -> Statement
  | .declaration identifier _ (some expression) =>
      .declaration identifier (some keyword) (some expression)
  | statement => statement

end Statement

/-- A type keyword for a declaration. -/
structure Ascription where
  declaration : NodeId
  ty : Ty
  position : Position

namespace Ascription

/-- The node of a type keyword. -/
def node (ascription : Ascription) : Node :=
  ⟨.leaf (.typeKeyword ascription.ty), ascription.position, some ascription.declaration⟩

/-- A declaration with a value has no type keyword yet, and the new one names the type that is
inferred for the value. -/
def Fits (ascription : Ascription) (program : Program) : Prop :=
  ∃ identifier expression,
    program.kind? ascription.declaration =
      some (.statement (.declaration identifier none (some expression))) ∧
    (Typing.analyze program).program.recordedTy? expression = some ascription.ty

end Ascription

namespace Program

/-- A program in which the chosen declarations with a value have no type keywords. -/
def erased (chosen : NodeId -> Bool) (program : Program) : Program :=
  program.restated fun id statement => if chosen id then statement.erased else statement

/-- The statements of a program behind whose nodes there are type keywords for some of them. -/
def ascribe
    (program : Program)
    (ascriptions : List Ascription)
    (id : NodeId)
    (statement : Statement) : Statement :=
  match ascriptions.findIdx? fun ascription => ascription.declaration == id with
  | some index => statement.ascribed (program.size + index)
  | none => statement

/-- A program with type keywords for some of its declarations. -/
def ascribed (ascriptions : List Ascription) (program : Program) : Program :=
  (program.extend (ascriptions.map Ascription.node)).restated (program.ascribe ascriptions)

/-! ## Types and symbols -/

theorem SameTyping.trans
    {first second third : Program}
    (same : first.SameTyping second)
    (others : second.SameTyping third) :
    first.SameTyping third :=
  ⟨fun id => (same.recorded id).trans (others.recorded id), same.symbols.trans others.symbols⟩

/-- Further type keywords show in no recorded type and in no symbol. -/
theorem sameTyping_extend
    (position : Position) (ids : List NodeId) (symbols : SymbolTable) (nodes : List Node)
    (ascriptions : List Ascription) :
    ((frame position ids symbols).extend nodes).SameTyping
      ((frame position ids symbols).extend (nodes ++ ascriptions.map Ascription.node)) where
  recorded := by
    intro id
    let program := (frame position ids symbols).extend nodes
    change program.recordedTy? id = _
    rw [← extend_extend, recordedTy?, recordedTy?, kind?, kind?]
    rcases Nat.lt_or_ge id program.size with inFront | behind
    · rw [node?_extend_of_lt _ inFront]
    · have outside : program.node? id = none := Array.getElem?_eq_none behind
      obtain ⟨index, rfl⟩ := Nat.exists_eq_add_of_le behind
      rw [node?_extend_add, outside, List.getElem?_map]
      cases ascriptions[index]? <;> rfl
  symbols := by rw [symbols_frame, symbols_frame]

end Program

namespace Typing

/-! ## Declarations without their type keywords -/

section

variable {name : String} {id keyword expression : NodeId} {position : Position}
  {state after : State}

/-- A declaration that is accepted with a type keyword has the type that is inferred. -/
theorem declaredTy_inferred
    {declared : Ty × Bool}
    (done : declaredTy name position (some keyword) (some expression) state =
      .ok declared after) :
    declaredTy name position none (some expression) state = .ok declared after := by
  rw [declaredTy, Running.bind_of_outcome (lookingUp_apply _ _)] at done
  cases named : keywordTy state.program keyword with
  | error fault =>
      rw [named] at done
      cases done
  | ok ty =>
      rw [named, Running.proceed_ok, Running.bind_eq_ok_iff] at done
      obtain ⟨inferred, typed, isInferred, result⟩ := done
      rw [declaredTy, Running.bind_of_ok isInferred]
      split at result
      · next sameTy =>
          subst sameTy
          exact result
      · rw [Running.bind_of_outcome (lookingUp_apply _ _)] at result
        cases node : typed.program.node expression <;> (rw [node] at result; cases result)

/-- A statement that is accepted is accepted without a type keyword. -/
theorem analyzeForm_erased
    {content : Statement}
    (done : analyzeForm id position content state = .ok () after) :
    analyzeForm id position content.erased state = .ok () after := by
  cases content with
  | declaration identifier typeKeyword value =>
      cases value with
      | none => exact done
      | some expression =>
          cases typeKeyword with
          | none => exact done
          | some keyword =>
              rw [analyzeForm, Running.bind_eq_ok_iff] at done
              obtain ⟨name, named, isName, rest⟩ := done
              obtain ⟨declared, typed, isDeclared, declares⟩ :=
                (Running.bind_eq_ok_iff _ _ _ _ _).mp rest
              rw [Statement.erased, analyzeForm, Running.bind_of_ok isName,
                Running.bind_of_ok (declaredTy_inferred isDeclared)]
              exact declares
  | assignment identifier expression => exact done
  | input identifier => exact done
  | output expression => exact done

end

/-- Whatever declarations of an accepted program lose their type keywords, it stays accepted, with
the same types and symbols. -/
theorem analyze_erased
    {program : Program}
    (accepted : (analyze program).result = .ok ())
    (chosen : NodeId -> Bool) :
    (analyze (program.erased chosen)).result = .ok () ∧
      (analyze program).program.SameTyping (analyze (program.erased chosen)).program := by
  have restatable : Restatable
      (fun id statement => if chosen id then statement.erased else statement)
      program.statements ⟨program, [.analyzing program.statements.length]⟩ := by
    intro front rest id before after content position parent? _ _ _ done
    dsimp only
    split
    · exact analyzeForm_erased done
    · exact done
  obtain ⟨acceptedErased, left⟩ := restatable.analyze accepted
  refine ⟨acceptedErased, ?_⟩
  rw [Program.erased, left]
  exact Program.sameTyping_restated _ _

/-! ## Declarations with new type keywords -/

section

variable {name : String} {id keyword expression identifier : NodeId} {position : Position}
  {state after : State}

/-- A declaration that is accepted may as well name the type that is inferred. -/
theorem declaredTy_named
    {declared : Ty × Bool}
    (done : declaredTy name position none (some expression) state = .ok declared after)
    (named : ∀ ty typed, inferring (infer expression) state = .ok ty typed ->
      keywordTy state.program keyword = .ok ty) :
    declaredTy name position (some keyword) (some expression) state = .ok declared after := by
  rw [declaredTy, Running.bind_eq_ok_iff] at done
  obtain ⟨inferred, typed, isInferred, result⟩ := done
  rw [declaredTy, Running.bind_of_outcome (lookingUp_apply _ _), named inferred typed isInferred,
    Running.proceed_ok, Running.bind_of_ok isInferred, if_pos rfl]
  exact result

/-- The same for the whole statement. -/
theorem analyzeForm_ascribed
    (done : analyzeForm id position (.declaration identifier none (some expression)) state =
      .ok () after)
    (named : ∀ ty typed, inferring (infer expression) state = .ok ty typed ->
      keywordTy state.program keyword = .ok ty) :
    analyzeForm id position (.declaration identifier (some keyword) (some expression)) state =
      .ok () after := by
  rw [analyzeForm, Running.bind_of_outcome (lookingUp_apply _ _)] at done ⊢
  cases isName : identifierName state.program identifier with
  | error fault =>
      rw [isName] at done
      cases done
  | ok name =>
      rw [isName, Running.proceed_ok, Running.bind_eq_ok_iff] at done
      obtain ⟨declared, typed, isDeclared, declares⟩ := done
      rw [Running.proceed_ok, Running.bind_of_ok (declaredTy_named isDeclared named)]
      exact declares

end

section

variable {position : Position} {ids : List NodeId} {nodes : List Node} {log : Log}
  {statements : List StatementTree}

/-- What surrounds a statement when the analysis of accepted ones comes to it. -/
def surroundingsOf
    (position : Position)
    (ids : List NodeId)
    (front rest : List StatementTree)
    (statement : StatementTree)
    (nodes : List Node) : Surroundings where
  position := position
  statements := ids
  before := Tagged.layouts 2 (StatementTree.typedAll 2 .empty front)
  after := Tagged.layouts
    (2 + Tagged.extent (front.map Tagged.plain) + statement.descendants + 1)
    (rest.map Tagged.plain) ++ nodes

theorem start_surroundingsOf
    (front rest : List StatementTree) (statement : StatementTree) :
    (surroundingsOf position ids front rest statement nodes).start =
      2 + Tagged.extent (front.map Tagged.plain) := by
  rw [Surroundings.start, surroundingsOf, Tagged.length_layouts, StatementTree.extent_typedAll]

/-- The statements in front of a number are accepted when the analysis comes to it. -/
theorem exists_surroundings
    {front rest : List NodeId} {id : NodeId} {before : State}
    (parted : Tagged.tops 2 (statements.map Tagged.plain) = front ++ id :: rest)
    (run : analyzeAll front ⟨(Program.frame position ids .empty).extend
      (Tagged.layouts 2 (statements.map Tagged.plain) ++ nodes), log⟩ = .ok () before) :
    ∃ initial statement others symbols,
      statements = initial ++ statement :: others ∧
      StatementTree.checkAll 2 .empty initial = .ok symbols ∧
      let surroundings := surroundingsOf position ids initial others statement nodes
      id = surroundings.start + statement.descendants ∧
        before.program = surroundings.program symbols
          (statement.layout Tree.untagged surroundings.start (some 0)) := by
  obtain ⟨initial, behind, rfl, rfl, isBehind⟩ := Tagged.exists_parts_of_tops_eq_append parted
  cases behind with
  | nil => cases isBehind
  | cons statement others =>
      have nodesAre : Tagged.layouts 2 ((initial ++ statement :: others).map Tagged.plain) ++
          nodes = [] ++ (Tagged.layouts 2 (initial.map Tagged.plain) ++
            (Tagged.layouts (2 + Tagged.extent (initial.map Tagged.plain))
              ((statement :: others).map Tagged.plain) ++ nodes)) := by
        rw [List.map_append, Tagged.layouts_append, List.append_assoc, List.nil_append]
      obtain ⟨symbols, checked, rfl⟩ :=
        (analyzeAll_eq_ok_iff [] _ initial rfl nodesAre).mp run
      refine ⟨initial, statement, others, symbols, rfl, checked, ?_⟩
      intro surroundings
      have start : surroundings.start = _ := start_surroundingsOf initial others statement
      rw [start]
      refine ⟨(List.cons.inj isBehind).1, ?_⟩
      simp [surroundings, Surroundings.program, surroundingsOf, Tagged.layouts, Tagged.plain]

end

section

variable {initial others : List StatementTree} {statement : StatementTree}
  {symbols last : SymbolTable} {tree : Tree}
  (position : Position) (ids : List NodeId) (nodes : List Node)

/-- The nodes that are not those of statements stay behind these. -/
theorem node?_surroundingsOf (index : Nat) :
    let surroundings := surroundingsOf position ids initial others statement nodes
    (surroundings.program symbols
        (statement.layout Tree.untagged surroundings.start (some 0))).node?
      ((untaggedProgram position (initial ++ statement :: others)).size + index) =
        nodes[index]? := by
  intro surroundings
  let front := surroundings.before ++
    statement.layout Tree.untagged surroundings.start (some 0) ++
    Tagged.layouts (2 + Tagged.extent (initial.map Tagged.plain) + statement.descendants + 1)
      (others.map Tagged.plain)
  have parted : surroundings.program symbols
      (statement.layout Tree.untagged surroundings.start (some 0)) =
        ((Program.frame position ids symbols).extend front).extend nodes := by
    rw [Program.extend_extend]
    exact congrArg (Program.frame position ids symbols).extend (List.append_assoc _ _ _).symm
  have size : (untaggedProgram position (initial ++ statement :: others)).size =
      ((Program.frame position ids symbols).extend front).size := by
    rw [untaggedProgram, Program.size_assemble, Program.size_extend, Program.size_frame]
    simp [front, surroundings, surroundingsOf, StatementTree.extent_typedAll, Tagged.extent,
      Tagged.plain]
  rw [parted, size, Program.node?_extend_add]

variable (checked : StatementTree.checkAll 2 .empty (initial ++ statement :: others) = .ok last)
  (initialChecked : StatementTree.checkAll 2 .empty initial = .ok symbols)
  (isTree : statement.expression? = some tree)

include checked initialChecked isTree

/-- The type of an expression that is inferred when the analysis comes to it. -/
theorem typeIn_of_inferring
    {log : Log} {ty : Ty} {typed : State} :
    let surroundings := surroundingsOf position ids initial others statement nodes
    inferring (infer (statement.expressionTop surroundings.start tree))
        ⟨surroundings.program symbols
          (statement.layout Tree.untagged surroundings.start (some 0)), log⟩ = .ok ty typed ->
      tree.typeIn symbols = .ok ty := by
  intro surroundings inferred
  have start : surroundings.start = _ := start_surroundingsOf initial others statement
  obtain ⟨_, sameSymbols, hereOn⟩ := (StatementTree.checkAll_append_eq_ok_iff _ _).mp checked
  obtain rfl := Except.ok.inj (sameSymbols.symm.trans initialChecked)
  obtain ⟨next, here, _⟩ := (StatementTree.checkAll_cons_eq_ok_iff _ _).mp hereOn
  rw [← start] at here
  have reaches := (StatementTree.exists_typeIn_of_check here isTree).1
  rw [inferring_of_outcome log (infer_statement statement isTree reaches)] at inferred
  cases result : tree.typeIn _ with
  | error fault =>
      rw [result] at inferred
      cases inferred
  | ok other =>
      rw [result] at inferred
      cases inferred
      rfl

omit checked in
/-- The type that is recorded in the end. -/
theorem recordedTy?_expressionTop
    {program : Program}
    (holds : program.Holds 2 (Tagged.layouts 2
      (StatementTree.typedAll 2 .empty (initial ++ statement :: others)))) :
    program.recordedTy?
        (statement.expressionTop (2 + Tagged.extent (initial.map Tagged.plain)) tree) =
      tree.typing symbols := by
  rw [StatementTree.typedAll_append initialChecked, Tagged.layouts_append, Program.holds_append,
    Tagged.length_layouts, StatementTree.extent_typedAll, StatementTree.typedAll, Tagged.layouts,
    Program.holds_append] at holds
  exact Program.recordedTy?_of_expressionLayout (Program.holds_expressionLayout isTree holds.2.1)

end

/-- The form of a declaration with a value but without a type keyword. -/
theorem exists_of_form_eq_declaration
    {start : Nat} {statement : StatementTree} {identifier expression : NodeId}
    (isForm : statement.form start = .declaration identifier none (some expression)) :
    ∃ tree, statement.expression? = some tree ∧
      expression = statement.expressionTop start tree := by
  cases statement with
  | declaration place leaf typeKeyword value =>
      obtain ⟨_, _, isValue⟩ := Statement.declaration.inj isForm
      obtain ⟨tree, rfl, rfl⟩ := Option.map_eq_some_iff.mp isValue
      exact ⟨tree, rfl, rfl⟩
  | assignment place leaf tree => cases isForm
  | input place leaf => cases isForm
  | output place tree => cases isForm

section

variable {position : Position} {initial others : List StatementTree} {statement : StatementTree}
  {symbols last : SymbolTable}

/-- A type keyword that fits a statement names the type of its expression. -/
theorem exists_tree_of_fits
    {ascription : Ascription}
    (checked : StatementTree.checkAll 2 .empty (initial ++ statement :: others) = .ok last)
    (initialChecked : StatementTree.checkAll 2 .empty initial = .ok symbols)
    (fits : ascription.Fits (untaggedProgram position (initial ++ statement :: others)))
    (isDeclaration : ascription.declaration =
      2 + Tagged.extent (initial.map Tagged.plain) + statement.descendants) :
    ∃ identifier tree, statement.expression? = some tree ∧
      statement.form (2 + Tagged.extent (initial.map Tagged.plain)) =
        .declaration identifier none
          (some (statement.expressionTop (2 + Tagged.extent (initial.map Tagged.plain)) tree)) ∧
      tree.typing symbols = some ascription.ty := by
  obtain ⟨identifier, expression, isForm, recorded⟩ := fits
  obtain ⟨_, _, top⟩ := Program.holds_statement
    (holds_untaggedProgram position initial others statement)
  rw [isDeclaration, Program.kind?_of_node? top] at isForm
  have form := NodeKind.statement.inj (Option.some.inj isForm)
  obtain ⟨tree, isTree, rfl⟩ := exists_of_form_eq_declaration form
  obtain ⟨_, left⟩ := (analyze_untaggedProgram_iff position _ _).mpr ⟨last, checked, rfl⟩
  rw [left, recordedTy?_expressionTop initialChecked isTree (Program.holds_extend _ _)] at recorded
  exact ⟨identifier, tree, isTree, form, recorded⟩

/-- Among the nodes behind those of statements a type keyword is found by its number. -/
theorem keywordTy_surroundingsOf
    {ascriptions : List Ascription} {index : Nat}
    (ids : List NodeId)
    (inRange : index < ascriptions.length) :
    let surroundings := surroundingsOf position ids initial others statement
      (ascriptions.map Ascription.node)
    keywordTy (surroundings.program symbols
          (statement.layout Tree.untagged surroundings.start (some 0)))
        ((untaggedProgram position (initial ++ statement :: others)).size + index) =
      .ok ascriptions[index].ty := by
  intro surroundings
  rw [keywordTy, Program.node, node?_surroundingsOf, List.getElem?_map,
    List.getElem?_eq_getElem inRange]
  rfl

end

section

variable {position : Position} {statements : List StatementTree} {last : SymbolTable}
  {ascriptions : List Ascription}

/-- Accepted declarations may be found with type keywords that fit them. -/
theorem restatable_ascribe
    (log : Log)
    (checked : StatementTree.checkAll 2 .empty statements = .ok last)
    (fit : ∀ ascription ∈ ascriptions,
      ascription.Fits (untaggedProgram position statements)) :
    let ids := Tagged.tops 2 (statements.map Tagged.plain)
    Restatable ((untaggedProgram position statements).ascribe ascriptions) ids
      ⟨(Program.frame position ids .empty).extend
        (Tagged.layouts 2 (statements.map Tagged.plain) ++ ascriptions.map Ascription.node),
        log⟩ := by
  intro ids front rest id before after content place parent? parted run found done
  unfold Program.ascribe
  split
  · next index isIndex =>
      obtain ⟨inRange, isDeclaration, _⟩ := List.findIdx?_eq_some_iff_getElem.mp isIndex
      obtain ⟨initial, statement, others, symbols, rfl, initialChecked, rfl, isBefore⟩ :=
        exists_surroundings parted run
      let surroundings := surroundingsOf position ids initial others statement
        (ascriptions.map Ascription.node)
      have start : surroundings.start = _ := start_surroundingsOf initial others statement
      obtain ⟨identifier, tree, isTree, form, hasTy⟩ := exists_tree_of_fits checked initialChecked
        (fit _ (List.getElem_mem inRange)) ((eq_of_beq isDeclaration).trans (start ▸ rfl))
      obtain ⟨_, _, top⟩ := Program.holds_statement (surroundings.holds_program symbols
        (statement.layout Tree.untagged surroundings.start (some 0)))
      obtain ⟨left, _⟩ := before
      obtain rfl : left = _ := isBefore
      cases top.symm.trans found
      rw [← start] at form
      rw [form] at done ⊢
      -- The type that is inferred here is the one that is recorded in the end, and so that of the
      -- keyword.
      apply analyzeForm_ascribed done
      intro ty typed inferred
      have isTy := Tree.typing_of_typeIn_eq_ok (typeIn_of_inferring position ids _ checked
        initialChecked isTree inferred)
      rw [keywordTy_surroundingsOf ids inRange]
      exact congrArg Except.ok (Option.some.inj (hasTy.symm.trans isTy))
  · exact done

/-- Whatever declarations of an accepted program get the type keywords that fit them, it stays
accepted, with the same types and symbols. -/
theorem analyze_ascribed
    (accepted : (analyze (untaggedProgram position statements)).result = .ok ())
    (fit : ∀ ascription ∈ ascriptions,
      ascription.Fits (untaggedProgram position statements)) :
    let program := untaggedProgram position statements
    (analyze (program.ascribed ascriptions)).result = .ok () ∧
      (analyze program).program.SameTyping (analyze (program.ascribed ascriptions)).program := by
  intro program
  obtain ⟨last, checked, left⟩ := (analyze_untaggedProgram_iff position statements _).mp
    ⟨accepted, rfl⟩
  let ids := Tagged.tops 2 (statements.map Tagged.plain)
  have order : program.statements = ids := Program.statements_assemble ..
  let extended := (Program.frame position ids .empty).extend
    (Tagged.layouts 2 (statements.map Tagged.plain) ++ ascriptions.map Ascription.node)
  have extendedStatements : extended.statements = ids := Program.statements_frame
  have analyzed : (analyze extended).result = .ok () ∧ (analyze extended).program =
      (Program.frame position ids last).extend
        (Tagged.layouts 2 (StatementTree.typedAll 2 .empty statements) ++
          ascriptions.map Ascription.node) := by
    refine (exists_analyzeAll_iff extended _).mpr ⟨[.analyzing ids.length] ++
      StatementTree.eventsOfAll 2 .empty statements, ?_⟩
    rw [extendedStatements]
    exact (analyzeAll_eq_ok_iff [] _ statements rfl rfl).mpr ⟨last, checked, rfl⟩
  have restatable : Restatable (program.ascribe ascriptions) extended.statements
      ⟨extended, [.analyzing extended.statements.length]⟩ := by
    rw [extendedStatements]
    exact restatable_ascribe _ checked fit
  obtain ⟨acceptedAscribed, leftAscribed⟩ := restatable.analyze analyzed.1
  have isAscribed : program.ascribed ascriptions =
      extended.restated (program.ascribe ascriptions) :=
    congrArg (Program.restated (program.ascribe ascriptions)) (Program.extend_extend _ _ _)
  rw [isAscribed]
  refine ⟨acceptedAscribed, ?_⟩
  rw [leftAscribed, left, analyzed.2, order]
  exact (Program.sameTyping_extend ..).trans (Program.sameTyping_restated ..)

end

end Typing

/-- Type keywords agree with inference.  If a parsed program is accepted, then it is also accepted
without the type keywords of any of its declarations with values.  It is accepted as well with new
type keywords for such declarations that have none, if they name the types that are inferred for
the values.  Each time the analysis leaves the same types at all expressions, and the same
symbols. -/
theorem analyze_erased_and_ascribed
    {tokens : List Token} {file : String} {program : Program}
    (parsed : Grammar.parse tokens file = .ok program)
    (accepted : (Typing.analyze program).result = .ok ()) :
    (∀ chosen : NodeId -> Bool,
      (Typing.analyze (program.erased chosen)).result = .ok () ∧
        (Typing.analyze program).program.SameTyping
          (Typing.analyze (program.erased chosen)).program) ∧
    ∀ ascriptions : List Ascription, (∀ ascription ∈ ascriptions, ascription.Fits program) ->
      (Typing.analyze (program.ascribed ascriptions)).result = .ok () ∧
        (Typing.analyze program).program.SameTyping
          (Typing.analyze (program.ascribed ascriptions)).program := by
  obtain ⟨statements, _, rfl⟩ := Grammar.exists_statements_of_parse parsed
  constructor
  · intro chosen
    exact Typing.analyze_erased accepted chosen
  · intro ascriptions fit
    exact Typing.analyze_ascribed accepted fit

/-- A declaration with a type keyword and one without. -/
theorem analyze_erased_and_ascribed_of_quotient :
    let keyword : Ascription := ⟨11, .float, ⟨1, 35, ""⟩⟩
    ∃ tokens program,
      Token.tokenize "declare x: float = 7 / 2; declare y = x; stdout y;" "" = .ok tokens ∧
      Grammar.parse tokens "" = .ok program ∧ (Typing.analyze program).result = .ok () ∧
      (∀ ascription ∈ [keyword], ascription.Fits program) ∧
      (Typing.analyze (program.erased fun _ => true)).result = .ok () ∧
      (Typing.analyze (program.ascribed [keyword])).result = .ok () := by
  intro keyword
  have seen : ((Token.tokenize "declare x: float = 7 / 2; declare y = x; stdout y;"
      "").toOption.bind fun tokens => (Grammar.parse tokens "").toOption.map fun program =>
        ((Typing.analyze program).result.isOk, program.kind? 11,
          (Typing.analyze program).program.recordedTy? 10)) =
      some (true, some (.statement (.declaration 8 none (some 10))), some .float) := by
    decide +kernel
  obtain ⟨tokens, program, tokenized, parsed⟩ := Grammar.exists_of_parses
    (by decide +kernel :
      Grammar.parses "declare x: float = 7 / 2; declare y = x; stdout y;" "" = true)
  rw [tokenized] at seen
  change (Grammar.parse tokens "").toOption.map _ = _ at seen
  rw [parsed] at seen
  obtain ⟨isAccepted, seen⟩ := Prod.mk.inj (Option.some.inj seen)
  obtain ⟨isDeclaration, recorded⟩ := Prod.mk.inj seen
  have accepted : (Typing.analyze program).result = .ok () := by
    cases result : (Typing.analyze program).result with
    | ok done => rfl
    | error fault =>
        rw [result] at isAccepted
        cases isAccepted
  have fit : ∀ ascription ∈ [keyword], ascription.Fits program := by
    intro ascription member
    obtain rfl := List.mem_singleton.mp member
    exact ⟨8, 10, isDeclaration, recorded⟩
  obtain ⟨erased, ascribed⟩ := analyze_erased_and_ascribed parsed accepted
  exact ⟨tokens, program, tokenized, parsed, accepted, fit, (erased fun _ => true).1,
    (ascribed [keyword] fit).1⟩

end ScriptLang
