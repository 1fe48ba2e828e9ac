import Mathlib.Data.List.Sort
import ScriptLang.Proofs.Program.Unplaced
import ScriptLang.Proofs.Typing.History

/-!
# Footprints of statements

The check of a statement reads the symbols of the names in it and changes at most the
symbol of one of them.  So it comes to the same in symbol tables that agree on these
names, and two statements of which neither changes a symbol that the other one reads
may be checked in either order.
-/

namespace ScriptLang

open Source (Position)

/-- No symbol comes before itself. -/
instance : Std.Irrefl Symbol.Before where
  irrefl symbol := String.lt_irrefl symbol.identifier

/-- No two symbols come before each other. -/
instance : Std.Antisymm Symbol.Before where
  antisymm _ _ before after := absurd (String.lt_trans before after) (String.lt_irrefl _)

namespace SymbolTable

/-- A table is determined by what is found in it. -/
theorem ext_get?
    {first second : SymbolTable}
    (same : ∀ name, first.get? name = second.get? name) :
    first = second := by
  apply eq_of_symbols_eq
  apply first.ordered.eq_of_mem_iff second.ordered
  intro symbol
  have found := same symbol.identifier
  constructor
  · intro member
    rw [(first.get?_eq_some_iff _ symbol).mpr ⟨member, rfl⟩] at found
    exact ((second.get?_eq_some_iff _ symbol).mp found.symm).1
  · intro member
    rw [(second.get?_eq_some_iff _ symbol).mpr ⟨member, rfl⟩] at found
    exact ((first.get?_eq_some_iff _ symbol).mp found).1

/-- The same symbols are found under some names. -/
def AgreeOn (names : String -> Prop) (first second : SymbolTable) : Prop :=
  ∀ name, names name -> first.get? name = second.get? name

namespace AgreeOn

variable {names : String -> Prop} {first second : SymbolTable}

theorem symm (agree : AgreeOn names first second) : AgreeOn names second first :=
  fun name isName => (agree name isName).symm

theorem imp
    {fewer : String -> Prop}
    (agree : AgreeOn names first second)
    (implies : ∀ name, fewer name -> names name) :
    AgreeOn fewer first second :=
  fun name isName => agree name (implies name isName)

/-- The same symbol may be declared in both tables. -/
theorem exists_register
    {next : SymbolTable} {symbol : Symbol}
    (agree : AgreeOn names first second)
    (registered : first.register symbol = .ok next)
    (isName : names symbol.identifier) :
    ∃ other, second.register symbol = .ok other ∧ AgreeOn names next other := by
  have fresh : second.get? symbol.identifier = none := by
    rw [← agree _ isName]
    exact (get?_of_register_eq_ok registered symbol.identifier).1
  refine ⟨_, register_of_get?_eq_none fresh, fun name isOther => ?_⟩
  rw [(get?_of_register_eq_ok registered name).2, get?_insert, agree name isOther]

/-- The same variable may be given a value in both tables. -/
theorem markInitialized
    (agree : AgreeOn names first second)
    (given : String) :
    AgreeOn names (first.markInitialized given) (second.markInitialized given) := by
  intro name isName
  rw [get?_markInitialized, get?_markInitialized, agree name isName]

/-- A name means the same in both tables. -/
theorem resolve_eq
    {name : String}
    (agree : AgreeOn names first second)
    (isName : names name)
    (position : Position) :
    first.resolve name position = second.resolve name position := by
  rw [resolve, resolve, agree name isName]

end AgreeOn
end SymbolTable

open SymbolTable (AgreeOn)

namespace Tree

/-- The names in a part of a tree are names in the tree. -/
theorem Mentions.of_part
    {part tree : Tree} {name : String}
    (mentions : part.Mentions name)
    (isPart : part.Part tree) :
    tree.Mentions name := by
  obtain ⟨position, isLeaf⟩ := mentions
  refine ⟨position, ?_⟩
  induction isPart with
  | whole => exact isLeaf
  | operand operator place _ inductionHypothesis => exact .operand _ _ inductionHypothesis
  | left operator place right _ inductionHypothesis => exact .left _ _ _ inductionHypothesis
  | right operator place left _ inductionHypothesis => exact .right _ _ _ inductionHypothesis

/-- The top of a tree has its type. -/
theorem node_congr
    {tag other : Tagging} {tree : Tree}
    (same : tag tree = other tree)
    (start : Nat) (parent? : Option NodeId) :
    tree.node tag start parent? = tree.node other start parent? := by
  cases tree with
  | leaf content position => rfl
  | unary operator position operand => rw [node, node, kind, kind, same]
  | binary operator position left right => rw [node, node, kind, kind, same]

variable {first second : SymbolTable} {tree : Tree}

/-- The type of a tree depends on the symbols of the names in it. -/
theorem typeIn_congr (agree : AgreeOn tree.Mentions first second) :
    tree.typeIn first = tree.typeIn second := by
  induction tree with
  | leaf content position =>
      cases content with
      | literal value => rfl
      | typeKeyword ty => rfl
      | identifier name =>
          have sameSymbol := agree.resolve_eq ⟨position, .whole⟩ position
          rw [typeIn, typeIn, Leaf.typeIn, Leaf.typeIn, sameSymbol]
  | unary operator position operand inductionHypothesis =>
      have sameOperand := inductionHypothesis
        (agree.imp fun name mentions => mentions.of_part (.operand operator position .whole))
      rw [typeIn, typeIn, sameOperand]
  | binary operator position left right leftHypothesis rightHypothesis =>
      have sameLeft := leftHypothesis
        (agree.imp fun name mentions => mentions.of_part (.left operator position right .whole))
      have sameRight := rightHypothesis
        (agree.imp fun name mentions => mentions.of_part (.right operator position left .whole))
      rw [typeIn, typeIn, sameLeft, sameRight]

/-! ### Nodes -/

section

variable {tag other : Tagging}

/-- The nodes of a tree have the types of its parts. -/
theorem lower_congr
    (same : ∀ part : Tree, part.Part tree -> tag part = other part)
    (start : Nat) :
    tree.lower tag start = tree.lower other start := by
  induction tree generalizing start with
  | leaf content position => rfl
  | unary operator position operand inductionHypothesis =>
      have sameOperand : ∀ part : Tree, part.Part operand -> tag part = other part :=
        fun part isPart => same part (.operand operator position isPart)
      rw [lower, lower, inductionHypothesis sameOperand,
        node_congr (sameOperand operand .whole)]
  | binary operator position left right leftHypothesis rightHypothesis =>
      have sameLeft : ∀ part : Tree, part.Part left -> tag part = other part :=
        fun part isPart => same part (.left operator position right isPart)
      have sameRight : ∀ part : Tree, part.Part right -> tag part = other part :=
        fun part isPart => same part (.right operator position left isPart)
      simp only [lower, leftHypothesis sameLeft, rightHypothesis sameRight,
        node_congr (sameLeft left .whole), node_congr (sameRight right .whole)]

theorem expressionLayout_congr
    (same : ∀ part : Tree, part.Part tree -> tag part = other part)
    (start : Nat) (parent? : Option NodeId) :
    tree.expressionLayout tag start parent? = tree.expressionLayout other start parent? := by
  rw [expressionLayout, expressionLayout, expressionNode, expressionNode, same tree .whole]
  cases tree with
  | leaf content position => rfl
  | unary operator position operand => exact congrArg (· ++ _) (lower_congr same start)
  | binary operator position left right => exact congrArg (· ++ _) (lower_congr same start)

end

/-- The types of all parts of a tree depend on the symbols of the names in it. -/
theorem typing_congr
    {part : Tree}
    (agree : AgreeOn tree.Mentions first second)
    (isPart : part.Part tree) :
    part.typing first = part.typing second := by
  have partsAgree : AgreeOn part.Mentions first second :=
    agree.imp fun name mentions => mentions.of_part isPart
  rw [typing, typing, typeIn_congr partsAgree]

end Tree

namespace StatementTree

/-- A name occurs in a statement. -/
def Mentions (statement : StatementTree) (name : String) : Prop :=
  (∃ leaf ∈ statement.leaves, leaf.content = .identifier name) ∨
    ∃ tree ∈ statement.expression?, tree.Mentions name

/-- The name that a statement declares, assigns or reads. -/
def givenName? (statement : StatementTree) : Option String :=
  statement.declaredName?.or statement.targetName?

/-- A name that is given something occurs in the statement. -/
theorem mentions_of_givenName?
    {statement : StatementTree} {name : String}
    (isGiven : statement.givenName? = some name) :
    statement.Mentions name := by
  have isLeaf : ∀ identifier : LeafAt, identifier.nameAt?.map Prod.fst = some name ->
      identifier.content = .identifier name := by
    intro identifier isName
    unfold LeafAt.nameAt? at isName
    split at isName
    · next content =>
        cases isName
        exact content
    · cases isName
  cases statement with
  | declaration position identifier typeKeyword expression =>
      refine .inl ⟨identifier, .head _, ?_⟩
      simp only [givenName?, targetName?, Option.or_none, declaredName?] at isGiven
      split at isGiven
      · next content =>
          cases isGiven
          exact content
      · cases isGiven
  | assignment position identifier tree => exact .inl ⟨identifier, .head _, isLeaf _ isGiven⟩
  | input position identifier => exact .inl ⟨identifier, .head _, isLeaf _ isGiven⟩
  | output position tree => cases isGiven

/-- Neither of two statements gives anything to a name that occurs in the other one. -/
structure Independent (first second : StatementTree) : Prop where
  givenFirst : ∀ name, first.givenName? = some name -> ¬ second.Mentions name
  givenSecond : ∀ name, second.givenName? = some name -> ¬ first.Mentions name

theorem Independent.symm
    {first second : StatementTree}
    (independent : first.Independent second) :
    second.Independent first :=
  ⟨independent.givenSecond, independent.givenFirst⟩

section

variable {statement : StatementTree} {symbols next : SymbolTable} {start : Nat}

/-- The symbols of all other names stay as they are. -/
theorem get?_of_effect
    {name : String}
    (effect : statement.Effect symbols next)
    (isOther : statement.givenName? ≠ some name) :
    next.get? name = symbols.get? name := by
  unfold givenName? at isOther
  cases effect with
  | declares isName noTarget line initialized ty registered =>
      rw [(SymbolTable.get?_of_register_eq_ok registered name).2, if_neg]
      rintro rfl
      rw [isName] at isOther
      exact isOther rfl
  | givesValue noName isTarget found =>
      rw [SymbolTable.get?_markInitialized, if_neg]
      rintro rfl
      rw [noName, isTarget] at isOther
      exact isOther rfl
  | keeps noName noTarget => rfl

/-- A statement that is accepted changes no symbol of a name that it gives nothing. -/
theorem agreeOn_of_check
    {names : String -> Prop}
    (checked : statement.check start symbols = .ok next)
    (givesNone : ∀ name, statement.givenName? = some name -> ¬ names name) :
    AgreeOn names symbols next := by
  intro name isName
  refine (get?_of_effect (effect_of_check checked) ?_).symm
  intro isGiven
  exact givesNone name isGiven isName

end

/-! ## Tables that agree on the names of a statement -/

section

variable {first second next : SymbolTable} {start : Nat}

/-- The name that a statement starts with occurs in it. -/
theorem mentions_of_nameOf
    {statement : StatementTree} {leaf : LeafAt} {id : NodeId} {name : String}
    (isLeaf : leaf ∈ statement.leaves)
    (named : nameOf id leaf = .ok name) :
    statement.Mentions name :=
  .inl ⟨leaf, isLeaf, (nameAt?_of_nameOf named).1⟩

/-- The type of a declaration depends on the symbols of the names in its expression. -/
theorem declaredTy_congr
    {expression : Option Tree}
    (agree : ∀ tree ∈ expression, AgreeOn tree.Mentions first second)
    (start : Nat) (name : String) (position : Position) (typeKeyword : Option LeafAt) :
    declaredTy start first name position typeKeyword expression =
      declaredTy start second name position typeKeyword expression := by
  cases expression with
  | none => cases typeKeyword <;> rfl
  | some tree =>
      have sameTy := Tree.typeIn_congr (agree tree rfl)
      cases typeKeyword with
      | none => rw [declaredTy, declaredTy, sameTy]
      | some leaf => rw [declaredTy, declaredTy, sameTy]

/-- A statement is accepted in all symbol tables that agree on the names in it, and they still
agree on these names behind it. -/
theorem exists_check_of_agreeOn
    {statement : StatementTree}
    (agree : AgreeOn statement.Mentions first second)
    (checked : statement.check start first = .ok next) :
    ∃ other, statement.check start second = .ok other ∧
      AgreeOn statement.Mentions next other := by
  have expressionsAgree : ∀ tree ∈ statement.expression?, AgreeOn tree.Mentions first second :=
    fun tree isExpression =>
      agree.imp fun name mentions => .inr ⟨tree, isExpression, mentions⟩
  cases statement with
  | declaration position identifier typeKeyword expression =>
      obtain ⟨name, named, rest⟩ := (bind_eq_ok_iff _ _ _).mp checked
      obtain ⟨⟨ty, initialized⟩, declared, declares⟩ := (bind_eq_ok_iff _ _ _).mp rest
      obtain ⟨other, registered, stillAgree⟩ :=
        agree.exists_register (register_of_declare declares)
          (mentions_of_nameOf (.head _) named)
      refine ⟨other, ?_, stillAgree⟩
      have sameDeclared := declaredTy_congr expressionsAgree start name position typeKeyword
      simp only [expression?] at sameDeclared
      rw [check, named, ok_bind, ← sameDeclared, declared, ok_bind]
      simp only [declare, registered]
  | assignment position identifier tree =>
      obtain ⟨name, named, rest⟩ := (bind_eq_ok_iff _ _ _).mp checked
      obtain ⟨symbol, resolved, rest⟩ := (bind_eq_ok_iff _ _ _).mp rest
      obtain ⟨inferred, typed, result⟩ := (bind_eq_ok_iff _ _ _).mp rest
      have isMentioned : (assignment position identifier tree).Mentions name :=
        mentions_of_nameOf (.head _) named
      rw [check, named, ok_bind, ← agree.resolve_eq isMentioned, resolved, ok_bind,
        ← Tree.typeIn_congr (expressionsAgree tree rfl), typed, ok_bind]
      split at result
      · next sameTy =>
          cases result
          exact ⟨_, if_pos sameTy, agree.markInitialized name⟩
      · cases result
  | input position identifier =>
      obtain ⟨name, named, rest⟩ := (bind_eq_ok_iff _ _ _).mp checked
      obtain ⟨symbol, resolved, result⟩ := (bind_eq_ok_iff _ _ _).mp rest
      have isMentioned : (input position identifier).Mentions name :=
        mentions_of_nameOf (.head _) named
      cases result
      rw [check, named, ok_bind, ← agree.resolve_eq isMentioned, resolved]
      exact ⟨_, rfl, agree.markInitialized name⟩
  | output position tree =>
      obtain ⟨inferred, typed, result⟩ := (bind_eq_ok_iff _ _ _).mp checked
      cases result
      rw [check, ← Tree.typeIn_congr (expressionsAgree tree rfl), typed]
      exact ⟨second, rfl, agree⟩

/-- The nodes of a statement have the same types in such tables. -/
theorem layout_congr
    {statement : StatementTree}
    (agree : AgreeOn statement.Mentions first second)
    (parent? : Option NodeId) :
    statement.layout (Tree.typing first) start parent? =
      statement.layout (Tree.typing second) start parent? := by
  unfold layout lower parts
  cases isExpression : statement.expression? with
  | none => rfl
  | some tree =>
      have treeAgrees : AgreeOn tree.Mentions first second :=
        agree.imp fun name mentions => .inr ⟨tree, isExpression, mentions⟩
      simp only [expressionNodes]
      rw [Tree.expressionLayout_congr fun part isPart => Tree.typing_congr treeAgrees isPart]

end

/-! ## Statements in the other order -/

/-- Two independent statements that are accepted one after the other are accepted in the other
order as well.  The symbols behind them are the same, and each of the two is checked against
the same symbols of its names. -/
theorem Independent.exists_check
    {first second : StatementTree} {symbols middle last : SymbolTable} {start place : Nat}
    (independent : first.Independent second)
    (firstChecked : first.check start symbols = .ok middle)
    (secondChecked : second.check place middle = .ok last) :
    ∃ other, second.check place symbols = .ok other ∧ first.check start other = .ok last ∧
      AgreeOn second.Mentions symbols middle ∧ AgreeOn first.Mentions symbols other := by
  have secondAgrees : AgreeOn second.Mentions symbols middle :=
    agreeOn_of_check firstChecked independent.givenFirst
  obtain ⟨other, secondFirst, behindSecond⟩ :=
    exists_check_of_agreeOn secondAgrees.symm secondChecked
  have firstAgrees : AgreeOn first.Mentions symbols other :=
    agreeOn_of_check secondFirst independent.givenSecond
  obtain ⟨bottom, firstBehind, behindFirst⟩ := exists_check_of_agreeOn firstAgrees firstChecked
  have keeps : ∀ {place : Nat} {statement : StatementTree} {before after : SymbolTable},
      statement.check place before = .ok after ->
        ∀ name, statement.givenName? ≠ some name -> after.get? name = before.get? name :=
    fun checked name isOther => get?_of_effect (effect_of_check checked) isOther
  -- Whether a name is given something by the first statement, by the second one or by neither, what
  -- is found under it in the end does not depend on the order.
  have same : bottom = last := by
    apply SymbolTable.ext_get?
    intro name
    by_cases givenFirst : first.givenName? = some name
    · have isMentioned := mentions_of_givenName? givenFirst
      have notSecond : second.givenName? ≠ some name :=
        fun isGiven => independent.givenSecond name isGiven isMentioned
      rw [← behindFirst name isMentioned, keeps secondChecked name notSecond]
    by_cases givenSecond : second.givenName? = some name
    · rw [keeps firstBehind name givenFirst, behindSecond name (mentions_of_givenName? givenSecond)]
    · rw [keeps firstBehind name givenFirst, keeps secondFirst name givenSecond,
        keeps secondChecked name givenSecond, keeps firstChecked name givenFirst]
  exact ⟨other, secondFirst, same ▸ firstBehind, secondAgrees, firstAgrees⟩

section

variable {start : Nat} {symbols last : SymbolTable}

/-- Statements are accepted behind others that are. -/
theorem checkAll_append_eq_ok_iff (statements rest : List StatementTree) :
    checkAll start symbols (statements ++ rest) = .ok last ↔
      ∃ middle, checkAll start symbols statements = .ok middle ∧
        checkAll (start + Tagged.extent (statements.map Tagged.plain)) middle rest =
          .ok last := by
  constructor
  · intro checked
    induction statements generalizing start symbols with
    | nil => exact ⟨symbols, rfl, checked⟩
    | cons first others inductionHypothesis =>
        obtain ⟨next, firstChecked, othersChecked⟩ := (bind_eq_ok_iff _ _ _).mp checked
        obtain ⟨middle, middleChecked, restChecked⟩ := inductionHypothesis othersChecked
        refine ⟨middle, ?_, ?_⟩
        · rw [checkAll, firstChecked]
          exact middleChecked
        · rw [add_extent_cons]
          exact restChecked
  · rintro ⟨middle, statementsChecked, restChecked⟩
    rw [checkAll_append statementsChecked, restChecked]

/-- Statements behind others that are accepted have the types of the check that goes on there. -/
theorem typedAll_append
    {statements : List StatementTree}
    (checked : checkAll start symbols statements = .ok last)
    (rest : List StatementTree) :
    typedAll start symbols (statements ++ rest) =
      typedAll start symbols statements ++
        typedAll (start + Tagged.extent (statements.map Tagged.plain)) last rest := by
  induction statements generalizing start symbols with
  | nil =>
      cases checked
      rfl
  | cons first others inductionHypothesis =>
      obtain ⟨next, firstChecked, othersChecked⟩ := (bind_eq_ok_iff _ _ _).mp checked
      rw [List.cons_append, typedAll, typedAll, firstChecked, add_extent_cons, List.cons_append]
      exact congrArg _ (inductionHypothesis othersChecked)

theorem checkAll_cons_eq_ok_iff (first : StatementTree) (rest : List StatementTree) :
    checkAll start symbols (first :: rest) = .ok last ↔
      ∃ next, first.check start symbols = .ok next ∧
        checkAll (start + first.descendants + 1) next rest = .ok last := by
  rw [checkAll, bind_eq_ok_iff]

end

end StatementTree
end ScriptLang
