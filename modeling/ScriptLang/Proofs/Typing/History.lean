import ScriptLang.Proofs.Fault.Sorts
import ScriptLang.Proofs.Typing.CommandTree
import ScriptLang.Proofs.Typing.Lines
import ScriptLang.Proofs.Typing.Reached

/-!
# What symbols remember

A symbol table after the check of statements is the history of these statements:
it has one symbol for each of their declarations, which has been given a value if
its declaration or a later statement gives it one.  Checks look names up in that
history, so what they accept and what they blame can be told from the statements.
-/

namespace ScriptLang

open Source (Position)

/-- An inserted symbol is one more symbol. -/
theorem Symbol.perm_insertInto (symbol : Symbol) (symbols : List Symbol) :
    (symbol.insertInto symbols).Perm (symbol :: symbols) := by
  induction symbols with
  | nil => exact .refl _
  | cons first rest inductionHypothesis =>
      rw [insertInto]
      split
      · exact .refl _
      · exact (inductionHypothesis.cons first).trans (.swap symbol first rest)

namespace SymbolTable

/-- The declared names. -/
def names (symbols : SymbolTable) : List String := symbols.symbols.map Symbol.identifier

/-- No name is declared twice. -/
theorem nodup_names (symbols : SymbolTable) : symbols.names.Nodup := by
  refine List.pairwise_map.mpr (symbols.ordered.imp ?_)
  intro first second before same
  rw [Symbol.Before, same] at before
  exact String.lt_irrefl _ before

theorem mem_names_iff (symbols : SymbolTable) (name : String) :
    name ∈ symbols.names ↔ ∃ symbol, symbols.get? name = some symbol := by
  simp only [names, List.mem_map, get?_eq_some_iff]

theorem names_markInitialized (symbols : SymbolTable) (name : String) :
    (symbols.markInitialized name).names = symbols.names := by
  simp only [names, markInitialized, Symbol.giveValueIn, List.map_map]
  refine List.map_congr_left fun symbol _ => ?_
  rw [Function.comp_apply]
  split <;> rfl

theorem names_of_register
    {symbols extended : SymbolTable} {symbol : Symbol}
    (registered : symbols.register symbol = .ok extended) :
    extended.names.Perm (symbol.identifier :: symbols.names) := by
  have fresh := (get?_of_register_eq_ok registered symbol.identifier).1
  rw [register_of_get?_eq_none fresh] at registered
  cases registered
  exact (Symbol.perm_insertInto symbol symbols.symbols).map Symbol.identifier

/-- A fault that names an undeclared variable is about one that is not in the table, and a fault
that names an uninitialized variable about one that is there without a value. -/
def Blames (symbols : SymbolTable) (fault : Fault) : Prop :=
  (∀ name position, fault = .report ⟨.undeclared name, position⟩ -> symbols.get? name = none) ∧
    ∀ name position, fault = .report ⟨.uninitialized name, position⟩ ->
      ∃ symbol, symbols.get? name = some symbol ∧ symbol.initialized = false

theorem resolve_blames (symbols : SymbolTable) (name : String) (position : Position) :
    Yields (fun symbol => symbols.get? name = some symbol) symbols.Blames
      (symbols.resolve name position) := by
  rw [resolve]
  cases found : symbols.get? name with
  | some symbol => rfl
  | none =>
      constructor
      · rintro _ _ ⟨⟩
        exact found
      · rintro _ _ ⟨⟩

end SymbolTable

section

variable {symbols next : SymbolTable} {start : Nat}

/-- A name that is read where it is accepted is declared and has been given a value. -/
theorem Leaf.typeIn_blames (content : Leaf) (symbols : SymbolTable) (position : Position) :
    Yields
      (fun _ => ∀ name, content = .identifier name ->
        ∃ symbol, symbols.get? name = some symbol ∧ symbol.initialized = true)
      symbols.Blames (content.typeIn symbols position) := by
  cases content with
  | literal value => exact nofun
  | typeKeyword ty => exact ⟨nofun, nofun⟩
  | identifier name =>
      refine .bind (symbols.resolve_blames name position) ?_
      intro symbol found
      split
      · next initialized =>
          rintro _ ⟨⟩
          exact ⟨symbol, found, initialized⟩
      · next uninitialized =>
          refine ⟨nofun, ?_⟩
          rintro _ _ ⟨⟩
          exact ⟨symbol, found, Bool.eq_false_iff.mpr uninitialized⟩

theorem reportAt_blames (position : Position) (result : Except TypeCause Ty) :
    Yields (fun _ => True) symbols.Blames (Typing.reportAt position result) := by
  cases result with
  | ok ty => trivial
  | error cause => exact ⟨nofun, nofun⟩

namespace Tree

/-- A name is read somewhere in a tree. -/
def Mentions (tree : Tree) (name : String) : Prop :=
  ∃ position, (leaf (.identifier name) position).Part tree

theorem typeIn_blames (tree : Tree) (symbols : SymbolTable) :
    Yields (fun _ => True) symbols.Blames (tree.typeIn symbols) := by
  induction tree with
  | leaf content position =>
      exact (content.typeIn_blames symbols position).imp (fun _ _ _ => trivial) fun _ => id
  | unary operator position operand inductionHypothesis =>
      refine .bind inductionHypothesis ?_
      intro ty _
      exact reportAt_blames position _
  | binary operator position left right leftHypothesis rightHypothesis =>
      refine .bind leftHypothesis ?_
      intro leftTy _
      refine .bind rightHypothesis ?_
      intro rightTy _
      exact reportAt_blames position _

/-- The names in a well-typed tree are declared and have been given values. -/
theorem exists_of_mentions
    {tree : Tree} {ty : Ty} {name : String}
    (typed : tree.typeIn symbols = .ok ty)
    (mentions : tree.Mentions name) :
    ∃ symbol, symbols.get? name = some symbol ∧ symbol.initialized = true := by
  obtain ⟨position, isPart⟩ := mentions
  obtain ⟨_, nameTyped⟩ := exists_typeIn_of_part isPart typed
  exact ((Leaf.identifier name).typeIn_blames symbols position).value nameTyped name rfl

end Tree

namespace StatementTree

/-- The name that a statement assigns or reads. -/
def targetName? : StatementTree -> Option String
  | .assignment _ identifier _ => identifier.nameAt?.map Prod.fst
  | .input _ identifier => identifier.nameAt?.map Prod.fst
  | _ => none

/-- The type that a declaration gives its variable: that of its keyword, or else the one that is
recorded at its value. -/
def declaredTy? (tag : Tree.Tagging) : StatementTree -> Option Ty
  | .declaration _ _ (some keyword) _ => keyword.keyword?
  | .declaration _ _ none (some tree) => tag tree
  | _ => none

/-- What a statement that is accepted does to the symbols. -/
inductive Effect (statement : StatementTree) (symbols : SymbolTable) : SymbolTable -> Prop
  | declares {symbol : Symbol} {next : SymbolTable} :
      statement.declaredName? = some symbol.identifier -> statement.targetName? = none ->
        symbol.line = statement.position.line ->
        symbol.initialized = statement.expression?.isSome ->
        statement.declaredTy? (Tree.typing symbols) = some symbol.ty ->
        symbols.register symbol = .ok next -> Effect statement symbols next
  | givesValue {name : String} {symbol : Symbol} :
      statement.declaredName? = none -> statement.targetName? = some name ->
        symbols.get? name = some symbol -> Effect statement symbols (symbols.markInitialized name)
  | keeps :
      statement.declaredName? = none -> statement.targetName? = none ->
        Effect statement symbols symbols

theorem nameAt?_of_nameOf
    {id : NodeId} {leaf : LeafAt} {name : String}
    (named : nameOf id leaf = .ok name) :
    leaf.content = .identifier name ∧ leaf.nameAt? = some (name, leaf.position) := by
  unfold nameOf at named
  split at named
  · next content =>
      cases named
      exact ⟨content, by rw [LeafAt.nameAt?, content]⟩
  · cases named

theorem keyword?_of_keywordTy
    {id : NodeId} {leaf : LeafAt} {ty : Ty}
    (isKeyword : keywordTy id leaf = .ok ty) :
    leaf.keyword? = some ty := by
  unfold keywordTy at isKeyword
  split at isKeyword
  · next content =>
      cases isKeyword
      rw [LeafAt.keyword?, content]
  · cases isKeyword

theorem declaredTy?_of_declaredTy
    {name : String} {position : Position} {typeKeyword : Option LeafAt}
    {expression : Option Tree} {ty : Ty} {initialized : Bool}
    (identifier : LeafAt)
    (declared : declaredTy start symbols name position typeKeyword expression =
      .ok (ty, initialized)) :
    initialized = expression.isSome ∧
      (declaration position identifier typeKeyword expression).declaredTy?
        (Tree.typing symbols) = some ty := by
  cases typeKeyword with
  | none =>
      cases expression with
      | none => cases declared
      | some tree =>
          obtain ⟨inferred, typed, result⟩ := (bind_eq_ok_iff _ _ _).mp declared
          cases result
          refine ⟨rfl, ?_⟩
          exact Tree.typing_of_typeIn_eq_ok typed
  | some leaf =>
      cases expression with
      | none =>
          obtain ⟨named, isKeyword, result⟩ := (bind_eq_ok_iff _ _ _).mp declared
          cases result
          exact ⟨rfl, keyword?_of_keywordTy isKeyword⟩
      | some tree =>
          obtain ⟨named, isKeyword, rest⟩ := (bind_eq_ok_iff _ _ _).mp declared
          obtain ⟨inferred, _, result⟩ := (bind_eq_ok_iff _ _ _).mp rest
          split at result
          · cases result
            exact ⟨rfl, keyword?_of_keywordTy isKeyword⟩
          · cases result

/-- A statement that is accepted declares one variable, gives one a value, or leaves the symbols
as they are. -/
theorem effect_of_check
    {statement : StatementTree}
    (checked : statement.check start symbols = .ok next) :
    statement.Effect symbols next := by
  cases statement with
  | declaration position identifier typeKeyword expression =>
      obtain ⟨name, named, rest⟩ := (bind_eq_ok_iff _ _ _).mp checked
      obtain ⟨⟨ty, initialized⟩, declared, declares⟩ := (bind_eq_ok_iff _ _ _).mp rest
      obtain ⟨sameInitialized, sameTy⟩ := declaredTy?_of_declaredTy identifier declared
      let symbol : Symbol := ⟨name, ty, initialized, position.line⟩
      have isName : (declaration position identifier typeKeyword expression).declaredName? =
          some symbol.identifier := by
        rw [declaredName?, (nameAt?_of_nameOf named).1]
      exact .declares isName rfl rfl sameInitialized sameTy (register_of_declare declares)
  | assignment position identifier tree =>
      obtain ⟨name, named, rest⟩ := (bind_eq_ok_iff _ _ _).mp checked
      obtain ⟨symbol, resolved, rest⟩ := (bind_eq_ok_iff _ _ _).mp rest
      obtain ⟨inferred, _, result⟩ := (bind_eq_ok_iff _ _ _).mp rest
      have isTarget : (assignment position identifier tree).targetName? = some name := by
        rw [targetName?, (nameAt?_of_nameOf named).2]
        rfl
      split at result
      · cases result
        exact .givesValue rfl isTarget ((symbols.resolve_blames name _).value resolved)
      · cases result
  | input position identifier =>
      obtain ⟨name, named, rest⟩ := (bind_eq_ok_iff _ _ _).mp checked
      obtain ⟨symbol, resolved, result⟩ := (bind_eq_ok_iff _ _ _).mp rest
      have isTarget : (input position identifier).targetName? = some name := by
        rw [targetName?, (nameAt?_of_nameOf named).2]
        rfl
      cases result
      exact .givesValue rfl isTarget ((symbols.resolve_blames name _).value resolved)
  | output position tree =>
      obtain ⟨inferred, _, result⟩ := (bind_eq_ok_iff _ _ _).mp checked
      cases result
      exact .keeps rfl rfl

theorem nameOf_blames (id : NodeId) (leaf : LeafAt) :
    Yields (fun _ => True) symbols.Blames (nameOf id leaf) := by
  unfold nameOf
  split
  · trivial
  · exact ⟨nofun, nofun⟩

theorem keywordTy_blames (id : NodeId) (leaf : LeafAt) :
    Yields (fun _ => True) symbols.Blames (keywordTy id leaf) := by
  unfold keywordTy
  split
  · trivial
  · exact ⟨nofun, nofun⟩

theorem declaredTy_blames
    (name : String) (position : Position) (typeKeyword : Option LeafAt)
    (expression : Option Tree) :
    Yields (fun _ => True) symbols.Blames
      (declaredTy start symbols name position typeKeyword expression) := by
  cases typeKeyword with
  | none =>
      cases expression with
      | none => exact ⟨nofun, nofun⟩
      | some tree =>
          refine .bind (tree.typeIn_blames symbols) ?_
          intro ty _
          trivial
  | some leaf =>
      cases expression with
      | none =>
          refine .bind (keywordTy_blames (start + 1) leaf) ?_
          intro ty _
          trivial
      | some tree =>
          refine .bind (keywordTy_blames (start + 1) leaf) ?_
          intro declared _
          refine .bind (tree.typeIn_blames symbols) ?_
          intro inferred _
          split
          · trivial
          · exact ⟨nofun, nofun⟩

theorem declare_blames (symbol : Symbol) (position : Position) :
    Yields (fun _ => True) symbols.Blames (declare symbols symbol position) := by
  unfold declare
  cases found : symbols.get? symbol.identifier with
  | none =>
      rw [SymbolTable.register_of_get?_eq_none found]
      trivial
  | some first =>
      rw [SymbolTable.register_of_get?_eq_some found]
      exact ⟨nofun, nofun⟩

/-- Names are blamed as they stand in the symbol table before the statement. -/
theorem check_blames (start : Nat) (symbols : SymbolTable) (statement : StatementTree) :
    Yields (fun _ => True) symbols.Blames (statement.check start symbols) := by
  cases statement with
  | declaration position identifier typeKeyword expression =>
      refine .bind (nameOf_blames start identifier) ?_
      intro name _
      refine .bind (declaredTy_blames name position typeKeyword expression) ?_
      intro declared _
      exact declare_blames _ position
  | assignment position identifier tree =>
      refine .bind (nameOf_blames start identifier) ?_
      intro name _
      refine .bind (symbols.resolve_blames name identifier.position) ?_
      intro symbol _
      refine .bind (tree.typeIn_blames symbols) ?_
      intro inferred _
      split
      · trivial
      · exact ⟨nofun, nofun⟩
  | input position identifier =>
      refine .bind (nameOf_blames start identifier) ?_
      intro name _
      refine .bind (symbols.resolve_blames name identifier.position) ?_
      intro symbol _
      trivial
  | output position tree =>
      refine .bind (tree.typeIn_blames symbols) ?_
      intro ty _
      trivial

end StatementTree

/-- A symbol table has exactly the symbols that statements declare, each with the line and the
type of its declaration; those have been given values that are declared with one or that a later
statement assigns or reads. -/
structure SymbolTable.Remembers (symbols : SymbolTable) (statements : List Tagged) : Prop where
  names : symbols.names.Perm
    ((statements.map Tagged.statement).filterMap StatementTree.declaredName?)
  symbol : ∀ (index : Nat) (tagged : Tagged) (name : String), statements[index]? = some tagged ->
    tagged.statement.declaredName? = some name ->
      ∃ symbol, symbols.get? name = some symbol ∧
        symbol.line = tagged.statement.position.line ∧
        tagged.statement.declaredTy? tagged.tag = some symbol.ty ∧
        (symbol.initialized = true ↔ tagged.statement.expression?.isSome ∨
          ∃ later ∈ (statements.map Tagged.statement).drop (index + 1),
            later.targetName? = some name)

namespace SymbolTable.Remembers

variable {statements : List Tagged}

theorem empty : SymbolTable.empty.Remembers [] where
  names := .refl _
  symbol := by
    intro index tagged name found
    cases found

/-- The names after a statement that is accepted. -/
theorem names_of_effect
    {statement : StatementTree}
    (remembers : symbols.Remembers statements)
    (effect : statement.Effect symbols next) :
    next.names.Perm
      ((statements.map Tagged.statement ++ [statement]).filterMap
        StatementTree.declaredName?) := by
  rw [List.filterMap_append]
  cases effect with
  | declares isName noTarget line initialized ty registered =>
      rw [List.filterMap_cons_some isName]
      refine (names_of_register registered).trans ?_
      exact (remembers.names.cons _).trans (List.perm_append_singleton _ _).symm
  | givesValue noName isTarget found =>
      rw [List.filterMap_cons_none noName, List.filterMap_nil, List.append_nil,
        names_markInitialized]
      exact remembers.names
  | keeps noName noTarget =>
      rw [List.filterMap_cons_none noName, List.filterMap_nil, List.append_nil]
      exact remembers.names

/-- A symbol after a statement that is accepted: it has its place, its type, and a value if it had
one or if the statement gives it one. -/
theorem exists_symbol_of_effect
    {statement : StatementTree} {symbol : Symbol} {name : String}
    (effect : statement.Effect symbols next)
    (isSymbol : symbols.get? name = some symbol) :
    ∃ same, next.get? name = some same ∧ same.line = symbol.line ∧ same.ty = symbol.ty ∧
      (same.initialized = true ↔
        symbol.initialized = true ∨ statement.targetName? = some name) := by
  cases effect with
  | declares otherName noTarget otherLine otherInitialized otherTy registered =>
      obtain ⟨fresh, looked⟩ := get?_of_register_eq_ok registered name
      refine ⟨symbol, ?_, rfl, rfl, ?_⟩
      · rw [looked, if_neg, isSymbol]
        rintro rfl
        rw [fresh] at isSymbol
        cases isSymbol
      · rw [noTarget]
        exact (or_iff_left nofun).symm
  | @givesValue target _ noName isTarget targetFound =>
      rw [isTarget, get?_markInitialized, isSymbol]
      by_cases same : target = name
      · rw [if_pos same]
        exact ⟨symbol.giveValue, rfl, rfl, rfl, iff_of_true rfl (.inr (congrArg some same))⟩
      · rw [if_neg same]
        exact ⟨symbol, rfl, rfl, rfl,
          (or_iff_left fun isName => same (Option.some.inj isName)).symm⟩
  | keeps noName noTarget =>
      rw [noTarget]
      exact ⟨symbol, isSymbol, rfl, rfl, (or_iff_left nofun).symm⟩

/-- The symbol of a declaration that is accepted. -/
theorem exists_symbol_of_declaredName?
    {statement : StatementTree} {name : String}
    (effect : statement.Effect symbols next)
    (isName : statement.declaredName? = some name) :
    ∃ symbol, next.get? name = some symbol ∧ symbol.line = statement.position.line ∧
      statement.declaredTy? (Tree.typing symbols) = some symbol.ty ∧
      (symbol.initialized = true ↔ statement.expression?.isSome) := by
  cases effect with
  | @declares symbol _ symbolName noTarget line initialized ty registered =>
      obtain rfl : symbol.identifier = name := Option.some.inj (symbolName.symm.trans isName)
      refine ⟨symbol, ?_, line, ty, by rw [initialized]⟩
      rw [(get?_of_register_eq_ok registered symbol.identifier).2, if_pos rfl]
  | givesValue noName => cases noName.symm.trans isName
  | keeps noName => cases noName.symm.trans isName

/-- A statement that is accepted is remembered as well. -/
theorem step
    {statement : StatementTree}
    (remembers : symbols.Remembers statements)
    (effect : statement.Effect symbols next) :
    next.Remembers (statements ++ [⟨Tree.typing symbols, statement⟩]) where
  names := by
    rw [List.map_append, List.map_singleton]
    exact remembers.names_of_effect effect
  symbol := by
    intro index tagged name found isName
    rw [List.map_append, List.map_singleton]
    rcases Nat.lt_trichotomy index statements.length with inRange | rfl | behind
    · rw [List.getElem?_append_left inRange] at found
      rw [List.drop_append_of_le_length (by rw [List.length_map]; exact inRange)]
      obtain ⟨symbol, isSymbol, line, ty, initialized⟩ :=
        remembers.symbol index tagged name found isName
      obtain ⟨same, isSame, sameLine, sameTy, givesValue⟩ :=
        exists_symbol_of_effect effect isSymbol
      refine ⟨same, isSame, sameLine.trans line, sameTy.symm ▸ ty, ?_⟩
      rw [givesValue, initialized]
      simp only [List.mem_append, List.mem_singleton, or_and_right, exists_or, exists_eq_left,
        or_assoc]
    · rw [List.getElem?_concat_length] at found
      cases found
      have noLater : (statements.map Tagged.statement ++ [statement]).drop
          (statements.length + 1) = [] := List.drop_eq_nil_of_le (by simp)
      obtain ⟨symbol, isSymbol, line, ty, initialized⟩ :=
        exists_symbol_of_declaredName? effect isName
      refine ⟨symbol, isSymbol, line, ty, ?_⟩
      rw [noLater, initialized]
      simp only [List.not_mem_nil, false_and, exists_false, or_false]
    · rw [List.getElem?_eq_none (by rw [List.length_append, List.length_singleton]; omega)] at found
      cases found

/-- All statements that are accepted are remembered. -/
theorem run
    {others : List StatementTree}
    (remembers : symbols.Remembers statements)
    (checked : StatementTree.checkAll start symbols others = .ok next) :
    next.Remembers (statements ++ StatementTree.typedAll start symbols others) := by
  induction others generalizing start symbols statements with
  | nil =>
      cases checked
      rw [StatementTree.typedAll, List.append_nil]
      exact remembers
  | cons first rest inductionHypothesis =>
      obtain ⟨middle, firstChecked, restChecked⟩ := (bind_eq_ok_iff _ _ _).mp checked
      have continued := inductionHypothesis
        (remembers.step (StatementTree.effect_of_check firstChecked)) restChecked
      rw [List.append_assoc] at continued
      rw [StatementTree.typedAll, firstChecked]
      exact continued

end SymbolTable.Remembers

end

end ScriptLang
