import ScriptLang.Proofs.Program.Ascent
import ScriptLang.Proofs.Typing.Checker

/-!
# Lines of declarations

A symbol keeps the line of the statement that declares it through all later
statements.
-/

namespace ScriptLang

open Source (Position)

namespace SymbolTable

/-- Whether the symbol of a name was declared on a line. -/
def DeclaredOn (symbols : SymbolTable) (name : String) (line : Nat) : Prop :=
  ∃ symbol, symbols.get? name = some symbol ∧ symbol.line = line

theorem DeclaredOn.markInitialized
    {symbols : SymbolTable} {name : String} {line : Nat}
    (declared : symbols.DeclaredOn name line) (other : String) :
    (symbols.markInitialized other).DeclaredOn name line := by
  obtain ⟨symbol, found, isLine⟩ := declared
  by_cases same : other = name
  · refine ⟨symbol.giveValue, ?_, isLine⟩
    rw [get?_markInitialized, if_pos same, found]
    rfl
  · refine ⟨symbol, ?_, isLine⟩
    rw [get?_markInitialized, if_neg same, found]

/-- An accepted symbol has a new name, and is the only one that is added. -/
theorem get?_of_register_eq_ok
    {symbols extended : SymbolTable} {symbol : Symbol}
    (registered : symbols.register symbol = .ok extended) (name : String) :
    symbols.get? symbol.identifier = none ∧
      extended.get? name =
        if symbol.identifier = name then some symbol else symbols.get? name := by
  cases found : symbols.get? symbol.identifier with
  | some first =>
      rw [register_of_get?_eq_some found] at registered
      cases registered
  | none =>
      rw [register_of_get?_eq_none found] at registered
      cases registered
      exact ⟨rfl, get?_insert symbols symbol found name⟩

end SymbolTable

namespace StatementTree

/-- The name that a statement declares. -/
def declaredName? : StatementTree -> Option String
  | .declaration _ identifier _ _ =>
      match identifier.content with
      | .identifier name => some name
      | _ => none
  | _ => none

theorem register_of_declare
    {symbols next : SymbolTable} {symbol : Symbol} {position : Position}
    (declares : declare symbols symbol position = .ok next) :
    symbols.register symbol = .ok next := by
  unfold declare at declares
  split at declares
  · next extended registered =>
      cases declares
      exact registered
  · cases declares

/-- What is accepted as a declaration is declared on its line, and nothing declared before
changes its line. -/
theorem declaredOn_of_declare
    {symbols next : SymbolTable} {symbol : Symbol} {position : Position}
    (declares : declare symbols symbol position = .ok next) :
    next.DeclaredOn symbol.identifier symbol.line ∧
      ∀ name line, symbols.DeclaredOn name line -> next.DeclaredOn name line := by
  have registered := register_of_declare declares
  refine ⟨⟨symbol, ?_, rfl⟩, ?_⟩
  · have found := (SymbolTable.get?_of_register_eq_ok registered symbol.identifier).2
    rw [found, if_pos rfl]
  · rintro name line ⟨other, found, isLine⟩
    obtain ⟨fresh, looked⟩ := SymbolTable.get?_of_register_eq_ok registered name
    refine ⟨other, ?_, isLine⟩
    rw [looked, if_neg, found]
    rintro rfl
    rw [fresh] at found
    cases found

/-- The check of a statement puts the name that it declares on its line, and changes the line
of no other. -/
theorem declaredOn_of_check
    {start : Nat} {symbols next : SymbolTable} {statement : StatementTree}
    (checked : statement.check start symbols = .ok next) :
    (∀ name ∈ statement.declaredName?, next.DeclaredOn name statement.position.line) ∧
      ∀ name line, symbols.DeclaredOn name line -> next.DeclaredOn name line := by
  cases statement with
  | declaration position identifier typeKeyword expression =>
      obtain ⟨name, isName, rest⟩ := (bind_eq_ok_iff _ _ _).mp checked
      obtain ⟨⟨ty, initialized⟩, _, declares⟩ := (bind_eq_ok_iff _ _ _).mp rest
      obtain ⟨declared, kept⟩ := declaredOn_of_declare declares
      refine ⟨?_, kept⟩
      intro other isOther
      unfold nameOf at isName
      simp only [declaredName?] at isOther
      split at isName
      · next content =>
          cases isName
          rw [content] at isOther
          cases isOther
          exact declared
      · cases isName
  | assignment position identifier tree =>
      obtain ⟨name, _, rest⟩ := (bind_eq_ok_iff _ _ _).mp checked
      obtain ⟨symbol, _, rest⟩ := (bind_eq_ok_iff _ _ _).mp rest
      obtain ⟨inferred, _, result⟩ := (bind_eq_ok_iff _ _ _).mp rest
      refine ⟨by simp [declaredName?], ?_⟩
      split at result
      · cases result
        exact fun other line declared => declared.markInitialized name
      · cases result
  | input position identifier =>
      obtain ⟨name, _, rest⟩ := (bind_eq_ok_iff _ _ _).mp checked
      obtain ⟨symbol, _, result⟩ := (bind_eq_ok_iff _ _ _).mp rest
      cases result
      exact ⟨by simp [declaredName?], fun other line declared => declared.markInitialized name⟩
  | output position tree =>
      obtain ⟨inferred, _, result⟩ := (bind_eq_ok_iff _ _ _).mp checked
      cases result
      exact ⟨by simp [declaredName?], fun _ _ declared => declared⟩

/-- After the check of all statements, every name that one of them declares is on its line. -/
theorem declaredOn_of_checkAll
    {start : Nat} {symbols last : SymbolTable} {statements : List StatementTree}
    (checked : checkAll start symbols statements = .ok last) :
    (∀ statement ∈ statements, ∀ name ∈ statement.declaredName?,
        last.DeclaredOn name statement.position.line) ∧
      ∀ name line, symbols.DeclaredOn name line -> last.DeclaredOn name line := by
  induction statements generalizing start symbols with
  | nil =>
      cases checked
      exact ⟨by simp, fun _ _ declared => declared⟩
  | cons first rest inductionHypothesis =>
      obtain ⟨next, firstChecked, restChecked⟩ := (bind_eq_ok_iff _ _ _).mp checked
      obtain ⟨firstDeclared, firstKept⟩ := declaredOn_of_check firstChecked
      obtain ⟨restDeclared, restKept⟩ := inductionHypothesis restChecked
      refine ⟨List.forall_mem_cons.mpr ⟨?_, restDeclared⟩, ?_⟩
      · intro name isName
        exact restKept name _ (firstDeclared name isName)
      · intro name line declared
        exact restKept name line (firstKept name line declared)

end StatementTree

namespace Program

/-- The name that the statement at a node declares. -/
def declaredName? (program : Program) (id : NodeId) : Option String := do
  let node ← program.node? id
  match node.kind with
  | .statement (.declaration identifier _ _) =>
      match (← program.node? identifier).kind with
      | .leaf (.identifier name) => some name
      | _ => none
  | _ => none

/-- The statement at a node declares the name that its tree declares. -/
theorem declaredName?_of_holds
    {program : Program} {tag : Tree.Tagging} {statement : StatementTree} {start : Nat}
    {parent? : Option NodeId}
    (holds : program.Holds start (statement.layout tag start parent?)) :
    program.declaredName? (start + statement.descendants) = statement.declaredName? := by
  obtain ⟨leavesHold, _, topFound⟩ := holds_statement holds
  unfold declaredName?
  rw [topFound]
  cases statement with
  | declaration position identifier typeKeyword expression =>
      have found : program.node? start = some _ := leavesHold 0 (Nat.zero_lt_succ _)
      simp only [StatementTree.node, StatementTree.form, Option.bind_eq_bind, Option.bind_some,
        found, StatementTree.declaredName?, LeafAt.node]
      cases identifier.content <;> rfl
  | assignment position identifier tree => rfl
  | input position identifier => rfl
  | output position tree => rfl

/-- The statements of a program declare the names that their trees declare. -/
theorem declaredName?_tops
    {program : Program} {statements : List Tagged} {start index : Nat} {id : NodeId}
    (holds : program.Holds start (Tagged.layouts start statements))
    (isStatement : (Tagged.tops start statements)[index]? = some id) :
    ∃ tagged, statements[index]? = some tagged ∧
      program.declaredName? id = tagged.statement.declaredName? := by
  obtain ⟨tagged, first, isTree, rfl, here⟩ := exists_of_getElem?_tops holds isStatement
  exact ⟨tagged, isTree, declaredName?_of_holds here⟩

end Program
end ScriptLang
