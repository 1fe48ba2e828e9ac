import ScriptLang.Proofs.Program.StatementTree
import ScriptLang.Proofs.Running

/-!
# Assembled programs

A program of statements: the outermost code block and the root, and behind them
the nodes of the statements one after the other.  Every statement comes with the
types that are recorded in it.
-/

namespace ScriptLang

open Source (Position)

/-- A statement with the types of the expressions in it. -/
structure Tagged where
  tag : Tree.Tagging
  statement : StatementTree

namespace Tagged

/-- A statement before any type has been inferred. -/
def plain (statement : StatementTree) : Tagged := ⟨Tree.untagged, statement⟩

/-- The number of nodes of statements. -/
def extent : List Tagged -> Nat
  | [] => 0
  | first :: rest => first.statement.descendants + 1 + extent rest

/-- The numbers of statements whose first node has number `start`. -/
def tops (start : Nat) : List Tagged -> List NodeId
  | [] => []
  | first :: rest =>
      (start + first.statement.descendants) ::
        tops (start + first.statement.descendants + 1) rest

/-- The nodes of statements of the outermost code block. -/
def layouts (start : Nat) : List Tagged -> List Node
  | [] => []
  | first :: rest =>
      first.statement.layout first.tag start (some 0) ++
        layouts (start + first.statement.descendants + 1) rest

@[simp] theorem extent_append (first second : List Tagged) :
    extent (first ++ second) = extent first + extent second := by
  induction first with
  | nil => simp [extent]
  | cons tagged rest inductionHypothesis =>
      simp only [List.cons_append, extent, inductionHypothesis]
      omega

@[simp] theorem length_layouts (start : Nat) (statements : List Tagged) :
    (layouts start statements).length = extent statements := by
  induction statements generalizing start with
  | nil => rfl
  | cons first rest inductionHypothesis =>
      simp [layouts, extent, inductionHypothesis]

@[simp] theorem length_tops (start : Nat) (statements : List Tagged) :
    (tops start statements).length = statements.length := by
  induction statements generalizing start with
  | nil => rfl
  | cons first rest inductionHypothesis =>
      simp [tops, inductionHypothesis]

theorem tops_append (start : Nat) (first second : List Tagged) :
    tops start (first ++ second) = tops start first ++ tops (start + extent first) second := by
  induction first generalizing start with
  | nil => rfl
  | cons tagged rest inductionHypothesis =>
      have next := inductionHypothesis (start + tagged.statement.descendants + 1)
      have starts : start + tagged.statement.descendants + 1 + extent rest =
          start + (tagged.statement.descendants + 1 + extent rest) := by omega
      rw [starts] at next
      simp only [List.cons_append, tops, extent, next]

theorem tops_take (start count : Nat) (statements : List Tagged) :
    (tops start statements).take count = tops start (statements.take count) := by
  induction statements generalizing start count with
  | nil => rw [tops, List.take_nil, List.take_nil, tops]
  | cons tagged rest inductionHypothesis =>
      cases count with
      | zero => rfl
      | succ count => rw [tops, List.take_succ_cons, List.take_succ_cons, tops, inductionHypothesis]

theorem layouts_append (start : Nat) (first second : List Tagged) :
    layouts start (first ++ second) =
      layouts start first ++ layouts (start + extent first) second := by
  induction first generalizing start with
  | nil => rfl
  | cons tagged rest inductionHypothesis =>
      have next := inductionHypothesis (start + tagged.statement.descendants + 1)
      have starts : start + tagged.statement.descendants + 1 + extent rest =
          start + (tagged.statement.descendants + 1 + extent rest) := by omega
      rw [starts] at next
      simp only [List.cons_append, layouts, extent, next, List.append_assoc]

/-- The types of statements do not change their number of nodes. -/
theorem extent_congr
    {first second : List Tagged}
    (same : first.map statement = second.map statement) :
    extent first = extent second := by
  induction first generalizing second with
  | nil =>
      obtain rfl := List.map_eq_nil_iff.mp same.symm
      rfl
  | cons tagged rest inductionHypothesis =>
      obtain ⟨other, others, rfl, sameFirst, sameRest⟩ := List.map_eq_cons_iff.mp same.symm
      rw [extent, extent, ← sameFirst, inductionHypothesis sameRest.symm]

/-- The types of statements do not move them. -/
theorem tops_congr
    {first second : List Tagged}
    (same : first.map statement = second.map statement)
    (start : Nat) :
    tops start first = tops start second := by
  induction first generalizing second start with
  | nil =>
      obtain rfl := List.map_eq_nil_iff.mp same.symm
      rfl
  | cons tagged rest inductionHypothesis =>
      obtain ⟨other, others, rfl, sameFirst, sameRest⟩ := List.map_eq_cons_iff.mp same.symm
      rw [tops, tops, ← sameFirst, inductionHypothesis sameRest.symm]

theorem map_statement_plain (statements : List StatementTree) :
    (statements.map plain).map statement = statements := by
  rw [List.map_map]
  exact List.map_id statements

end Tagged

namespace Program

/-- The outermost code block and the root. -/
def frame (position : Position) (statements : List NodeId) (symbols : SymbolTable) :
    Program where
  nodes := #[⟨.codeBlock statements symbols, position, some 1⟩, ⟨.program 0, position, none⟩]
  root := 1
  code := 0

@[simp] theorem size_frame
    (position : Position) (statements : List NodeId) (symbols : SymbolTable) :
    (frame position statements symbols).size = 2 := rfl

/-- A change of the outermost code block leaves all other nodes as they are. -/
theorem modifyKind_frame
    (position : Position) (statements : List NodeId) (symbols : SymbolTable)
    (nodes : List Node) (change : NodeKind -> NodeKind)
    (newStatements : List NodeId) (newSymbols : SymbolTable)
    (changed : change (.codeBlock statements symbols) = .codeBlock newStatements newSymbols) :
    ((frame position statements symbols).extend nodes).modifyKind 0 change =
      (frame position newStatements newSymbols).extend nodes := by
  simp only [modifyKind, modifyNode, extend, frame]
  congr 1
  apply Array.toList_inj.mp
  rw [Array.toList_modify]
  simp [changed]

/-- The program of given statements, with the symbols that are declared so far. -/
def assemble (position : Position) (symbols : SymbolTable) (statements : List Tagged) :
    Program :=
  (frame position (Tagged.tops 2 statements) symbols).extend (Tagged.layouts 2 statements)

@[simp] theorem size_assemble
    (position : Position) (symbols : SymbolTable) (statements : List Tagged) :
    (assemble position symbols statements).size = 2 + Tagged.extent statements := by
  simp [assemble]

/-- The outermost code block of a program in a frame. -/
theorem node?_frame_zero
    (position : Position) (statements : List NodeId) (symbols : SymbolTable)
    (nodes : List Node) :
    ((frame position statements symbols).extend nodes).node? 0 =
      some ⟨.codeBlock statements symbols, position, some 1⟩ := by
  rw [node?_extend_of_lt nodes (Nat.zero_lt_succ 1)]
  rfl

@[simp] theorem statements_assemble
    (position : Position) (symbols : SymbolTable) (statements : List Tagged) :
    (assemble position symbols statements).statements = Tagged.tops 2 statements := by
  have code : (assemble position symbols statements).code = 0 := rfl
  rw [Program.statements, code, assemble, node?_frame_zero]

@[simp] theorem symbols_assemble
    (position : Position) (symbols : SymbolTable) (statements : List Tagged) :
    (assemble position symbols statements).symbols = symbols := by
  have code : (assemble position symbols statements).code = 0 := rfl
  rw [Program.symbols, code, assemble, node?_frame_zero]

/-- A statement whose nodes stand at the end becomes the last statement of the program. -/
theorem pushStatement_assemble
    (position : Position) (symbols : SymbolTable) (statements : List Tagged) (last : Tagged) :
    let program := assemble position symbols statements
    (program.extend (last.statement.layout last.tag program.size none)).pushStatement 0
        (program.size + last.statement.descendants) =
      .ok (some (assemble position symbols (statements ++ [last]))) := by
  intro program
  have size : program.size = 2 + Tagged.extent statements := size_assemble ..
  let top := program.size + last.statement.descendants
  let nodes := Tagged.layouts 2 statements ++
    last.statement.layout last.tag program.size none
  let ids := Tagged.tops 2 statements
  have extended : program.extend (last.statement.layout last.tag program.size none) =
      (frame position ids symbols).extend nodes := by
    simp only [program, assemble, extend_extend]
    rfl
  have found : ((frame position ids symbols).extend nodes).node 0 =
      .ok ⟨.codeBlock ids symbols, position, some 1⟩ := by
    rw [node, node?_frame_zero]
  have modified := modifyKind_frame position ids symbols nodes (.withStatement top)
    (ids ++ [top]) symbols rfl
  have attached := StatementTree.attach_layout (frame position (ids ++ [top]) symbols) last.tag
    last.statement 0 (Tagged.layouts 2 statements) [] program.size (by simp [size])
  simp only [List.append_nil] at attached
  rw [extended, pushStatement, found]
  simp only [ok_bind, modified, nodes, top]
  rw [attached]
  simp only [ok_bind, pure_eq_ok, assemble, Tagged.tops_append, Tagged.layouts_append,
    Tagged.tops, Tagged.layouts, List.append_nil, ids, top, size]

end Program
end ScriptLang
