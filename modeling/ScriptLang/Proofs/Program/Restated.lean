import ScriptLang.Proofs.Program.Bare
import ScriptLang.Proofs.Program.LooksLike
import ScriptLang.Proofs.Program.Shape

/-!
# Restated programs

Programs in which the statements have been given other forms, each at its node.  All
other nodes stay as they are, and with them places, scopes, symbols, expressions and
leaves.
-/

namespace ScriptLang

open Source (Position)

namespace NodeKind

/-- A statement in another form; any other node stays as it is. -/
def restated (change : Statement -> Statement) : NodeKind -> NodeKind
  | .statement content => .statement (change content)
  | kind => kind

variable (change : Statement -> Statement)

@[simp] theorem symbols?_restated (kind : NodeKind) :
    (kind.restated change).symbols? = kind.symbols? := by
  cases kind <;> rfl

theorem restated_withType (ty : Ty) (kind : NodeKind) :
    (kind.withType ty).restated change = (kind.restated change).withType ty := by
  cases kind <;> rfl

theorem restated_withSymbols (symbols : SymbolTable) (kind : NodeKind) :
    (kind.withSymbols symbols).restated change = (kind.restated change).withSymbols symbols := by
  cases kind <;> rfl

end NodeKind

/-- A node whose statement is in another form. -/
def Node.restated (change : Statement -> Statement) (node : Node) : Node :=
  { node with kind := node.kind.restated change }

namespace Program

/-- A program in which every statement is in the form that it is changed to. -/
def restated (change : NodeId -> Statement -> Statement) (program : Program) : Program :=
  { program with nodes := program.nodes.mapIdx fun id node => node.restated (change id) }

section

variable (change : NodeId -> Statement -> Statement) (program : Program)

@[simp] theorem size_restated : (program.restated change).size = program.size :=
  Array.size_mapIdx

@[simp] theorem node?_restated (id : NodeId) :
    (program.restated change).node? id = (program.node? id).map (Node.restated (change id)) :=
  Array.getElem?_mapIdx

@[simp] theorem kind?_restated (id : NodeId) :
    (program.restated change).kind? id =
      (program.kind? id).map (NodeKind.restated (change id)) := by
  rw [kind?, kind?, node?_restated, Option.map_map, Option.map_map]
  rfl

/-- The forms of statements cannot be seen on a walk. -/
theorem looksLike_restated : (program.restated change).LooksLike program where
  size_eq := size_restated change program
  outlook := by
    intro id
    rw [node?_restated, Option.map_map]
    congr 1
    funext node
    exact Prod.ext (NodeKind.symbols?_restated _ node.kind) rfl
  position := by
    intro id
    rw [node?_restated, Option.map_map]
    rfl

/-- What a node is may be changed first, unless it concerns statements. -/
theorem modifyKind_restated
    (id : NodeId) (modify : NodeKind -> NodeKind)
    (commutes : ∀ (change : Statement -> Statement) (kind : NodeKind),
      (modify kind).restated change = modify (kind.restated change)) :
    (program.restated change).modifyKind id modify =
      (program.modifyKind id modify).restated change := by
  refine ext_node? (fun other => ?_) rfl rfl
  rw [modifyKind, node?_modifyNode, node?_restated, node?_restated, modifyKind, node?_modifyNode]
  split
  · rw [Option.map_map, Option.map_map]
    congr 1
    funext node
    exact congrArg (Node.mk · node.position node.parent?) (commutes (change other) node.kind).symm
  · rfl

theorem tag_restated (id : NodeId) (ty : Ty) :
    (program.restated change).tag id ty = (program.tag id ty).restated change :=
  modifyKind_restated change program id _ fun change kind =>
    NodeKind.restated_withType change ty kind

theorem withSymbols_restated (scope : NodeId) (symbols : SymbolTable) :
    (program.restated change).modifyKind scope (.withSymbols symbols) =
      (program.modifyKind scope (.withSymbols symbols)).restated change :=
  modifyKind_restated change program scope _ fun change kind =>
    NodeKind.restated_withSymbols change symbols kind

theorem declareIn_restated (scope : NodeId) (symbol : Symbol) (position : Position) :
    (program.restated change).declareIn scope symbol position =
      (program.declareIn scope symbol position).map (restated change) := by
  rw [declareIn, declareIn, Program.node, Program.node, node?_restated]
  cases program.node? scope with
  | none => rfl
  | some node =>
      simp only [Option.map_some, ok_bind, Node.restated, NodeKind.symbols?_restated]
      cases node.kind.symbols? with
      | none => rfl
      | some symbols =>
          dsimp only
          cases symbols.register symbol with
          | error issue => rfl
          | ok extended => exact congrArg Except.ok (withSymbols_restated change program scope _)

theorem markInitialized_restated (scope : NodeId) (name : String) :
    (program.restated change).markInitialized scope name =
      (program.markInitialized scope name).map (Option.map (Prod.map id (restated change))) := by
  rw [markInitialized, markInitialized, Program.node, Program.node, node?_restated]
  cases program.node? scope with
  | none => rfl
  | some node =>
      simp only [Option.map_some, ok_bind, Node.restated, NodeKind.symbols?_restated,
        withSymbols_restated]
      cases node.kind.symbols? <;> rfl

@[simp] theorem statements_restated :
    (program.restated change).statements = program.statements := by
  have code : (program.restated change).code = program.code := rfl
  rw [Program.statements, Program.statements, code, node?_restated]
  rcases program.node? program.code with _ | ⟨kind, position, parent?⟩
  · rfl
  · cases kind <;> rfl

@[simp] theorem symbols_restated : (program.restated change).symbols = program.symbols := by
  have code : (program.restated change).code = program.code := rfl
  rw [Program.symbols, Program.symbols, code, node?_restated]
  rcases program.node? program.code with _ | ⟨kind, position, parent?⟩
  · rfl
  · cases kind <;> rfl

end
end Program
end ScriptLang
