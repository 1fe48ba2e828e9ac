import ScriptLang.Program.Printer
import ScriptLang.Proofs.Program.Unplaced

/-!
# Bare programs

What is left of a program without the types of its expressions, and without its
symbols as well.  These are what an analysis adds, and no text depends on them, nor
on places.
-/

namespace ScriptLang

namespace NodeKind

/-- What a node is, without the type of an expression. -/
def untyped : NodeKind -> NodeKind
  | .expression content => .expression { content with ty? := none }
  | kind => kind

/-- What a node is, without the type of an expression and without symbols. -/
def bare : NodeKind -> NodeKind
  | .codeBlock statements _ => .codeBlock statements .empty
  | kind => kind.untyped

@[simp] theorem children_bare (kind : NodeKind) : kind.bare.children = kind.children := by
  cases kind <;> rfl

@[simp] theorem symbols?_untyped (kind : NodeKind) : kind.untyped.symbols? = kind.symbols? := by
  cases kind <;> rfl

@[simp] theorem untyped_withType (ty : Ty) (kind : NodeKind) :
    (kind.withType ty).untyped = kind.untyped := by
  cases kind <;> rfl

theorem untyped_withSymbols (symbols : SymbolTable) (kind : NodeKind) :
    (kind.withSymbols symbols).untyped = kind.untyped.withSymbols symbols := by
  cases kind <;> rfl

/-- Only the types of expressions are taken away. -/
theorem eq_of_untyped_eq
    {kind other : NodeKind}
    (same : kind.untyped = other.untyped)
    (noExpression : other.expression? = none) :
    kind = other := by
  cases other with
  | expression content => cases noExpression
  | _ =>
      cases kind with
      | expression content => cases same
      | _ => exact same

end NodeKind

/-- A node without the type of its expression. -/
def Node.untyped (node : Node) : Node := { node with kind := node.kind.untyped }

/-- A node without the type of its expression and without its symbols. -/
def Node.bare (node : Node) : Node := { node with kind := node.kind.bare }

namespace Program

/-- A program with every node changed in the same way. -/
def mapNodes (view : Node -> Node) (program : Program) : Program :=
  { program with nodes := program.nodes.map view }

/-- A program without the types of its expressions. -/
def untyped (program : Program) : Program := program.mapNodes Node.untyped

/-- A program without types and symbols: its forms, links and places. -/
def bare (program : Program) : Program := program.mapNodes Node.bare

section

variable (view : Node -> Node) (program : Program)

@[simp] theorem size_mapNodes : (program.mapNodes view).size = program.size :=
  Array.size_map

@[simp] theorem node?_mapNodes (id : NodeId) :
    (program.mapNodes view).node? id = (program.node? id).map view :=
  Array.getElem?_map

/-- What a view keeps of a node is the same for programs that are the same in this view. -/
theorem map_node?_of_mapNodes_eq
    {α : Type} {view : Node -> Node} {program other : Program}
    (same : program.mapNodes view = other.mapNodes view)
    (reads : Node -> α)
    (kept : ∀ node, reads (view node) = reads node)
    (id : NodeId) :
    (program.node? id).map reads = (other.node? id).map reads := by
  have sameNode : (program.node? id).map view = (other.node? id).map view := by
    rw [← node?_mapNodes, same, node?_mapNodes]
  have readsView : reads = reads ∘ view := funext fun node => (kept node).symm
  rw [readsView, ← Option.map_map, sameNode, Option.map_map]

theorem size_of_mapNodes_eq
    {view : Node -> Node} {program other : Program}
    (same : program.mapNodes view = other.mapNodes view) :
    program.size = other.size := by
  rw [← size_mapNodes view program, same, size_mapNodes]

/-- A program is determined by its nodes. -/
theorem ext_node?
    {program other : Program}
    (sameNodes : ∀ id, program.node? id = other.node? id)
    (sameRoot : program.root = other.root)
    (sameCode : program.code = other.code) :
    program = other := by
  have nodes : program.nodes = other.nodes := Array.ext_getElem? sameNodes
  cases program
  cases other
  cases nodes
  cases sameRoot
  cases sameCode
  rfl

/-- A change that a view does not show. -/
theorem mapNodes_modifyKind
    (change : NodeKind -> NodeKind)
    (hidden : ∀ node : Node, view { node with kind := change node.kind } = view node)
    (id : NodeId) :
    (program.modifyKind id change).mapNodes view = program.mapNodes view := by
  refine ext_node? (fun other => ?_) rfl rfl
  rw [node?_mapNodes, node?_mapNodes, modifyKind, node?_modifyNode]
  split
  · rw [Option.map_map]
    exact congrArg (Option.map · _) (funext hidden)
  · rfl

/-- Programs that are the same in a view are the same in a view that shows less. -/
theorem mapNodes_eq_of_mapNodes_eq
    {view coarser : Node -> Node} {program other : Program}
    (same : program.mapNodes view = other.mapNodes view)
    (showsLess : ∀ node, coarser (view node) = coarser node) :
    program.mapNodes coarser = other.mapNodes coarser := by
  refine ext_node? (fun id => ?_) (congrArg Program.root same :) (congrArg Program.code same :)
  rw [node?_mapNodes, node?_mapNodes, map_node?_of_mapNodes_eq same coarser showsLess]

variable {view}
variable (sameText : ∀ textOf node, kindText textOf (view node).kind = kindText textOf node.kind)

include sameText

/-- No node is printed in another way when its text does not depend on the change. -/
theorem nodeText_mapNodes (depth : Nat) (id : NodeId) :
    (program.mapNodes view).nodeText depth id = program.nodeText depth id := by
  induction depth generalizing id with
  | zero => rfl
  | succ depth inductionHypothesis =>
      have parts : (program.mapNodes view).nodeText depth = program.nodeText depth :=
        funext inductionHypothesis
      rw [nodeText, nodeText, node?_mapNodes, parts]
      cases program.node? id with
      | none => rfl
      | some node => exact sameText _ node

theorem toText_mapNodes : (program.mapNodes view).toText = program.toText := by
  unfold toText
  rw [size_mapNodes]
  exact nodeText_mapNodes program sameText _ _

end

/-- A program is printed without its types and symbols. -/
theorem toText_bare (program : Program) : program.bare.toText = program.toText := by
  apply toText_mapNodes
  intro textOf node
  change kindText textOf node.kind.bare = _
  cases node.kind <;> rfl

/-- A program is printed without its places. -/
theorem toText_unplaced (program : Program) : program.unplaced.toText = program.toText := by
  change (program.mapNodes Node.unplaced).toText = program.toText
  apply toText_mapNodes
  intro textOf node
  change kindText textOf node.kind.unplaced = _
  cases node.kind <;> rfl

theorem bare_tag (program : Program) (id : NodeId) (ty : Ty) :
    (program.tag id ty).bare = program.bare := by
  apply mapNodes_modifyKind
  rintro ⟨kind, position, parent?⟩
  cases kind <;> rfl

theorem untyped_tag (program : Program) (id : NodeId) (ty : Ty) :
    (program.tag id ty).untyped = program.untyped := by
  apply mapNodes_modifyKind
  intro node
  simp only [Node.untyped, NodeKind.untyped_withType]

end Program
end ScriptLang
