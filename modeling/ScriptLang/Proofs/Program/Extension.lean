import ScriptLang.Program.Basic

/-!
# Extended programs

A program grows at its end only.  This module describes a grown program as the
former one followed by a list of nodes, and says what adding a node and attaching
a node do to that list.
-/

namespace ScriptLang
namespace Program

open Source (Position)

/-- A program with more nodes at its end. -/
def extend (program : Program) (nodes : List Node) : Program :=
  { program with nodes := program.nodes ++ nodes.toArray }

@[simp] theorem extend_nil (program : Program) : program.extend [] = program := by
  simp [extend]

@[simp] theorem extend_extend (program : Program) (first second : List Node) :
    (program.extend first).extend second = program.extend (first ++ second) := by
  simp [extend]

@[simp] theorem size_extend (program : Program) (nodes : List Node) :
    (program.extend nodes).size = program.size + nodes.length := by
  simp [extend, size]

/-- The nodes of the former program keep their numbers. -/
theorem node?_extend_of_lt
    {program : Program} {id : NodeId}
    (nodes : List Node)
    (inRange : id < program.size) :
    (program.extend nodes).node? id = program.node? id := by
  simp [node?, extend, Array.getElem?_append_left inRange]

/-- The new nodes are numbered from the former size on. -/
@[simp] theorem node?_extend_add (program : Program) (nodes : List Node) (index : Nat) :
    (program.extend nodes).node? (program.size + index) = nodes[index]? := by
  have behind : ¬ program.nodes.size + index < program.nodes.size := by omega
  simp [node?, extend, size, Array.getElem?_append, behind]

/-- Changing one of the new nodes changes the list of new nodes. -/
theorem modifyNode_extend
    (program : Program)
    (before after : List Node)
    (node : Node)
    (change : Node -> Node) :
    (program.extend (before ++ node :: after)).modifyNode
        (program.size + before.length) change =
      program.extend (before ++ change node :: after) := by
  simp only [modifyNode, extend, size]
  congr 1
  apply Array.toList_inj.mp
  apply List.ext_getElem?
  intro index
  rw [Array.toList_modify, List.getElem?_modify]
  simp only [Array.toList_append, List.getElem?_append, Array.length_toList]
  grind

/-- A new node can be attached to any node. -/
theorem attach_extend
    (program : Program)
    (before after : List Node)
    (node : Node)
    (parent : NodeId) :
    (program.extend (before ++ node :: after)).attach
        (program.size + before.length) parent =
      .ok (program.extend (before ++ { node with parent? := some parent } :: after)) := by
  rw [attach_of_lt parent (by simp), modifyNode_extend]

/-- A node that names no children is put at the end. -/
theorem add_of_children_eq_nil
    (program : Program)
    (kind : NodeKind)
    (position : Position)
    (childless : kind.children = []) :
    program.add kind position = .ok (program.extend [⟨kind, position, none⟩]) := by
  simp [add, childless, attachAll, extend, pure, Except.pure]

/-- Adding a node attaches the children that it names after putting it at the end. -/
theorem add_eq_attachAll (program : Program) (kind : NodeKind) (position : Position) :
    program.add kind position =
      (program.extend [⟨kind, position, none⟩]).attachAll kind.children program.size := by
  simp [add, extend]

theorem attachAll_cons
    (program : Program) (child : NodeId) (others : List NodeId) (parent : NodeId) :
    program.attachAll (child :: others) parent =
      (program.attach child parent).bind fun attached =>
        attached.attachAll others parent := rfl

@[simp] theorem attachAll_nil (program : Program) (parent : NodeId) :
    program.attachAll [] parent = .ok program := rfl

end Program
end ScriptLang
