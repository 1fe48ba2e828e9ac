import ScriptLang.Proofs.Program.Ascent

/-!
# Programs that look alike

Walks up the chain of parents see the symbols, the parent and the place of a node, and
nothing else.  In programs in which these are the same, the same scopes are around the
nodes, and names mean the same there.
-/

namespace ScriptLang
namespace Program

open Source (Position)

/-- Two programs have nodes with the same symbols, parents and places. -/
structure LooksLike (program other : Program) : Prop where
  size_eq : program.size = other.size
  outlook : ∀ id, (program.node? id).map outlook = (other.node? id).map outlook
  position : ∀ id, (program.node? id).map Node.position = (other.node? id).map Node.position

namespace LooksLike

variable {program other : Program} (alike : program.LooksLike other)

include alike

theorem nearestScope_eq (start : NodeId) :
    program.nearestScope start = other.nearestScope start := by
  rw [nearestScope_eq_firstAbove, nearestScope_eq_firstAbove, firstAbove, firstAbove,
    alike.size_eq]
  exact climb_congr alike.outlook _ _ start

/-- A node is missing in both programs or in none, and stands at the same place. -/
theorem bind_node_eq
    {α : Type} (read : Position -> Except Fault α) (id : NodeId) :
    (program.node id >>= fun node => read node.position) =
      other.node id >>= fun node => read node.position := by
  have atNode : ∀ program : Program, (program.node id >>= fun node => read node.position) =
      match (program.node? id).map Node.position with
      | some position => read position
      | none => .error (.missingNode id) := by
    intro program
    rw [Program.node]
    cases program.node? id <;> rfl
  rw [atNode, atNode, alike.position id]

theorem enclosingScope_eq (start : NodeId) :
    program.enclosingScope start = other.enclosingScope start := by
  unfold enclosingScope
  rw [alike.nearestScope_eq]
  congr 1
  funext scope?
  cases scope? with
  | some scope => rfl
  | none =>
      exact alike.bind_node_eq (fun position => throw (.ofInternal (.noScope start) position))
        start

/-- Names mean the same in both programs. -/
theorem lookup?_eq (start : NodeId) (name : String) :
    program.lookup? start name = other.lookup? start name := by
  unfold lookup?
  rw [alike.enclosingScope_eq, alike.size_eq]
  congr 1
  funext scope
  exact lookupFrom_congr alike.outlook alike.nearestScope_eq name _ scope

theorem resolve_eq (start : NodeId) (name : String) (position : Position) :
    program.resolve start name position = other.resolve start name position := by
  unfold resolve
  rw [alike.lookup?_eq]

end LooksLike
end Program
end ScriptLang
