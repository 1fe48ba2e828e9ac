import ScriptLang.Proofs.Program.Links
import ScriptLang.Proofs.Program.LooksLike

/-!
# Retagged programs

Programs that differ in the types of expressions only, and only at some of their
nodes.  Nothing else depends on these types: the same scopes are around the nodes,
and the same symbols are found there.
-/

namespace ScriptLang
namespace Program

/-- A program differs from a former one in the types of expressions only, at nodes that have been
reached. -/
structure Retagged (reached : NodeId -> Prop) (before after : Program) : Prop where
  untyped_eq : after.untyped = before.untyped
  unreached : ∀ id, ¬ reached id -> after.node? id = before.node? id

namespace Retagged

variable {reached : NodeId -> Prop} {before after : Program}

theorem refl (reached : NodeId -> Prop) (program : Program) : Retagged reached program program :=
  ⟨rfl, fun _ _ => rfl⟩

/-- The type of a reached node is recorded. -/
theorem tag
    (retagged : Retagged reached before after)
    {id : NodeId}
    (isReached : reached id)
    (ty : Ty) :
    Retagged reached before (after.tag id ty) where
  untyped_eq := (untyped_tag after id ty).trans retagged.untyped_eq
  unreached := by
    intro other notReached
    have differs : id ≠ other := by
      rintro rfl
      exact notReached isReached
    rw [Program.tag, modifyKind, node?_modifyNode, if_neg differs]
    exact retagged.unreached other notReached

theorem untyped_withSymbols (program : Program) (scope : NodeId) (symbols : SymbolTable) :
    (program.modifyKind scope (.withSymbols symbols)).untyped =
      program.untyped.modifyKind scope (.withSymbols symbols) := by
  refine ext_node? (fun id => ?_) rfl rfl
  rw [untyped, node?_mapNodes, modifyKind, modifyKind, node?_modifyNode, node?_modifyNode,
    untyped, node?_mapNodes]
  split
  · rw [Option.map_map, Option.map_map]
    congr 1
    funext node
    simp only [Function.comp_apply, Node.untyped, NodeKind.untyped_withSymbols]
  · rfl

/-- Both programs may be given the same symbols. -/
theorem withSymbols
    (retagged : Retagged reached before after)
    (scope : NodeId) (symbols : SymbolTable) :
    Retagged reached (before.modifyKind scope (.withSymbols symbols))
      (after.modifyKind scope (.withSymbols symbols)) where
  untyped_eq := by
    rw [untyped_withSymbols, untyped_withSymbols, retagged.untyped_eq]
  unreached := by
    intro id notReached
    rw [modifyKind, modifyKind, node?_modifyNode, node?_modifyNode,
      retagged.unreached id notReached]

variable (retagged : Retagged reached before after)

include retagged

theorem bare_eq : after.bare = before.bare := by
  apply mapNodes_eq_of_mapNodes_eq retagged.untyped_eq
  rintro ⟨kind, position, parent?⟩
  cases kind <;> rfl

theorem size_eq : after.size = before.size := size_of_mapNodes_eq retagged.untyped_eq

/-- Every node holds the same symbols. -/
theorem symbolsAt?_eq (id : NodeId) : after.symbolsAt? id = before.symbolsAt? id := by
  have sameSymbols := map_node?_of_mapNodes_eq retagged.untyped_eq
    (fun node => node.kind.symbols?) (fun node => NodeKind.symbols?_untyped node.kind) id
  have atNode : ∀ program : Program, program.symbolsAt? id =
      ((program.node? id).map fun node => node.kind.symbols?).join := by
    intro program
    rw [← Option.bind_id_eq_join, Option.bind_map]
    rfl
  rw [atNode, atNode, sameSymbols]

/-- A node that is no expression is the same in both programs. -/
theorem kind?_of_kind?
    {id : NodeId} {kind : NodeKind}
    (isKind : after.kind? id = some kind)
    (noExpression : kind.expression? = none) :
    before.kind? id = some kind := by
  have sameKind := map_node?_of_mapNodes_eq retagged.untyped_eq
    (fun node => node.kind.untyped) (fun ⟨kind, _, _⟩ => by cases kind <;> rfl) id
  obtain ⟨node, found, rfl⟩ := Option.map_eq_some_iff.mp isKind
  rw [found] at sameKind
  obtain ⟨former, formerFound, same⟩ := Option.map_eq_some_iff.mp sameKind.symm
  rw [kind?_of_node? formerFound, NodeKind.eq_of_untyped_eq same noExpression]

/-- Walks see no types. -/
theorem looksLike : after.LooksLike before where
  size_eq := retagged.size_eq
  outlook := map_node?_of_mapNodes_eq retagged.untyped_eq outlook
    fun node => Prod.ext (NodeKind.symbols?_untyped node.kind) rfl
  position := map_node?_of_mapNodes_eq retagged.untyped_eq Node.position fun _ => rfl

end Retagged
end Program
end ScriptLang
