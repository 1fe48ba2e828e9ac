import ScriptLang.Proofs.Program.Closed
import ScriptLang.Proofs.Program.Descent
import ScriptLang.Proofs.Running

/-!
# Grown programs

A program grows from another one when nodes are added that name and know only each
other.  The former nodes stay as they are, so that no way leads from them to the new
ones or back.  A program also stays grown when one more node is put above new ones.
-/

namespace ScriptLang

open Source (Position)

/-- All numbers that a node mentions lie between two bounds. -/
structure Node.Between (least bound : Nat) (node : Node) : Prop where
  children : ∀ child : Nat, child ∈ node.kind.children -> least ≤ child ∧ child < bound
  parent : ∀ parent : Nat, parent ∈ node.parent? -> least ≤ parent ∧ parent < bound

namespace Node.Between

variable {least bound : Nat} {node : Node}

theorem mono
    {larger : Nat}
    (between : node.Between least bound)
    (le : bound ≤ larger) :
    node.Between least larger where
  children child member :=
    ⟨(between.children child member).1, Nat.lt_of_lt_of_le (between.children child member).2 le⟩
  parent parent member :=
    ⟨(between.parent parent member).1, Nat.lt_of_lt_of_le (between.parent parent member).2 le⟩

theorem within (between : node.Between least bound) : node.Within bound where
  children child member := (between.children child member).2
  parent parent member := (between.parent parent member).2

end Node.Between

namespace Program

/-- A way from parent to parent leads from a node up to another one. -/
def ClimbsTo (program : Program) (id upper : NodeId) : Prop :=
  Relation.ReflTransGen (fun child parent => program.parent? child = some parent) id upper

/-- A node of a program that is not one of a former program. -/
def Added (base program : Program) (id : Nat) : Prop := base.size ≤ id ∧ id < program.size

theorem Added.mono
    {base program after : Program} {id : Nat}
    (added : base.Added program id)
    (le : program.size ≤ after.size) :
    base.Added after id :=
  ⟨added.1, Nat.lt_of_lt_of_le added.2 le⟩

/-- The former nodes of a program are as they were, and the added ones mention only each other. -/
structure GrownFrom (base program : Program) : Prop where
  root : program.root = base.root
  code : program.code = base.code
  size_le : base.size ≤ program.size
  former : ∀ id : Nat, id < base.size -> program.node? id = base.node? id
  added : ∀ (id : Nat) (node : Node), base.size ≤ id -> program.node? id = some node ->
    node.Between base.size program.size

namespace GrownFrom

variable {base program : Program}

theorem refl (program : Program) : program.GrownFrom program where
  root := rfl
  code := rfl
  size_le := Nat.le_refl _
  former _ _ := rfl
  added id node behind found := by
    rw [node?, Array.getElem?_eq_none behind] at found
    cases found

section

variable (grown : base.GrownFrom program)

include grown

/-- Added nodes get added parents. -/
theorem modifyNode
    {child parent : Nat}
    (childAdded : base.Added program child)
    (parentAdded : base.Added program parent) :
    base.GrownFrom
      (program.modifyNode child fun node => { node with parent? := some parent }) where
  root := grown.root
  code := grown.code
  size_le := by
    rw [size_modifyNode]
    exact grown.size_le
  former id isFormer := by
    rw [node?_modifyNode, if_neg, grown.former id isFormer]
    rintro rfl
    exact absurd childAdded.1 (Nat.not_le_of_lt isFormer)
  added id node behind found := by
    rw [size_modifyNode]
    rw [node?_modifyNode] at found
    split at found
    · obtain ⟨before, foundBefore, rfl⟩ := Option.map_eq_some_iff.mp found
      refine ⟨(grown.added id before behind foundBefore).children, ?_⟩
      intro other isOther
      cases isOther
      exact parentAdded
    · exact grown.added id node behind found

/-- The children of a new node are attached to it. -/
theorem attachAll
    {children : List NodeId} {parent : Nat} {attached : Program}
    (childrenAdded : ∀ child ∈ children, base.Added program child)
    (parentAdded : base.Added program parent)
    (done : program.attachAll children parent = .ok attached) :
    base.GrownFrom attached := by
  induction children generalizing program with
  | nil =>
      cases done
      exact grown
  | cons child rest inductionHypothesis =>
      obtain ⟨childAdded, restAdded⟩ := List.forall_mem_cons.mp childrenAdded
      rw [Program.attachAll, List.foldlM_cons, attach_of_lt parent childAdded.2, ok_bind] at done
      let next := program.modifyNode child fun node => { node with parent? := some parent }
      have size : next.size = program.size := size_modifyNode ..
      exact inductionHypothesis (grown.modifyNode childAdded parentAdded)
        (fun other member => (restAdded other member).mono (Nat.le_of_eq size.symm))
        (parentAdded.mono (Nat.le_of_eq size.symm)) done

/-- A node that names added nodes can be put behind them. -/
theorem push
    {kind : NodeKind}
    (childrenAdded : ∀ child ∈ kind.children, base.size ≤ child ∧ child ≤ program.size)
    (position : Position) :
    base.GrownFrom (program.extend [⟨kind, position, none⟩]) where
  root := grown.root
  code := grown.code
  size_le := by
    rw [size_extend]
    exact Nat.le_add_right_of_le grown.size_le
  former id isFormer := by
    rw [node?_extend_of_lt _ (Nat.lt_of_lt_of_le isFormer grown.size_le), grown.former id isFormer]
  added id node behind found := by
    rw [size_extend]
    rcases Nat.lt_or_ge id program.size with inFront | isNew
    · rw [node?_extend_of_lt _ inFront] at found
      exact (grown.added id node behind found).mono (Nat.le_add_right _ _)
    · obtain ⟨index, rfl⟩ := Nat.exists_eq_add_of_le isNew
      rw [node?_extend_add] at found
      obtain rfl := List.mem_singleton.mp (List.mem_of_getElem? found)
      refine ⟨fun child member => ?_, fun parent member => ?_⟩
      · exact ⟨(childrenAdded child member).1, Nat.lt_succ_of_le (childrenAdded child member).2⟩
      · cases member

/-- A program grows by a node above added ones, which may be its own child as well. -/
theorem add
    {kind : NodeKind} {position : Position} {after : Program}
    (childrenAdded : ∀ child ∈ kind.children, base.size ≤ child ∧ child ≤ program.size)
    (done : program.add kind position = .ok after) :
    base.GrownFrom after := by
  have isExtension : ({ program with nodes := program.nodes.push ⟨kind, position, none⟩ } :
      Program) = program.extend [⟨kind, position, none⟩] := by
    simp [extend]
  have size : (program.extend [⟨kind, position, none⟩]).size = program.size + 1 :=
    size_extend ..
  rw [Program.add, isExtension] at done
  refine (grown.push childrenAdded position).attachAll (fun child member => ?_) ?_ done
  · rw [Added, size]
    exact ⟨(childrenAdded child member).1, Nat.lt_succ_of_le (childrenAdded child member).2⟩
  · rw [Added, size]
    exact ⟨grown.size_le, Nat.lt_succ_self _⟩

/-- A node above added ones can be added. -/
theorem addNode
    {kind : NodeKind}
    (childrenAdded : ∀ child ∈ kind.children, base.Added program child)
    (position : Position) :
    ∃ after, Program.addNode kind position program = .ok program.size after ∧
      base.GrownFrom after ∧ after.size = program.size + 1 := by
  have inRange : ∀ child ∈ kind.children, base.size ≤ child ∧ child ≤ program.size :=
    fun child member => (childrenAdded child member).imp_right Nat.le_of_lt
  obtain ⟨after, done⟩ := (add_isOk_iff program kind position).mpr fun child member =>
    (inRange child member).2
  refine ⟨after, ?_, grown.add inRange done, size_of_add done⟩
  rw [Program.addNode, done]

/-! ## Ways between former and added nodes -/

/-- No way up leads from an added node to a former one. -/
theorem le_of_climbsTo
    {id upper : Nat}
    (isAdded : base.size ≤ id)
    (climbs : program.ClimbsTo id upper) :
    base.size ≤ upper := by
  induction climbs with
  | refl => exact isAdded
  | tail _ isParent inductionHypothesis =>
      obtain ⟨node, found, isParent⟩ := Option.bind_eq_some_iff.mp isParent
      exact ((grown.added _ node inductionHypothesis found).parent _ isParent).1

/-- No way down leads from a former node to an added one. -/
theorem lt_of_under
    {top id : Nat}
    (closed : base.Closed)
    (isFormer : top < base.size)
    (under : program.Under top id) :
    id < base.size := by
  induction under with
  | refl => exact isFormer
  | tail _ isChild inductionHypothesis =>
      obtain ⟨node, found, isChild⟩ := isChild
      rw [grown.former _ inductionHypothesis] at found
      exact (closed.within found).children _ isChild

/-- What has grown from a closed program is closed. -/
theorem closed (closed : base.Closed) : program.Closed := by
  apply closed_of_node?
  · rw [grown.root]
    exact Nat.lt_of_lt_of_le closed.root grown.size_le
  · rw [grown.code]
    exact Nat.lt_of_lt_of_le closed.code grown.size_le
  · intro id node found
    rcases Nat.lt_or_ge id base.size with isFormer | isAdded
    · have within := closed.within ((grown.former id isFormer).symm.trans found)
      exact ⟨fun child isChild => Nat.lt_of_lt_of_le (within.children child isChild) grown.size_le,
        fun parent isParent => Nat.lt_of_lt_of_le (within.parent parent isParent) grown.size_le⟩
    · exact (grown.added id node isAdded found).within

end
end GrownFrom

/-- Whatever node is added to a closed program, it stays closed. -/
theorem Closed.add
    {program after : Program} {kind : NodeKind} {position : Position}
    (closed : program.Closed)
    (done : program.add kind position = .ok after) :
    after.Closed := by
  -- A closed program has grown from the one without nodes.
  let nothing : Program := { program with nodes := #[] }
  have grown : nothing.GrownFrom program := by
    refine ⟨rfl, rfl, Nat.zero_le _, fun id isFormer => absurd isFormer (Nat.not_lt_zero id), ?_⟩
    intro id node _ found
    have within := closed.within found
    exact ⟨fun child isChild => ⟨Nat.zero_le _, within.children child isChild⟩,
      fun parent isParent => ⟨Nat.zero_le _, within.parent parent isParent⟩⟩
  have inRange := (add_isOk_iff program kind position).mp ⟨after, done⟩
  have grownOn := grown.add (fun child member => ⟨Nat.zero_le _, inRange child member⟩) done
  have size := size_of_add done
  apply closed_of_node?
  · rw [grownOn.root, size]
    exact Nat.lt_succ_of_lt closed.root
  · rw [grownOn.code, size]
    exact Nat.lt_succ_of_lt closed.code
  · intro id node found
    exact (grownOn.added id node (Nat.zero_le _) found).within

end Program
end ScriptLang
