import ScriptLang.Proofs.Program.Growth

/-!
# Filled code blocks

A statement that has been added behind a program is put at the end of one of its code
blocks.  This changes the block and the statement and nothing else, and a block is
filled with several statements one after the other.
-/

namespace ScriptLang

open Source (Position)

namespace Program

/-- A code block has got further statements at its end, and all other former nodes are as they
were. -/
structure Filled
    (block : NodeId)
    (statements : List NodeId)
    (before after : Program) : Prop where
  root : after.root = before.root
  code : after.code = before.code
  size_le : before.size ≤ after.size
  content : ∀ old symbols position parent?,
    before.node? block = some ⟨.codeBlock old symbols, position, parent?⟩ ->
      after.node? block = some ⟨.codeBlock (old ++ statements) symbols, position, parent?⟩
  others : ∀ id : Nat, id < before.size -> id ≠ block -> after.node? id = before.node? id
  attached : ∀ statement ∈ statements,
    before.Added after statement ∧ after.parent? statement = some block

namespace Filled

variable {block : NodeId} {before middle after : Program} {statements others : List NodeId}

/-- Nodes that grow behind a block do not fill it. -/
theorem of_grownFrom
    (grown : before.GrownFrom after)
    (isFormer : block < before.size) :
    Filled block [] before after where
  root := grown.root
  code := grown.code
  size_le := grown.size_le
  content old symbols position parent? found := by
    rw [List.append_nil, grown.former block isFormer, found]
  others id isOther _ := grown.former id isOther
  attached := List.forall_mem_nil _

/-- A block is filled step by step. -/
theorem append
    (first : Filled block statements before middle)
    (second : Filled block others middle after)
    (isFormer : block < before.size) :
    Filled block (statements ++ others) before after where
  root := second.root.trans first.root
  code := second.code.trans first.code
  size_le := Nat.le_trans first.size_le second.size_le
  content old symbols position parent? found := by
    rw [← List.append_assoc]
    exact second.content _ _ _ _ (first.content old symbols position parent? found)
  others id isOther notBlock := by
    rw [second.others id (Nat.lt_of_lt_of_le isOther first.size_le) notBlock,
      first.others id isOther notBlock]
  attached := by
    rw [List.forall_mem_append]
    constructor
    · intro statement member
      obtain ⟨added, isParent⟩ := first.attached statement member
      refine ⟨added.mono second.size_le, ?_⟩
      have notBlock : statement ≠ block := by
        rintro rfl
        exact Nat.not_lt_of_le added.1 isFormer
      rw [parent?, second.others statement added.2 notBlock]
      exact isParent
    · intro statement member
      obtain ⟨added, isParent⟩ := second.attached statement member
      exact ⟨⟨Nat.le_trans first.size_le added.1, added.2⟩, isParent⟩

end Filled

section

variable {program : Program} {block statement : NodeId} {old : List NodeId}
  {symbols : SymbolTable} {position : Position} {parent? : Option NodeId}

/-- What a program becomes when a statement is put at the end of a code block. -/
def pushed (program : Program) (block statement : NodeId) : Program :=
  (program.modifyKind block (.withStatement statement)).modifyNode statement
    fun node => { node with parent? := some block }

@[simp] theorem size_pushed : (program.pushed block statement).size = program.size := by
  rw [pushed, modifyKind, size_modifyNode, size_modifyNode]

theorem pushStatement_eq
    (isBlock : program.node? block = some ⟨.codeBlock old symbols, position, parent?⟩)
    (inRange : statement < program.size) :
    program.pushStatement block statement = .ok (some (program.pushed block statement)) := by
  have stillInRange :
      statement < (program.modifyKind block (.withStatement statement)).size := by
    rw [modifyKind, size_modifyNode]
    exact inRange
  rw [pushStatement, Program.node, isBlock, ok_bind]
  simp only [attach_of_lt block stillInRange]
  rfl

/-- The block and the statement are the only nodes that are changed. -/
theorem node?_pushed
    {id : NodeId}
    (notBlock : id ≠ block)
    (notStatement : id ≠ statement) :
    (program.pushed block statement).node? id = program.node? id := by
  rw [pushed, node?_modifyNode, if_neg notStatement.symm, modifyKind, node?_modifyNode,
    if_neg notBlock.symm]

theorem node?_pushed_block
    (isBlock : program.node? block = some ⟨.codeBlock old symbols, position, parent?⟩)
    (isOther : statement ≠ block) :
    (program.pushed block statement).node? block =
      some ⟨.codeBlock (old ++ [statement]) symbols, position, parent?⟩ := by
  rw [pushed, node?_modifyNode, if_neg isOther, modifyKind, node?_modifyNode, if_pos rfl, isBlock]
  rfl

theorem node?_pushed_statement
    (isOther : statement ≠ block) :
    (program.pushed block statement).node? statement =
      (program.node? statement).map fun node => { node with parent? := some block } := by
  rw [pushed, node?_modifyNode, if_pos rfl, modifyKind, node?_modifyNode, if_neg isOther.symm]

variable {base : Program}

/-- A block is not one of the nodes that have been added behind it. -/
theorem ne_block_of_added
    (isBlock : base.node? block = some ⟨.codeBlock old symbols, position, parent?⟩)
    (added : base.Added program statement) :
    statement ≠ block := by
  rintro rfl
  have isFormer : statement < base.size := (Array.getElem?_eq_some_iff.mp isBlock).1
  exact Nat.not_lt_of_le added.1 isFormer

variable
  (grown : base.GrownFrom program)
  (isBlock : base.node? block = some ⟨.codeBlock old symbols, position, parent?⟩)
  (added : base.Added program statement)

include grown isBlock added

/-- An added statement fills the block. -/
theorem filled_pushed : Filled block [statement] base (program.pushed block statement) where
  root := grown.root
  code := grown.code
  size_le := by
    rw [size_pushed]
    exact grown.size_le
  content before table place above? found := by
    have isFormer : block < base.size := (Array.getElem?_eq_some_iff.mp isBlock).1
    rw [← grown.former block isFormer] at found
    exact node?_pushed_block found (ne_block_of_added isBlock added)
  others id isOther notBlock := by
    have notStatement : id ≠ statement := by
      rintro rfl
      exact Nat.not_lt_of_le added.1 isOther
    rw [node?_pushed notBlock notStatement, grown.former id isOther]
  attached := by
    refine List.forall_mem_singleton.mpr ⟨⟨added.1, ?_⟩, ?_⟩
    · rw [size_pushed]
      exact added.2
    · rw [Program.parent?, node?_pushed_statement (ne_block_of_added isBlock added), node?,
        Array.getElem?_eq_getElem added.2]
      rfl

end

/-! ## Closed programs -/

section

variable {program : Program} {block statement : NodeId}

/-- A program stays closed if one of its nodes is changed and mentions nodes of it again. -/
theorem Closed.modifyNode
    {change : Node -> Node}
    (closed : program.Closed)
    (within : ∀ node : Node, node.Within program.size -> (change node).Within program.size)
    (id : NodeId) :
    (program.modifyNode id change).Closed := by
  have size : (program.modifyNode id change).size = program.size := size_modifyNode ..
  apply closed_of_node?
  · rw [size]
    exact closed.root
  · rw [size]
    exact closed.code
  · intro other node found
    rw [size]
    rw [node?_modifyNode] at found
    split at found
    · obtain ⟨former, foundFormer, rfl⟩ := Option.map_eq_some_iff.mp found
      exact within former (closed.within foundFormer)
    · exact closed.within found

/-- A program stays closed when a statement is put into a block of it. -/
theorem Closed.pushStatement
    {after : Program}
    (closed : program.Closed)
    (done : program.pushStatement block statement = .ok (some after)) :
    after.Closed := by
  obtain ⟨node, found, rest⟩ := (bind_eq_ok_iff _ _ _).mp done
  have blockInRange : block < program.size := by
    rw [Program.node] at found
    cases isNode : program.node? block with
    | none =>
        rw [isNode] at found
        cases found
    | some other => exact (Array.getElem?_eq_some_iff.mp isNode).1
  cases kind : node.kind with
  | codeBlock old symbols =>
      simp only [kind] at rest
      obtain ⟨attached, isAttached, rest⟩ := (bind_eq_ok_iff _ _ _).mp rest
      obtain rfl := Option.some.inj (Except.ok.inj rest)
      rw [attach] at isAttached
      split at isAttached
      · next inRange =>
          have size : (program.modifyKind block (.withStatement statement)).size =
              program.size := size_modifyNode ..
          rw [size] at inRange
          obtain rfl := Except.ok.inj isAttached
          refine Closed.modifyNode (closed.modifyNode ?_ block) ?_ statement
          · intro node within
            refine ⟨fun child member => ?_, within.parent⟩
            cases isKind : node.kind with
            | codeBlock statements symbols =>
                simp only [NodeKind.withStatement, isKind, NodeKind.children] at member
                rcases List.mem_append.mp member with isOld | isNew
                · exact within.children child (by rwa [isKind])
                · obtain rfl := List.mem_singleton.mp isNew
                  exact inRange
            | _ =>
                rw [isKind] at member
                exact within.children child (by rwa [isKind])
          · intro node within
            refine ⟨within.children, ?_⟩
            rintro _ ⟨⟩
            exact Nat.lt_of_lt_of_eq blockInRange size.symm
      · cases isAttached
  | _ =>
      simp only [kind] at rest
      cases rest

end
end Program
end ScriptLang
