import Mathlib.Data.List.Nodup
import ScriptLang.Proofs.Fault.Reading
import ScriptLang.Proofs.Program.Descent
import ScriptLang.Proofs.Token.Coherent

/-!
# Parsed programs are trees

The nodes of a program that was parsed, from whatever tokens, are exactly one tree
below the root: children and parents agree, every node but the root is named once,
and walks along either link end.  The parts of the nodes that are parsed from the
tokens of a source are moreover what their forms call for.
-/

namespace ScriptLang

open Source (Position)

namespace Program

/-- All nodes of a program are one tree, with the outermost code block and the root above all
statements. -/
structure IsTree (program : Program) : Prop where
  code : program.code = 0 ∧ ∃ statements symbols position,
    program.node? 0 = some ⟨.codeBlock statements symbols, position, some 1⟩
  root : program.root = 1 ∧ ∃ position, program.node? 1 = some ⟨.program 0, position, none⟩
  /-- Every child is a node of the program, and the root is no child. -/
  closed : ∀ parent child : Nat, program.Child parent child ->
    child < program.size ∧ child ≠ program.root
  /-- Every node but the root is named by its parent, once, and by no other node. -/
  named : ∀ id : Nat, id < program.size -> id ≠ program.root ->
    ∃ parent node, program.parent? id = some parent ∧ program.node? parent = some node ∧
      node.kind.children.count id = 1 ∧ ∀ other, program.Child other id -> other = parent
  reachable : ∀ id : Nat, id < program.size -> program.Under program.root id
  /-- Within a statement parents have greater numbers than their children. -/
  rising : ∀ statement ∈ program.statements, ∀ id : Nat, program.Under statement id ->
    id ≠ statement -> ∃ parent : Nat, program.parent? id = some parent ∧ id < parent
  /-- A walk from parents to children ends. -/
  childWalk : WellFounded fun child parent => program.Child parent child
  /-- A walk from children to parents ends. -/
  parentWalk : WellFounded fun parent child => program.parent? child = some parent
  scope : ∀ id : Nat, id < program.size -> id ≠ program.root ->
    program.nearestScope id = .ok (some program.code)

section

variable (position : Position) (symbols : SymbolTable) (statements : List Tagged)

theorem node?_assemble_zero :
    (assemble position symbols statements).node? 0 =
      some ⟨.codeBlock (Tagged.tops 2 statements) symbols, position, some 1⟩ :=
  node?_frame_zero ..

theorem node?_assemble_one :
    (assemble position symbols statements).node? 1 =
      some ⟨.program 0, position, none⟩ := by
  rw [assemble, node?_extend_of_lt _ (Nat.lt_succ_self 1)]
  rfl

/-- The nodes of the statements stand behind the frame. -/
theorem holds_assemble :
    (assemble position symbols statements).Holds 2 (Tagged.layouts 2 statements) :=
  holds_extend (frame position (Tagged.tops 2 statements) symbols) _

/-- The statements of a program are subtrees that take up all nodes behind the frame. -/
theorem subtrees_assemble :
    (assemble position symbols statements).Subtrees 2 (Tagged.tops 2 statements)
        (assemble position symbols statements).size ∧
      ∀ id ∈ Tagged.tops 2 statements,
        (assemble position symbols statements).parent? id = some 0 := by
  rw [size_assemble]
  exact subtrees_of_layouts (holds_assemble position symbols statements)

end

section

variable {position : Position} {symbols : SymbolTable} {statements : List Tagged}

/-- A child knows its parent, and is the outermost code block, a statement of it, or stands
before its parent. -/
theorem child_assemble
    {parent child : Nat}
    (isChild : (assemble position symbols statements).Child parent child) :
    (assemble position symbols statements).parent? child = some parent ∧
      (parent = 1 ∧ child = 0 ∨
        parent = 0 ∧ 2 ≤ child ∧ child < (assemble position symbols statements).size ∨
        2 ≤ child ∧ child < parent ∧
          parent < (assemble position symbols statements).size) := by
  obtain ⟨subtrees, known⟩ := subtrees_assemble position symbols statements
  obtain ⟨node, found, isNamed⟩ := isChild
  have inRange := lt_of_node? found
  match parent with
  | 0 =>
      rw [node?_assemble_zero] at found
      cases found
      exact ⟨known child isNamed, .inr (.inl ⟨rfl, subtrees.lt_of_mem isNamed⟩)⟩
  | 1 =>
      rw [node?_assemble_one] at found
      cases found
      obtain rfl := List.mem_singleton.mp isNamed
      exact ⟨parent?_of_node? (node?_assemble_zero ..), .inl ⟨rfl, rfl⟩⟩
  | parent + 2 =>
      obtain ⟨first, top, _, subtree, least, leastHere, greatest⟩ :=
        subtrees.exists_subtree (Nat.le_add_left 2 parent) inRange
      obtain ⟨other, otherFound, _, children⟩ := subtree.children _ leastHere greatest
      rw [found] at otherFound
      cases otherFound
      obtain ⟨leastChild, before, knows⟩ := children child isNamed
      exact ⟨knows, .inr (.inr ⟨Nat.le_trans least leastChild, before, inRange⟩)⟩

/-- No node names a child twice. -/
theorem nodup_children_assemble
    {id : Nat} {node : Node}
    (found : (assemble position symbols statements).node? id = some node) :
    node.kind.children.Nodup := by
  obtain ⟨subtrees, _⟩ := subtrees_assemble position symbols statements
  have inRange := lt_of_node? found
  match id with
  | 0 =>
      rw [node?_assemble_zero] at found
      cases found
      exact subtrees.nodup
  | 1 =>
      rw [node?_assemble_one] at found
      cases found
      exact List.nodup_singleton 0
  | id + 2 =>
      obtain ⟨first, top, _, subtree, _, leastHere, greatest⟩ :=
        subtrees.exists_subtree (Nat.le_add_left 2 id) inRange
      obtain ⟨other, otherFound, once, _⟩ := subtree.children _ leastHere greatest
      rw [found] at otherFound
      cases otherFound
      exact once

/-- Every node but the root is a child. -/
theorem exists_child_assemble
    {id : Nat}
    (inRange : id < (assemble position symbols statements).size)
    (notRoot : id ≠ 1) :
    ∃ parent, (assemble position symbols statements).Child parent id := by
  obtain ⟨subtrees, _⟩ := subtrees_assemble position symbols statements
  match id with
  | 0 => exact ⟨1, _, node?_assemble_one .., List.mem_singleton_self 0⟩
  | 1 => exact absurd rfl notRoot
  | id + 2 =>
      obtain ⟨first, top, isTop, subtree, _, leastHere, greatest⟩ :=
        subtrees.exists_subtree (Nat.le_add_left 2 id) inRange
      rcases Nat.eq_or_lt_of_le greatest with rfl | below
      · exact ⟨0, _, node?_assemble_zero .., isTop⟩
      · obtain ⟨parent, _, _, isChild⟩ := subtree.parent _ leastHere below
        exact ⟨parent, isChild⟩

/-- Every node lies below the root. -/
theorem under_root_assemble
    {id : Nat}
    (inRange : id < (assemble position symbols statements).size) :
    (assemble position symbols statements).Under 1 id := by
  obtain ⟨subtrees, _⟩ := subtrees_assemble position symbols statements
  have block : (assemble position symbols statements).Child 1 0 :=
    ⟨_, node?_assemble_one .., List.mem_singleton_self 0⟩
  match id with
  | 0 => exact .single block
  | 1 => exact .refl
  | id + 2 =>
      obtain ⟨first, top, isTop, subtree, _, leastHere, greatest⟩ :=
        subtrees.exists_subtree (Nat.le_add_left 2 id) inRange
      have isStatement : (assemble position symbols statements).Child 0 top :=
        ⟨_, node?_assemble_zero .., isTop⟩
      exact .head block (.head isStatement (subtree.under leastHere greatest))

theorem ascends_assemble
    {id : Nat}
    (least : 2 ≤ id)
    (inRange : id < (assemble position symbols statements).size) :
    (assemble position symbols statements).Ascends symbols id := by
  rw [size_assemble] at inRange
  obtain ⟨_, tagged, first, _, _, holds, leastHere, greatest⟩ :=
    exists_statement_of_lt (holds_assemble position symbols statements) least inRange
  exact ascends_of_statement holds id leastHere greatest

/-- The innermost scope of every node but the root is the outermost code block. -/
theorem nearestScope_assemble
    {id : Nat}
    (inRange : id < (assemble position symbols statements).size)
    (notRoot : id ≠ 1) :
    (assemble position symbols statements).nearestScope id = .ok (some 0) := by
  match id with
  | 0 =>
      rw [nearestScope, firstAbove, climb, Program.node, node?_assemble_zero]
      rfl
  | 1 => exact absurd rfl notRoot
  | id + 2 =>
      exact nearestScope_of_ascends (ascends_assemble (Nat.le_add_left 2 id) inRange)
        (Nat.zero_lt_succ _)

/-- The program of a list of statements is a tree. -/
theorem isTree_assemble : (assemble position symbols statements).IsTree where
  code := ⟨rfl, _, _, _, node?_assemble_zero ..⟩
  root := ⟨rfl, _, node?_assemble_one ..⟩
  closed := by
    intro parent child isChild
    have two : 2 ≤ (assemble position symbols statements).size := by
      rw [size_assemble]
      omega
    change child < _ ∧ child ≠ 1
    obtain ⟨_, places⟩ := child_assemble isChild
    omega
  named := by
    intro id inRange notRoot
    obtain ⟨parent, isChild⟩ := exists_child_assemble inRange notRoot
    have known := (child_assemble isChild).1
    obtain ⟨node, found, isNamed⟩ := isChild
    refine ⟨parent, node, known, found,
      List.count_eq_one_of_mem (nodup_children_assemble found) isNamed, ?_⟩
    intro other otherNames
    have otherKnown := (child_assemble otherNames).1
    rw [known] at otherKnown
    exact (Option.some.inj otherKnown).symm
  reachable := fun id inRange => under_root_assemble inRange
  rising := by
    intro statement member id under different
    rw [statements_assemble] at member
    obtain ⟨subtrees, _⟩ := subtrees_assemble position symbols statements
    obtain ⟨first, subtree⟩ := subtrees.exists_of_mem member
    obtain ⟨least, greatest⟩ := subtree.le_of_under subtree.ordered (Nat.le_refl _) under
    obtain ⟨parent, later, _, isChild⟩ :=
      subtree.parent id least (Nat.lt_of_le_of_ne greatest different)
    exact ⟨parent, (child_assemble isChild).1, later⟩
  childWalk := by
    -- The root and the outermost code block rank above all other nodes.
    let rank : Nat -> Nat := fun id =>
      if id ≤ 1 then (assemble position symbols statements).size + id else id
    refine Subrelation.wf (fun {child parent} isChild => ?_) (measure rank).wf
    obtain ⟨_, places⟩ := child_assemble isChild
    change rank child < rank parent
    simp only [rank]
    split <;> split <;> omega
  parentWalk := by
    let rank : Nat -> Nat := fun id =>
      if id ≤ 1 then 1 - id else (assemble position symbols statements).size + 2 - id
    refine Subrelation.wf (fun {parent child} isParent => ?_) (measure rank).wf
    have inRange : child < (assemble position symbols statements).size := by
      obtain ⟨node, found, _⟩ := Option.bind_eq_some_iff.mp isParent
      exact lt_of_node? found
    have notRoot : child ≠ 1 := by
      rintro rfl
      rw [parent?_of_node? (node?_assemble_one ..)] at isParent
      cases isParent
    obtain ⟨other, isChild⟩ := exists_child_assemble inRange notRoot
    obtain ⟨known, places⟩ := child_assemble isChild
    rw [known] at isParent
    cases isParent
    change rank parent < rank child
    simp only [rank]
    split <;> split <;> omega
  scope := fun id inRange notRoot => nearestScope_assemble inRange notRoot

end

/-- What a node is. -/
def kind? (program : Program) (id : NodeId) : Option NodeKind :=
  (program.node? id).map Node.kind

def IsIdentifier (program : Program) (id : NodeId) : Prop :=
  ∃ name, program.kind? id = some (.leaf (.identifier name))

def IsTypeKeyword (program : Program) (id : NodeId) : Prop :=
  ∃ ty, program.kind? id = some (.leaf (.typeKeyword ty))

def IsExpression (program : Program) (id : NodeId) : Prop :=
  ∃ expression, program.kind? id = some (.expression expression)

/-- A leaf that has a value. -/
def IsValue (program : Program) (id : NodeId) : Prop :=
  program.IsIdentifier id ∨ ∃ value, program.kind? id = some (.leaf (.literal value))

/-- What an operator can be applied to. -/
def IsOperand (program : Program) (id : NodeId) : Prop :=
  program.IsExpression id ∨ program.IsValue id

/-- The parts of a node are what its form calls for. -/
def Fits (program : Program) : NodeKind -> Prop
  | .program code => ∃ statements symbols, program.kind? code = some (.codeBlock statements symbols)
  | .codeBlock statements _ =>
      ∀ id ∈ statements, ∃ statement, program.kind? id = some (.statement statement)
  | .statement (.declaration identifier typeKeyword expression) =>
      program.IsIdentifier identifier ∧
        (∀ id ∈ typeKeyword, program.IsTypeKeyword id) ∧
        (∀ id ∈ expression, program.IsExpression id) ∧
        (typeKeyword.isSome ∨ expression.isSome)
  | .statement (.assignment identifier expression) =>
      program.IsIdentifier identifier ∧ program.IsExpression expression
  | .statement (.input identifier) => program.IsIdentifier identifier
  | .statement (.output expression) => program.IsExpression expression
  | .expression ⟨.binary _ left right, _⟩ => program.IsOperand left ∧ program.IsOperand right
  | .expression ⟨.unary _ operand, _⟩ => program.IsOperand operand
  | .expression ⟨.single leaf, _⟩ => program.IsValue leaf
  | .leaf _ => True

section

variable {program : Program}

theorem kind?_of_node?
    {id : NodeId} {node : Node}
    (found : program.node? id = some node) :
    program.kind? id = some node.kind := by
  rw [kind?, found]
  rfl

/-- The parts of a node of a program are what its form calls for. -/
def FitsAt (program : Program) (id : NodeId) : Prop :=
  ∀ kind, program.kind? id = some kind -> program.Fits kind

theorem fitsAt_of_node?
    {id : NodeId} {node : Node}
    (found : program.node? id = some node)
    (fits : program.Fits node.kind) :
    program.FitsAt id := by
  intro kind isKind
  rw [kind?_of_node? found] at isKind
  cases isKind
  exact fits

variable {good : Leaf -> Prop} {tag : Tree.Tagging} {start : Nat} {parent? : Option NodeId}

theorem isValue_of_leaf
    {id : NodeId} {content : Leaf} {place : Position}
    (found : program.node? id = some ⟨.leaf content, place, parent?⟩)
    (notType : ∀ ty, content ≠ .typeKeyword ty) :
    program.IsValue id := by
  have isLeaf := kind?_of_node? found
  cases content with
  | identifier name => exact .inl ⟨name, isLeaf⟩
  | literal value => exact .inr ⟨value, isLeaf⟩
  | typeKeyword ty => exact absurd rfl (notType ty)

/-- The top of a tree without type keywords is an operand. -/
theorem isOperand_of_layout
    {tree : Tree}
    (holds : program.Holds start (tree.layout tag start parent?))
    (every : tree.Every fun content => ∀ ty, content ≠ .typeKeyword ty) :
    program.IsOperand (start + tree.descendants) := by
  have found := node?_of_layout holds
  cases tree with
  | leaf content place => exact .inr (isValue_of_leaf found every)
  | unary operator place operand => exact .inl ⟨_, kind?_of_node? found⟩
  | binary operator place left right => exact .inl ⟨_, kind?_of_node? found⟩

/-- The operators of a tree without type keywords have operands. -/
theorem fits_of_layout
    {tree : Tree}
    (holds : program.Holds start (tree.layout tag start parent?))
    (every : tree.Every fun content => ∀ ty, content ≠ .typeKeyword ty) :
    program.Fits (tree.kind tag start) := by
  cases tree with
  | leaf content place => trivial
  | unary operator place operand =>
      rw [Tree.layout_unary, holds_append] at holds
      exact isOperand_of_layout holds.1 every
  | binary operator place left right =>
      rw [Tree.layout_binary, holds_append, holds_append, Tree.length_layout] at holds
      obtain ⟨⟨leftHolds, rightHolds⟩, _⟩ := holds
      exact ⟨isOperand_of_layout leftHolds every.1, isOperand_of_layout rightHolds every.2⟩

/-- The operators of a whole expression without type keywords have operands, and its top is an
expression. -/
theorem fitsAt_of_expressionLayout
    {tree : Tree}
    (holds : program.Holds start (tree.expressionLayout tag start parent?))
    (every : tree.Every fun content => ∀ ty, content ≠ .typeKeyword ty) :
    program.IsExpression (start + tree.expressionDescendants) ∧
      ∀ id, start ≤ id -> id ≤ start + tree.expressionDescendants -> program.FitsAt id := by
  have top := node?_of_expressionLayout holds
  refine ⟨⟨_, kind?_of_node? top⟩, ?_⟩
  intro id least greatest
  rcases exists_part_of_expressionLayout holds least greatest with
    ⟨part, first, above?, isPart, partHolds, rfl⟩ | ⟨content, place, rfl, rfl⟩
  · exact fitsAt_of_node? (node?_of_layout partHolds)
      (fits_of_layout partHolds (every.of_part isPart))
  · change program.Holds start ([_] ++ [_]) at holds
    rw [holds_append, holds_singleton] at holds
    exact fitsAt_of_node? top (isValue_of_leaf holds.1 every)

/-- The parts of a well-formed statement are what its form calls for. -/
theorem fitsAt_of_statement
    {statement : StatementTree}
    (holds : program.Holds start (statement.layout tag start parent?))
    (wellFormed : statement.WellFormed good) :
    ∀ id, start ≤ id -> id ≤ start + statement.descendants -> program.FitsAt id := by
  obtain ⟨leavesHold, expressionHolds, top⟩ := holds_statement holds
  have leaf : ∀ index leaf, statement.leaves[index]? = some leaf ->
      program.kind? (start + index) = some (.leaf leaf.content) := by
    intro index leaf isLeaf
    have inRange := (List.getElem?_eq_some_iff.mp isLeaf).1
    have found := leavesHold index (by rw [List.length_map]; exact inRange)
    rw [List.getElem?_map, isLeaf] at found
    exact kind?_of_node? found
  have expression : ∀ tree ∈ statement.expression?,
      program.IsExpression (statement.expressionTop start tree) ∧
        ∀ id, start + statement.leaves.length ≤ id ->
          id ≤ statement.expressionTop start tree -> program.FitsAt id := by
    intro tree isExpression
    obtain isExpression := Option.mem_def.mp isExpression
    rw [isExpression] at expressionHolds
    exact fitsAt_of_expressionLayout expressionHolds
      ((wellFormed.of_expression? isExpression).1.imp fun _ leaf => leaf.1)
  have topFits : program.Fits (statement.node start parent?).kind := by
    cases statement with
    | declaration place identifier typeKeyword initializer =>
        obtain ⟨⟨⟨name, isName⟩, _⟩, isType, _, typed⟩ := wellFormed
        have identifierLeaf := leaf 0 identifier rfl
        rw [isName] at identifierLeaf
        refine ⟨⟨name, identifierLeaf⟩, ?_, ?_, ?_⟩
        · cases typeKeyword with
          | none => nofun
          | some keyword =>
              obtain ⟨ty, isKeyword⟩ := isType keyword rfl
              have keywordLeaf := leaf 1 keyword rfl
              rw [isKeyword] at keywordLeaf
              rintro _ ⟨⟩
              exact ⟨ty, keywordLeaf⟩
        · cases initializer with
          | none => nofun
          | some tree =>
              rintro _ ⟨⟩
              exact (expression tree rfl).1
        · simpa using typed
    | assignment place identifier tree =>
        obtain ⟨⟨⟨name, isName⟩, _⟩, _⟩ := wellFormed
        have identifierLeaf := leaf 0 identifier rfl
        rw [isName] at identifierLeaf
        exact ⟨⟨name, identifierLeaf⟩, (expression tree rfl).1⟩
    | input place identifier =>
        obtain ⟨⟨name, isName⟩, _⟩ := wellFormed
        have identifierLeaf := leaf 0 identifier rfl
        rw [isName] at identifierLeaf
        exact ⟨name, identifierLeaf⟩
    | output place tree => exact (expression tree rfl).1
  intro id least greatest
  rcases node_of_statement holds least greatest with
    rfl | ⟨leaf, _, found⟩ | ⟨tree, isExpression, _, behindLeaves, inExpression⟩
  · exact fitsAt_of_node? top topFits
  · exact fitsAt_of_node? found trivial
  · exact (expression tree isExpression).2 id behindLeaves inExpression

/-- The expressions of a program stand behind its frame. -/
theorem range_of_isExpression
    {position : Position} {symbols : SymbolTable} {statements : List Tagged} {id : Nat}
    (isExpression : (assemble position symbols statements).IsExpression id) :
    2 ≤ id ∧ id < 2 + Tagged.extent statements := by
  obtain ⟨expression, isKind⟩ := isExpression
  match id with
  | 0 =>
      rw [kind?_of_node? (node?_assemble_zero ..)] at isKind
      cases isKind
  | 1 =>
      rw [kind?_of_node? (node?_assemble_one ..)] at isKind
      cases isKind
  | id + 2 =>
      obtain ⟨node, found, _⟩ := Option.map_eq_some_iff.mp isKind
      have inRange := lt_of_node? found
      rw [size_assemble] at inRange
      exact ⟨Nat.le_add_left 2 id, inRange⟩

/-- The statements of a program are statements. -/
theorem isStatement_of_mem_tops
    {statements : List Tagged} {id : NodeId}
    (holds : program.Holds start (Tagged.layouts start statements))
    (member : id ∈ Tagged.tops start statements) :
    ∃ statement, program.kind? id = some (.statement statement) := by
  obtain ⟨index, found⟩ := List.mem_iff_getElem?.mp member
  obtain ⟨tagged, first, _, rfl, here⟩ := exists_of_getElem?_tops holds found
  exact ⟨_, kind?_of_node? (holds_statement here).2.2⟩

/-- The program of well-formed statements has in all places what belongs there. -/
theorem fitsAt_assemble
    {statements : List Tagged}
    (position : Position) (symbols : SymbolTable)
    (wellFormed : ∀ tagged ∈ statements, tagged.statement.WellFormed good)
    (id : Nat) :
    (assemble position symbols statements).FitsAt id := by
  have holds := holds_assemble position symbols statements
  match id with
  | 0 =>
      refine fitsAt_of_node? (node?_assemble_zero ..) ?_
      exact fun id member => isStatement_of_mem_tops holds member
  | 1 =>
      refine fitsAt_of_node? (node?_assemble_one ..) ?_
      exact ⟨_, _, kind?_of_node? (node?_assemble_zero ..)⟩
  | id + 2 =>
      intro kind isKind
      obtain ⟨node, found, _⟩ := Option.map_eq_some_iff.mp isKind
      have inRange := lt_of_node? found
      rw [size_assemble] at inRange
      obtain ⟨_, tagged, first, isStatement, _, statementHolds, least, greatest⟩ :=
        exists_statement_of_lt holds (Nat.le_add_left 2 id) inRange
      exact fitsAt_of_statement statementHolds
        (wellFormed tagged (List.mem_of_getElem? isStatement)) _ least greatest kind isKind

end

end Program

/-- The tokens of a source are parsed as the program of well-formed statements. -/
theorem Grammar.exists_wellFormed_of_parse
    {source sourceFile : String} {tokens : List Token} {file : String} {program : Program}
    (tokenized : Token.tokenize source sourceFile = .ok tokens)
    (parsed : parse tokens file = .ok program) :
    ∃ statements : List StatementTree,
      (∀ statement ∈ statements, statement.WellFormed fun _ => True) ∧
      program = untaggedProgram (Sentence.startOf tokens file) statements := by
  have readable : ∀ token ∈ tokens, Readable (fun _ => True) token := fun token member =>
    ⟨Token.coherent_of_tokenize tokenized token member, fun _ _ _ => trivial⟩
  exact (parse_yields file readable).value parsed

/-- A parsed program is a tree.  Whatever the tokens are, the nodes of the program are exactly
one tree below the root.  If the tokens are those of a source, the parts of every node are what
its form calls for. -/
theorem isTree_of_parse
    {tokens : List Token} {file : String} {program : Program}
    (parsed : Grammar.parse tokens file = .ok program) :
    program.IsTree ∧
      ∀ source sourceFile, Token.tokenize source sourceFile = .ok tokens ->
        ∀ id kind, program.kind? id = some kind -> program.Fits kind := by
  constructor
  · obtain ⟨statements, _, rfl⟩ := Grammar.exists_statements_of_parse parsed
    exact Program.isTree_assemble
  · intro source sourceFile tokenized
    obtain ⟨statements, wellFormed, rfl⟩ := Grammar.exists_wellFormed_of_parse tokenized parsed
    have plainWellFormed : ∀ tagged ∈ statements.map Tagged.plain,
        tagged.statement.WellFormed fun _ => True := by
      intro tagged member
      obtain ⟨statement, isStatement, rfl⟩ := List.mem_map.mp member
      exact wellFormed statement isStatement
    exact Program.fitsAt_assemble _ _ plainWellFormed

/-- A program in all forms of statements, with an operator behind its operands. -/
theorem isTree_of_all_forms :
    ∃ tokens program,
      Token.tokenize "declare x : int; x := 2 1 -; stdin x; stdout !(x < ~x);" "" = .ok tokens ∧
      Grammar.parse tokens "" = .ok program ∧
      program.IsTree ∧ ∀ id kind, program.kind? id = some kind -> program.Fits kind := by
  obtain ⟨tokens, program, tokenized, parsed⟩ := Grammar.exists_of_parses
    (by decide +kernel : Grammar.parses
      "declare x : int; x := 2 1 -; stdin x; stdout !(x < ~x);" "" = true)
  obtain ⟨isTree, fits⟩ := isTree_of_parse parsed
  exact ⟨tokens, program, tokenized, parsed, isTree, fits _ _ tokenized⟩

end ScriptLang
