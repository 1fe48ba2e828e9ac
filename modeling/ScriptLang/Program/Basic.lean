import ScriptLang.Program.SymbolTable

/-!
# Programs

A program is an array of nodes that name each other by number.  Children are
named by the form of a node, and every node knows its parent; the parent is only
followed upwards, to find the scope of a node.

A new program consists of an empty code block, node zero, and of the root above
it, node one.  Every node that is added becomes the parent of the children that
it names, which must be nodes of the program already or the new node itself.
-/

namespace ScriptLang

open Source (Position)

/-- The form of an expression and the numbers of its parts. -/
inductive ExpressionForm
  | binary (operator : BinaryOperator) (left right : NodeId)
  | unary (operator : UnaryOperator) (operand : NodeId)
  /-- A bare identifier or literal. -/
  | single (leaf : NodeId)
  deriving DecidableEq, Repr

namespace ExpressionForm

/-- The parts of an expression from left to right. -/
def children : ExpressionForm -> List NodeId
  | .binary _ left right => [left, right]
  | .unary _ operand => [operand]
  | .single leaf => [leaf]

end ExpressionForm

/-- An expression and the type that has been inferred for it. -/
structure Expression where
  form : ExpressionForm
  ty? : Option Ty
  deriving DecidableEq, Repr

/-- The form of a statement and the numbers of its parts. -/
inductive Statement
  | declaration (identifier : NodeId) (typeKeyword expression : Option NodeId)
  | assignment (identifier expression : NodeId)
  | input (identifier : NodeId)
  | output (expression : NodeId)
  deriving DecidableEq, Repr

namespace Statement

/-- The parts of a statement from left to right. -/
def children : Statement -> List NodeId
  | .declaration identifier typeKeyword expression =>
      identifier :: (typeKeyword.toList ++ expression.toList)
  | .assignment identifier expression => [identifier, expression]
  | .input identifier => [identifier]
  | .output expression => [expression]

end Statement

/-- What a node is. -/
inductive NodeKind
  | program (code : NodeId)
  /-- A scope, with the symbols that its statements declare. -/
  | codeBlock (statements : List NodeId) (symbols : SymbolTable)
  | statement (statement : Statement)
  | expression (expression : Expression)
  | leaf (leaf : Leaf)
  deriving DecidableEq

namespace NodeKind

/-- The numbers of the children of a node. -/
def children : NodeKind -> List NodeId
  | .program code => [code]
  | .codeBlock statements _ => statements
  | .statement content => content.children
  | .expression content => content.form.children
  | .leaf _ => []

/-- A code block without statements. -/
def emptyBlock : NodeKind := .codeBlock [] .empty

/-- The symbols of a code block. -/
def symbols? : NodeKind -> Option SymbolTable
  | .codeBlock _ symbols => some symbols
  | _ => none

/-- The statement that a node is. -/
def statement? : NodeKind -> Option Statement
  | .statement content => some content
  | _ => none

/-- The expression that a node is. -/
def expression? : NodeKind -> Option Expression
  | .expression content => some content
  | _ => none

/-- The leaf that a node is. -/
def leaf? : NodeKind -> Option Leaf
  | .leaf content => some content
  | _ => none

/-- The type that has been inferred for an expression. -/
def ty? (kind : NodeKind) : Option Ty := kind.expression?.bind Expression.ty?

/-- An expression with the given type; any other node stays as it is. -/
def withType (ty : Ty) : NodeKind -> NodeKind
  | .expression content => .expression { content with ty? := some ty }
  | kind => kind

/-- A code block with the given symbols; any other node stays as it is. -/
def withSymbols (symbols : SymbolTable) : NodeKind -> NodeKind
  | .codeBlock statements _ => .codeBlock statements symbols
  | kind => kind

/-- A code block with one more statement at its end; any other node stays as it is. -/
def withStatement (statement : NodeId) : NodeKind -> NodeKind
  | .codeBlock statements symbols => .codeBlock (statements ++ [statement]) symbols
  | kind => kind

@[simp] theorem children_withType (ty : Ty) (kind : NodeKind) :
    (kind.withType ty).children = kind.children := by
  cases kind <;> rfl

@[simp] theorem children_withSymbols (symbols : SymbolTable) (kind : NodeKind) :
    (kind.withSymbols symbols).children = kind.children := by
  cases kind <;> rfl

end NodeKind

/-- A node of a program. -/
structure Node where
  kind : NodeKind
  position : Position
  parent? : Option NodeId
  deriving DecidableEq

/-- A program under construction or a finished one. -/
structure Program where
  nodes : Array Node
  /-- The node above all others. -/
  root : NodeId
  /-- The outermost code block. -/
  code : NodeId
  deriving DecidableEq

namespace Program

/-- The program without statements. -/
def empty (position : Position) : Program where
  nodes := #[⟨.emptyBlock, position, some 1⟩, ⟨.program 0, position, none⟩]
  root := 1
  code := 0

/-- The number of nodes. -/
def size (program : Program) : Nat := program.nodes.size

/-- The node with a given number, if there is one. -/
def node? (program : Program) (id : NodeId) : Option Node := program.nodes[id]?

/-- The node with a given number. -/
def node (program : Program) (id : NodeId) : Except Fault Node :=
  match program.node? id with
  | some node => .ok node
  | none => .error (.missingNode id)

/-- Change the node with a given number. -/
def modifyNode (program : Program) (id : NodeId) (change : Node -> Node) : Program :=
  { program with nodes := program.nodes.modify id change }

/-- Change what the node with a given number is. -/
def modifyKind (program : Program) (id : NodeId) (change : NodeKind -> NodeKind) : Program :=
  program.modifyNode id fun node => { node with kind := change node.kind }

@[simp] theorem size_modifyNode (program : Program) (id : NodeId) (change : Node -> Node) :
    (program.modifyNode id change).size = program.size := by
  simp [modifyNode, size]

theorem node?_modifyNode
    (program : Program) (id other : NodeId) (change : Node -> Node) :
    (program.modifyNode id change).node? other =
      if id = other then (program.node? other).map change else program.node? other := by
  simp [modifyNode, node?, Array.getElem?_modify]

/-- Make one node the parent of another. -/
def attach (program : Program) (child parent : NodeId) : Except Fault Program :=
  if child < program.size then
    .ok (program.modifyNode child fun node => { node with parent? := some parent })
  else .error (.missingNode child)

theorem attach_of_lt
    {program : Program} {child : NodeId}
    (parent : NodeId)
    (inRange : child < program.size) :
    program.attach child parent =
      .ok (program.modifyNode child fun node => { node with parent? := some parent }) := by
  simp [attach, inRange]

theorem size_of_attach
    {program attached : Program} {child parent : NodeId}
    (done : program.attach child parent = .ok attached) :
    attached.size = program.size := by
  unfold attach at done
  split at done
  · cases done
    simp
  · simp at done

/-- Make one node the parent of several others. -/
def attachAll (program : Program) (children : List NodeId) (parent : NodeId) :
    Except Fault Program :=
  children.foldlM (fun program child => program.attach child parent) program

theorem size_of_attachAll
    {program attached : Program} {children : List NodeId} {parent : NodeId}
    (done : program.attachAll children parent = .ok attached) :
    attached.size = program.size := by
  induction children generalizing program with
  | nil =>
      cases done
      rfl
  | cons child rest inductionHypothesis =>
      simp only [attachAll, List.foldlM_cons] at done
      cases first : program.attach child parent with
      | error fault => simp [first, bind, Except.bind] at done
      | ok next =>
          simp only [first, bind, Except.bind] at done
          rw [inductionHypothesis done, size_of_attach first]

/-- Several nodes can be attached when all of them are nodes of the program. -/
theorem attachAll_isOk_iff (program : Program) (children : List NodeId) (parent : NodeId) :
    (∃ attached, program.attachAll children parent = .ok attached) ↔
      ∀ child ∈ children, child < program.size := by
  induction children generalizing program with
  | nil => simp [attachAll, pure, Except.pure]
  | cons child rest inductionHypothesis =>
      simp only [attachAll, List.foldlM_cons, List.forall_mem_cons]
      by_cases inRange : child < program.size
      · rw [attach_of_lt parent inRange]
        simpa [inRange, bind, Except.bind, attachAll] using inductionHypothesis
          (program.modifyNode child fun node => { node with parent? := some parent })
      · simp [attach, inRange, bind, Except.bind]

/-- Add a node above the children that it names.  Its number is the former size. -/
def add (program : Program) (kind : NodeKind) (position : Position) :
    Except Fault Program :=
  let extended := { program with nodes := program.nodes.push ⟨kind, position, none⟩ }
  extended.attachAll kind.children program.size

theorem size_of_add
    {program extended : Program} {kind : NodeKind} {position : Position}
    (done : program.add kind position = .ok extended) :
    extended.size = program.size + 1 := by
  simpa [size] using size_of_attachAll done

/-- A node can be added when the children that it names are nodes of the program or the new
node itself. -/
theorem add_isOk_iff (program : Program) (kind : NodeKind) (position : Position) :
    (∃ extended, program.add kind position = .ok extended) ↔
      ∀ child ∈ kind.children, child ≤ program.size := by
  simpa [add, size, Nat.lt_succ_iff] using
    attachAll_isOk_iff { program with nodes := program.nodes.push ⟨kind, position, none⟩ }
      kind.children program.size

/-- Add a node and give its number. -/
def addNode (kind : NodeKind) (position : Position) : EStateM Fault Program NodeId :=
  fun program =>
    match program.add kind position with
    | .ok extended => .ok program.size extended
    | .error fault => .error fault program

/-- Put a statement at the end of a code block, or give nothing if the node is no code block. -/
def pushStatement (program : Program) (block statement : NodeId) :
    Except Fault (Option Program) := do
  let node ← program.node block
  match node.kind with
  | .codeBlock _ _ =>
      let extended := program.modifyKind block (.withStatement statement)
      let attached ← extended.attach statement block
      return some attached
  | _ => return none

/-- The statements of the outermost code block. -/
def statements (program : Program) : List NodeId :=
  match program.node? program.code with
  | some ⟨.codeBlock statements _, _, _⟩ => statements
  | _ => []

/-- The symbols of the outermost code block. -/
def symbols (program : Program) : SymbolTable :=
  match program.node? program.code with
  | some ⟨.codeBlock _ symbols, _, _⟩ => symbols
  | _ => .empty

/-- Record the type that has been inferred for an expression. -/
def tag (program : Program) (id : NodeId) (ty : Ty) : Program :=
  program.modifyKind id (.withType ty)

end Program
end ScriptLang
