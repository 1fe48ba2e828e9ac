import Mathlib.Data.List.Forall2
import ScriptLang.Proofs.Program.Assembly

/-!
# Programs without places

Trees, symbols and programs with all places forgotten.  Two programs that are the
same without their places have the same nodes with the same numbers, types and
parents, and the same symbols apart from the lines of their declarations.
-/

namespace ScriptLang

open Source (Position)

/-- No place in particular. -/
def Source.nowhere : Position := ⟨0, 0, ""⟩

open Source (nowhere)

/-- A symbol without the line of its declaration. -/
def Symbol.unplaced (symbol : Symbol) : Symbol := { symbol with line := nowhere.line }

namespace SymbolTable

theorem pairwise_unplaced
    {symbols : List Symbol}
    (ordered : symbols.Pairwise Symbol.Before) :
    (symbols.map Symbol.unplaced).Pairwise Symbol.Before :=
  List.pairwise_map.mpr ordered

/-- A symbol table without the lines of its declarations. -/
def unplaced (table : SymbolTable) : SymbolTable :=
  ⟨table.symbols.map Symbol.unplaced, pairwise_unplaced table.ordered⟩

@[simp] theorem unplaced_empty : empty.unplaced = empty := rfl

theorem get?_unplaced (table : SymbolTable) (identifier : String) :
    table.unplaced.get? identifier = (table.get? identifier).map Symbol.unplaced := by
  unfold get? unplaced
  rw [List.find?_map]
  rfl

/-- Tables with the same symbols are equal. -/
theorem eq_of_symbols_eq
    {first second : SymbolTable}
    (same : first.symbols = second.symbols) :
    first = second := by
  cases first
  cases second
  cases same
  rfl

theorem unplaced_insertInto (symbol : Symbol) (symbols : List Symbol) :
    (symbol.insertInto symbols).map Symbol.unplaced =
      symbol.unplaced.insertInto (symbols.map Symbol.unplaced) := by
  induction symbols with
  | nil => rfl
  | cons first rest inductionHypothesis =>
      rw [Symbol.insertInto, List.map_cons, Symbol.insertInto]
      have sameTest : symbol.unplaced.identifier < first.unplaced.identifier ↔
          symbol.identifier < first.identifier := Iff.rfl
      simp only [sameTest]
      split
      · rfl
      · rw [List.map_cons, inductionHypothesis]

theorem unplaced_markInitialized (table : SymbolTable) (identifier : String) :
    (table.markInitialized identifier).unplaced = table.unplaced.markInitialized identifier := by
  apply eq_of_symbols_eq
  unfold unplaced markInitialized Symbol.giveValueIn
  simp only [List.map_map]
  congr 1
  funext symbol
  simp only [Function.comp_apply]
  have sameName : symbol.unplaced.identifier = symbol.identifier := rfl
  rw [sameName]
  split <;> rfl

end SymbolTable

namespace Tree

/-- A tree without its places. -/
def unplaced : Tree -> Tree
  | .leaf content _ => .leaf content nowhere
  | .unary operator _ operand => .unary operator nowhere operand.unplaced
  | .binary operator _ left right => .binary operator nowhere left.unplaced right.unplaced

theorem position_unplaced (tree : Tree) : tree.unplaced.position = nowhere := by
  cases tree <;> rfl

theorem descendants_unplaced (tree : Tree) : tree.unplaced.descendants = tree.descendants := by
  induction tree with
  | leaf content position => rfl
  | unary operator position operand inductionHypothesis =>
      rw [unplaced, descendants_unary, descendants_unary, inductionHypothesis]
  | binary operator position left right leftHypothesis rightHypothesis =>
      rw [unplaced, descendants_binary, descendants_binary, leftHypothesis, rightHypothesis]

theorem nesting_unplaced (tree : Tree) : tree.unplaced.nesting = tree.nesting := by
  induction tree with
  | leaf content position => rfl
  | unary operator position operand inductionHypothesis =>
      rw [unplaced, nesting_unary, nesting_unary, inductionHypothesis]
  | binary operator position left right leftHypothesis rightHypothesis =>
      rw [unplaced, nesting_binary, nesting_binary, leftHypothesis, rightHypothesis]

theorem form_unplaced (start : Nat) (tree : Tree) : tree.unplaced.form start = tree.form start := by
  cases tree with
  | leaf content position => rfl
  | unary operator position operand =>
      rw [unplaced, form, form, descendants_unplaced]
  | binary operator position left right =>
      rw [unplaced, form, form, descendants_unplaced, descendants_unplaced]

theorem expressionDescendants_unplaced (tree : Tree) :
    tree.unplaced.expressionDescendants = tree.expressionDescendants := by
  cases tree with
  | leaf content position => rfl
  | unary operator position operand =>
      exact descendants_unplaced (.unary operator position operand)
  | binary operator position left right =>
      exact descendants_unplaced (.binary operator position left right)

end Tree

/-- A leaf without its place. -/
def LeafAt.unplaced (leaf : LeafAt) : LeafAt := ⟨leaf.content, nowhere⟩

namespace StatementTree

/-- A statement without its places. -/
def unplaced : StatementTree -> StatementTree
  | .declaration _ identifier typeKeyword expression =>
      .declaration nowhere identifier.unplaced (typeKeyword.map LeafAt.unplaced)
        (expression.map Tree.unplaced)
  | .assignment _ identifier expression =>
      .assignment nowhere identifier.unplaced expression.unplaced
  | .input _ identifier => .input nowhere identifier.unplaced
  | .output _ expression => .output nowhere expression.unplaced

theorem leaves_unplaced (statement : StatementTree) :
    statement.unplaced.leaves = statement.leaves.map LeafAt.unplaced := by
  cases statement with
  | declaration position identifier typeKeyword expression => cases typeKeyword <;> rfl
  | assignment position identifier expression => rfl
  | input position identifier => rfl
  | output position expression => rfl

theorem expression?_unplaced (statement : StatementTree) :
    statement.unplaced.expression? = statement.expression?.map Tree.unplaced := by
  cases statement <;> rfl

theorem descendants_unplaced (statement : StatementTree) :
    statement.unplaced.descendants = statement.descendants := by
  unfold descendants
  rw [leaves_unplaced, expression?_unplaced, List.length_map]
  cases statement.expression? with
  | none => rfl
  | some tree =>
      rw [Option.map_some, expressionSize, expressionSize, Tree.expressionDescendants_unplaced]

theorem expressionTop_unplaced (start : Nat) (statement : StatementTree) (tree : Tree) :
    statement.unplaced.expressionTop start tree.unplaced = statement.expressionTop start tree := by
  unfold expressionTop
  rw [leaves_unplaced, List.length_map, Tree.expressionDescendants_unplaced]

theorem form_unplaced (start : Nat) (statement : StatementTree) :
    statement.unplaced.form start = statement.form start := by
  have top := expressionTop_unplaced start statement
  cases statement with
  | declaration position identifier typeKeyword expression =>
      simp only [unplaced] at top
      simp only [unplaced, form, Option.map_map, Function.comp_def, top]
  | assignment position identifier expression =>
      simp only [unplaced] at top
      simp only [unplaced, form, top]
  | input position identifier => rfl
  | output position expression =>
      simp only [unplaced] at top
      simp only [unplaced, form, top]

end StatementTree

/-- A kind of node without the lines of declarations. -/
def NodeKind.unplaced : NodeKind -> NodeKind
  | .codeBlock statements symbols => .codeBlock statements symbols.unplaced
  | kind => kind

/-- A node without its place. -/
def Node.unplaced (node : Node) : Node := ⟨node.kind.unplaced, nowhere, node.parent?⟩

/-- A program without its places. -/
def Program.unplaced (program : Program) : Program :=
  { program with nodes := program.nodes.map Node.unplaced }

/-- Two taggings agree on a tree with and without its places. -/
def Tree.Agrees (tag unplacedTag : Tagging) : Prop :=
  ∀ tree : Tree, unplacedTag tree.unplaced = tag tree

section

variable {tag unplacedTag : Tree.Tagging}

namespace Tree

theorem unplaced_node
    (agrees : Agrees tag unplacedTag)
    (start : Nat) (parent? : Option NodeId) (tree : Tree) :
    (tree.node tag start parent?).unplaced = tree.unplaced.node unplacedTag start parent? := by
  have sameForm := form_unplaced start tree
  have sameTag := agrees tree
  cases tree with
  | leaf content position => rfl
  | unary operator position operand =>
      simp only [unplaced] at sameForm sameTag
      simp only [node, kind, unplaced, Node.unplaced, NodeKind.unplaced, Tree.position, sameForm,
        sameTag]
  | binary operator position left right =>
      simp only [unplaced] at sameForm sameTag
      simp only [node, kind, unplaced, Node.unplaced, NodeKind.unplaced, Tree.position, sameForm,
        sameTag]

theorem unplaced_layout
    (agrees : Agrees tag unplacedTag)
    (start : Nat) (parent? : Option NodeId) (tree : Tree) :
    (tree.layout tag start parent?).map Node.unplaced =
      tree.unplaced.layout unplacedTag start parent? := by
  induction tree generalizing start parent? with
  | leaf content position => rfl
  | unary operator position operand inductionHypothesis =>
      have top := unplaced_node agrees start parent? (.unary operator position operand)
      rw [layout_unary, List.map_append, inductionHypothesis, List.map_singleton, top, unplaced,
        layout_unary, descendants_unplaced]
  | binary operator position left right leftHypothesis rightHypothesis =>
      have top := unplaced_node agrees start parent? (.binary operator position left right)
      rw [layout_binary, List.map_append, List.map_append, leftHypothesis, rightHypothesis,
        List.map_singleton, top, unplaced, layout_binary, descendants_unplaced,
        descendants_unplaced]

theorem unplaced_expressionLayout
    (agrees : Agrees tag unplacedTag)
    (start : Nat) (parent? : Option NodeId) (tree : Tree) :
    (tree.expressionLayout tag start parent?).map Node.unplaced =
      tree.unplaced.expressionLayout unplacedTag start parent? := by
  cases tree with
  | leaf content position =>
      have sameTag := agrees (.leaf content position)
      simp only [expressionLayout, expressionLower, expressionNode, unplaced, List.map_append,
        List.map_singleton, Node.unplaced, NodeKind.unplaced, Tree.position]
      rw [← sameTag]
      rfl
  | unary operator position operand =>
      exact unplaced_layout agrees start parent? (.unary operator position operand)
  | binary operator position left right =>
      exact unplaced_layout agrees start parent? (.binary operator position left right)

end Tree

theorem StatementTree.unplaced_layout
    (agrees : Tree.Agrees tag unplacedTag)
    (start : Nat) (parent? : Option NodeId) (statement : StatementTree) :
    (statement.layout tag start parent?).map Node.unplaced =
      statement.unplaced.layout unplacedTag start parent? := by
  have leafNodes : ∀ parent?, (statement.leaves.map (LeafAt.node parent?)).map Node.unplaced =
      statement.unplaced.leaves.map (LeafAt.node parent?) := by
    intro parent?
    rw [leaves_unplaced, List.map_map, List.map_map]
    rfl
  have top : (statement.node start parent?).unplaced =
      statement.unplaced.node start parent? := by
    unfold node
    rw [form_unplaced]
    cases statement <;> rfl
  unfold layout lower parts
  rw [List.map_append, List.map_append, List.map_singleton, top, leafNodes,
    expression?_unplaced, descendants_unplaced, leaves_unplaced, List.length_map]
  cases statement.expression? with
  | none => rfl
  | some tree =>
      rw [expressionNodes, Tree.unplaced_expressionLayout agrees]
      rfl

end

namespace Tagged

/-- Two statements with types agree with and without their places. -/
def Agrees (first second : Tagged) : Prop :=
  second.statement = first.statement.unplaced ∧ Tree.Agrees first.tag second.tag

theorem tops_of_agrees
    {first second : List Tagged}
    (agree : List.Forall₂ Agrees first second)
    (start : Nat) :
    tops start second = tops start first := by
  induction agree generalizing start with
  | nil => rfl
  | cons agrees _ inductionHypothesis =>
      rw [tops, tops, agrees.1, StatementTree.descendants_unplaced, inductionHypothesis]

theorem layouts_of_agrees
    {first second : List Tagged}
    (agree : List.Forall₂ Agrees first second)
    (start : Nat) :
    layouts start second = (layouts start first).map Node.unplaced := by
  induction agree generalizing start with
  | nil => rfl
  | cons agrees _ inductionHypothesis =>
      rw [layouts, layouts, agrees.1, StatementTree.descendants_unplaced, inductionHypothesis,
        List.map_append, StatementTree.unplaced_layout agrees.2]

end Tagged

/-- Forgetting the places of a program forgets those of its statements and symbols. -/
theorem Program.unplaced_assemble
    {first second : List Tagged}
    (agree : List.Forall₂ Tagged.Agrees first second)
    (position : Position) (symbols : SymbolTable) :
    (assemble position symbols first).unplaced =
      assemble nowhere symbols.unplaced second := by
  unfold assemble unplaced extend frame
  rw [Tagged.tops_of_agrees agree, Tagged.layouts_of_agrees agree, Array.map_append]
  simp only [List.map_toArray]
  rfl

end ScriptLang
