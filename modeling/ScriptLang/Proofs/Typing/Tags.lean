import ScriptLang.Proofs.Program.Postorder
import ScriptLang.Proofs.Typing.DefiniteAssignment

/-!
# Recorded types

What the typing rules say at a node of a program, given the types that are recorded
at its operands.  An inference that succeeds leaves every node of an expression with
the type that its rule gives.  One that fails stops at the first node in post-order
whose rule fails: the nodes in front of it have their types, and no other node has
one.
-/

namespace ScriptLang

open Source (Position)
open Typing (reportAt)

namespace SymbolTable

/-- Every symbol of a table is in a later one with its type, and with a value if it had one. -/
def Grows (symbols later : SymbolTable) : Prop :=
  ∀ name symbol, symbols.get? name = some symbol ->
    ∃ same, later.get? name = some same ∧ same.ty = symbol.ty ∧
      (symbol.initialized = true -> same.initialized = true)

namespace Grows

theorem refl (symbols : SymbolTable) : symbols.Grows symbols :=
  fun _ symbol found => ⟨symbol, found, rfl, fun isInitialized => isInitialized⟩

theorem trans
    {first second third : SymbolTable}
    (before : first.Grows second)
    (behind : second.Grows third) :
    first.Grows third := by
  intro name symbol found
  obtain ⟨middle, middleFound, middleTy, keepsValue⟩ := before name symbol found
  obtain ⟨last, lastFound, lastTy, keepsIt⟩ := behind name middle middleFound
  exact ⟨last, lastFound, lastTy.trans middleTy, fun isInitialized =>
    keepsIt (keepsValue isInitialized)⟩

end Grows
end SymbolTable

namespace StatementTree

/-- A statement that is accepted takes no symbol, type or value away. -/
theorem Effect.grows
    {statement : StatementTree} {symbols next : SymbolTable}
    (effect : statement.Effect symbols next) :
    symbols.Grows next := by
  cases effect with
  | declares _ _ _ _ _ registered =>
      intro name other found
      obtain ⟨fresh, looked⟩ := SymbolTable.get?_of_register_eq_ok registered name
      refine ⟨other, ?_, rfl, fun isInitialized => isInitialized⟩
      rw [looked, if_neg, found]
      rintro rfl
      rw [fresh] at found
      cases found
  | @givesValue target _ _ _ _ =>
      intro name other found
      rw [SymbolTable.get?_markInitialized, found]
      split
      · exact ⟨other.giveValue, rfl, rfl, fun _ => rfl⟩
      · exact ⟨other, rfl, rfl, fun isInitialized => isInitialized⟩
  | keeps => exact .refl _

theorem grows_of_checkAll
    {start : Nat} {symbols last : SymbolTable} {statements : List StatementTree}
    (checked : checkAll start symbols statements = .ok last) :
    symbols.Grows last := by
  induction statements generalizing start symbols with
  | nil =>
      cases checked
      exact .refl _
  | cons first rest inductionHypothesis =>
      obtain ⟨next, firstChecked, restChecked⟩ := (bind_eq_ok_iff _ _ _).mp checked
      exact (effect_of_check firstChecked).grows.trans (inductionHypothesis restChecked)

/-- The symbols after the first statements are still there after all of them. -/
theorem grows_of_checkAll_take
    {start index : Nat} {symbols before last : SymbolTable} {statements : List StatementTree}
    (checked : checkAll start symbols statements = .ok last)
    (takenChecked : checkAll start symbols (statements.take index) = .ok before) :
    before.Grows last := by
  induction statements generalizing start symbols index with
  | nil =>
      rw [List.take_nil, checked] at takenChecked
      cases takenChecked
      exact .refl _
  | cons first rest inductionHypothesis =>
      cases index with
      | zero =>
          cases takenChecked
          exact grows_of_checkAll checked
      | succ index =>
          rw [List.take_succ_cons] at takenChecked
          obtain ⟨next, firstChecked, restChecked⟩ := (bind_eq_ok_iff _ _ _).mp checked
          obtain ⟨other, otherChecked, restTaken⟩ := (bind_eq_ok_iff _ _ _).mp takenChecked
          obtain rfl := Except.ok.inj (firstChecked.symm.trans otherChecked)
          exact inductionHypothesis restChecked restTaken

end StatementTree

/-- A leaf keeps its type when symbols are added. -/
theorem Leaf.typeIn_of_grows
    {symbols later : SymbolTable} {content : Leaf} {position : Position} {ty : Ty}
    (grows : symbols.Grows later)
    (typed : content.typeIn symbols position = .ok ty) :
    content.typeIn later position = .ok ty := by
  cases content with
  | literal value => exact typed
  | typeKeyword keyword => cases typed
  | identifier name =>
      obtain ⟨symbol, resolved, result⟩ := (bind_eq_ok_iff _ _ _).mp typed
      have found : symbols.get? name = some symbol :=
        (symbols.resolve_blames name position).value resolved
      obtain ⟨same, sameFound, sameTy, keepsValue⟩ := grows name symbol found
      split at result
      · next isInitialized =>
          rw [typeIn, SymbolTable.resolve, sameFound, ok_bind, if_pos (keepsValue isInitialized),
            sameTy]
          exact result
      · cases result

namespace Program

/-- The type that a node stands for as an operand: that which is recorded at an expression, that
of a literal, and the declared one of a variable. -/
def operandTy? (program : Program) (id : NodeId) : Option Ty :=
  match program.kind? id with
  | some (.expression expression) => expression.ty?
  | some (.leaf (.literal value)) => some value.ty
  | some (.leaf (.identifier name)) => (program.symbols.get? name).map Symbol.ty
  | _ => none

/-- What the rule of an expression says at a place, if its operands have types. -/
def formVerdict? (program : Program) (position : Position) :
    ExpressionForm -> Option (Except Fault Ty)
  | .binary operator left right =>
      (program.operandTy? left).bind fun leftTy =>
        (program.operandTy? right).map fun rightTy =>
          reportAt position (operator.resultTy leftTy rightTy)
  | .unary operator operand =>
      (program.operandTy? operand).map fun operandTy =>
        reportAt position (operator.resultTy operandTy)
  | .single leaf => (program.operandTy? leaf).map .ok

/-- What the typing rules say at a node, if its operands have types. -/
def verdict? (program : Program) (id : NodeId) : Option (Except Fault Ty) :=
  (program.node? id).bind fun node =>
    match node.kind with
    | .leaf content => some (content.typeIn program.symbols node.position)
    | .expression expression => program.formVerdict? node.position expression.form
    | _ => none

/-- A node stands for the type that its rule gives. -/
def TypedAs (program : Program) (id : NodeId) (ty : Ty) : Prop :=
  program.verdict? id = some (.ok ty) ∧ program.operandTy? id = some ty

/-- A node stands for some type, which its rule gives. -/
def TypedAt (program : Program) (id : NodeId) : Prop := ∃ ty, program.TypedAs id ty

/-- The nodes from one number to another have types in front of a node whose rule fails, and none
is recorded from there on. -/
structure StopsAmong (program : Program) (start stop failing : Nat) (fault : Fault) : Prop where
  least : start ≤ failing
  greatest : failing ≤ stop
  typed : ∀ id : Nat, start ≤ id -> id < failing -> program.TypedAt id
  refused : program.verdict? failing = some (.error fault)
  untagged : ∀ id : Nat, failing ≤ id -> id ≤ stop -> program.recordedTy? id = none

variable {program : Program} {symbols : SymbolTable} {start : Nat} {parent? : Option NodeId}

namespace StopsAmong

variable {stop failing : Nat} {fault : Fault}

/-- No type is recorded behind the nodes. -/
theorem extend
    {last : Nat}
    (stops : program.StopsAmong start stop failing fault)
    (later : stop ≤ last)
    (untagged : ∀ id : Nat, stop < id -> id ≤ last -> program.recordedTy? id = none) :
    program.StopsAmong start last failing fault where
  least := stops.least
  greatest := Nat.le_trans stops.greatest later
  typed := stops.typed
  refused := stops.refused
  untagged := by
    intro id behind inRange
    rcases Nat.lt_or_ge stop id with isLater | inFormer
    · exact untagged id isLater inRange
    · exact stops.untagged id behind inFormer

/-- No type is recorded at the node behind the nodes. -/
theorem succ
    (stops : program.StopsAmong start stop failing fault)
    (untagged : program.recordedTy? (stop + 1) = none) :
    program.StopsAmong start (stop + 1) failing fault := by
  apply stops.extend (Nat.le_succ stop)
  intro id behind inRange
  obtain rfl := Nat.le_antisymm inRange behind
  exact untagged

/-- The nodes in front of all have types. -/
theorem prepend
    {first : Nat}
    (stops : program.StopsAmong start stop failing fault)
    (earlier : first ≤ start)
    (typed : ∀ id : Nat, first ≤ id -> id < start -> program.TypedAt id) :
    program.StopsAmong first stop failing fault where
  least := Nat.le_trans earlier stops.least
  greatest := stops.greatest
  typed := by
    intro id least inFront
    rcases Nat.lt_or_ge id start with isEarlier | inFormer
    · exact typed id least isEarlier
    · exact stops.typed id inFormer inFront
  refused := stops.refused
  untagged := stops.untagged

/-- Only the rule of the last node fails. -/
theorem last
    (ordered : start ≤ stop)
    (typed : ∀ id : Nat, start ≤ id -> id < stop -> program.TypedAt id)
    (refused : program.verdict? stop = some (.error fault))
    (untagged : program.recordedTy? stop = none) :
    program.StopsAmong start stop stop fault where
  least := ordered
  greatest := Nat.le_refl stop
  typed := typed
  refused := refused
  untagged := by
    intro id behind inRange
    obtain rfl := Nat.le_antisymm inRange behind
    exact untagged

end StopsAmong

/-! ## Single nodes -/

section

variable {id left right : NodeId}

/-- The rule of a unary operator, at an operand with a type. -/
theorem formVerdict?_unary
    {operandTy : Ty}
    (isOperand : program.operandTy? id = some operandTy)
    (position : Position) (operator : UnaryOperator) :
    program.formVerdict? position (.unary operator id) =
      some (reportAt position (operator.resultTy operandTy)) := by
  rw [formVerdict?, isOperand, Option.map_some]

/-- The rule of a binary operator, at operands with types. -/
theorem formVerdict?_binary
    {leftTy rightTy : Ty}
    (isLeft : program.operandTy? left = some leftTy)
    (isRight : program.operandTy? right = some rightTy)
    (position : Position) (operator : BinaryOperator) :
    program.formVerdict? position (.binary operator left right) =
      some (reportAt position (operator.resultTy leftTy rightTy)) := by
  rw [formVerdict?, isLeft, Option.bind_some, isRight, Option.map_some]

end

section

variable {id : NodeId}

theorem verdict?_of_leaf
    {content : Leaf} {position : Position}
    (found : program.node? id = some ⟨.leaf content, position, parent?⟩) :
    program.verdict? id = some (content.typeIn program.symbols position) := by
  rw [verdict?, found]
  rfl

theorem recordedTy?_of_leaf
    {content : Leaf} {position : Position}
    (found : program.node? id = some ⟨.leaf content, position, parent?⟩) :
    program.recordedTy? id = none := by
  rw [recordedTy?, kind?_of_node? found]
  rfl

/-- A leaf with a type stands for it. -/
theorem typedAs_of_leaf
    {content : Leaf} {position : Position} {ty : Ty}
    (found : program.node? id = some ⟨.leaf content, position, parent?⟩)
    (typed : content.typeIn program.symbols position = .ok ty) :
    program.TypedAs id ty := by
  refine ⟨by rw [verdict?_of_leaf found, typed], ?_⟩
  rw [operandTy?, kind?_of_node? found]
  cases content with
  | literal value => exact congrArg some (Except.ok.inj typed)
  | typeKeyword keyword => cases typed
  | identifier name =>
      obtain ⟨symbol, resolved, result⟩ := (bind_eq_ok_iff _ _ _).mp typed
      have inTable : program.symbols.get? name = some symbol :=
        (program.symbols.resolve_blames name position).value resolved
      split at result
      · change (program.symbols.get? name).map Symbol.ty = some ty
        rw [inTable]
        exact congrArg some (Except.ok.inj result)
      · cases result

variable {form : ExpressionForm} {ty? : Option Ty} {position : Position}
variable (found : program.node? id = some ⟨.expression ⟨form, ty?⟩, position, parent?⟩)

include found

theorem verdict?_of_expression :
    program.verdict? id = program.formVerdict? position form := by
  rw [verdict?, found]
  rfl

theorem operandTy?_of_expression : program.operandTy? id = ty? := by
  rw [operandTy?, kind?_of_node? found]

theorem recordedTy?_of_expression : program.recordedTy? id = ty? := by
  rw [recordedTy?, kind?_of_node? found]
  rfl

end

/-! ## Trees -/

section

variable {tree : Tree} {ty : Ty} {fault : Fault}

/-- The top of a well-typed tree stands for its type.  Its symbols may have grown since. -/
theorem typedAs_of_layout
    (grows : symbols.Grows program.symbols)
    (holds : program.Holds start (tree.layout (Tree.typing symbols) start parent?))
    (typed : tree.typeIn symbols = .ok ty) :
    program.TypedAs (start + tree.descendants) ty := by
  induction tree generalizing start parent? ty with
  | leaf content position =>
      -- Only leaves look at symbols, and these are looked at again in the later table.
      exact typedAs_of_leaf (node?_of_layout holds) (Leaf.typeIn_of_grows grows typed)
  | unary operator position operand inductionHypothesis =>
      have top := node?_of_layout holds
      have isTag := Tree.typing_of_typeIn_eq_ok typed
      obtain ⟨operandTy, operandTyped, isRule⟩ := (bind_eq_ok_iff _ _ _).mp typed
      rw [Tree.layout_unary, holds_append] at holds
      have operandTypedAs := inductionHypothesis holds.1 operandTyped
      constructor
      · rw [verdict?_of_expression top]
        exact (formVerdict?_unary operandTypedAs.2 _ _).trans (congrArg some isRule)
      · exact (operandTy?_of_expression top).trans isTag
  | binary operator position left right leftHypothesis rightHypothesis =>
      have top := node?_of_layout holds
      have isTag := Tree.typing_of_typeIn_eq_ok typed
      obtain ⟨leftTy, leftTyped, rest⟩ := (bind_eq_ok_iff _ _ _).mp typed
      obtain ⟨rightTy, rightTyped, isRule⟩ := (bind_eq_ok_iff _ _ _).mp rest
      rw [Tree.layout_binary, holds_append, holds_append, Tree.length_layout] at holds
      obtain ⟨⟨leftHolds, rightHolds⟩, _⟩ := holds
      have leftTypedAs := leftHypothesis leftHolds leftTyped
      have rightTypedAs := rightHypothesis rightHolds rightTyped
      rw [← Nat.add_assoc start left.descendants 1] at rightTypedAs
      constructor
      · rw [verdict?_of_expression top]
        exact (formVerdict?_binary leftTypedAs.2 rightTypedAs.2 _ _).trans (congrArg some isRule)
      · exact (operandTy?_of_expression top).trans isTag

/-- All nodes of a well-typed tree stand for the types that their rules give. -/
theorem typedAt_of_layout
    {id : Nat}
    (grows : symbols.Grows program.symbols)
    (holds : program.Holds start (tree.layout (Tree.typing symbols) start parent?))
    (typed : tree.typeIn symbols = .ok ty)
    (least : start ≤ id)
    (greatest : id ≤ start + tree.descendants) :
    program.TypedAt id := by
  obtain ⟨part, first, above?, isPart, partHolds, rfl⟩ :=
    exists_part_of_layout holds least greatest
  obtain ⟨partTy, partTyped⟩ := Tree.exists_typeIn_of_part isPart typed
  exact ⟨partTy, typedAs_of_layout grows partHolds partTyped⟩

/-- No type is recorded in a tree that no inference has come to. -/
theorem recordedTy?_of_untagged_layout
    {id : Nat}
    (holds : program.Holds start (tree.layout Tree.untagged start parent?))
    (least : start ≤ id)
    (greatest : id ≤ start + tree.descendants) :
    program.recordedTy? id = none := by
  obtain ⟨part, first, above?, isPart, partHolds, rfl⟩ :=
    exists_part_of_layout holds least greatest
  have top := node?_of_layout partHolds
  cases part with
  | leaf content position => exact recordedTy?_of_leaf top
  | unary operator position operand => exact recordedTy?_of_expression top
  | binary operator position left right => exact recordedTy?_of_expression top

/-- The nodes of the operands and of the operator after an inference. -/
theorem holds_of_reached_binary
    {operator : BinaryOperator} {position : Position} {left right : Tree}
    (holds : program.Holds start
      ((Tree.binary operator position left right).reached symbols start parent?)) :
    let middle := start + left.descendants + 1
    let top := middle + right.descendants + 1
    program.Holds start (left.reached symbols start (some top)) ∧
      program.Holds middle
        (if (left.typeIn symbols).isOk then right.reached symbols middle (some top)
          else right.layout Tree.untagged middle (some top)) ∧
      program.node? top = some ((Tree.binary operator position left right).node
        (Tree.typing symbols) start parent?) := by
  intro middle top
  rw [Tree.reached, holds_append, holds_append, holds_singleton, List.length_append,
    Tree.length_reached] at holds
  obtain ⟨⟨leftHolds, rightHolds⟩, topFound⟩ := holds
  refine ⟨leftHolds, rightHolds, ?_⟩
  have rightLength : (if (left.typeIn symbols).isOk then right.reached symbols middle (some top)
      else right.layout Tree.untagged middle (some top)).length = right.descendants + 1 := by
    split
    · exact Tree.length_reached ..
    · exact Tree.length_layout ..
  have isTop : start + (left.descendants + 1 + (right.descendants + 1)) = top := by
    simp only [top, middle]
    omega
  rw [rightLength, isTop] at topFound
  exact topFound

end

/-- An inference that fails in a tree stops at one of its nodes, wherever the tree stands. -/
def StopsIn (program : Program) (tree : Tree) : Prop :=
  ∀ (start : Nat) (parent? : Option NodeId) (fault : Fault),
    program.Holds start (tree.reached program.symbols start parent?) ->
    tree.typeIn program.symbols = .error fault ->
      ∃ failing, program.StopsAmong start (start + tree.descendants) failing fault

namespace StopsIn

theorem leaf (content : Leaf) (position : Position) :
    program.StopsIn (.leaf content position) := by
  intro start parent? fault holds failed
  rw [Tree.reached, holds_singleton] at holds
  refine ⟨start, .last (Nat.le_refl start) (fun id least inFront => ?_) ?_ ?_⟩
  · exact absurd inFront (Nat.not_lt_of_le least)
  · exact (verdict?_of_leaf holds).trans (congrArg some failed)
  · exact recordedTy?_of_leaf holds

/-- The operand fails, or it has its type and the operator fails. -/
theorem unary
    {operand : Tree}
    (operator : UnaryOperator) (position : Position)
    (operandStops : program.StopsIn operand) :
    program.StopsIn (.unary operator position operand) := by
  intro start parent? fault holds failed
  rw [Tree.reached, holds_append, holds_singleton, Tree.length_reached] at holds
  obtain ⟨operandHolds, top⟩ := holds
  have topUntagged := (recordedTy?_of_expression top).trans
    (Tree.typing_of_typeIn_eq_error failed)
  rw [Tree.descendants_unary]
  rcases (bind_eq_error_iff _ _ _).mp failed with operandFailed | ⟨operandTy, typed, isRule⟩
  · obtain ⟨failing, stops⟩ := operandStops _ _ _ operandHolds operandFailed
    exact ⟨failing, stops.succ topUntagged⟩
  · rw [Tree.reached_of_typeIn_eq_ok _ _ typed] at operandHolds
    refine ⟨_, .last (Nat.le_add_right _ _) (fun id least inFront => ?_) ?_ topUntagged⟩
    · exact typedAt_of_layout (.refl _) operandHolds typed least (Nat.le_of_lt_succ inFront)
    · have operandTypedAs := typedAs_of_layout (.refl _) operandHolds typed
      rw [verdict?_of_expression top]
      exact (formVerdict?_unary operandTypedAs.2 _ _).trans (congrArg some isRule)

/-- The left operand fails, or it has its type and the right one fails, or both have types and
the operator fails. -/
theorem binary
    {left right : Tree}
    (operator : BinaryOperator) (position : Position)
    (leftStops : program.StopsIn left)
    (rightStops : program.StopsIn right) :
    program.StopsIn (.binary operator position left right) := by
  intro start parent? fault holds failed
  have place : start + (Tree.binary operator position left right).descendants =
      start + left.descendants + 1 + right.descendants + 1 := by
    rw [Tree.descendants_binary]
    omega
  obtain ⟨leftHolds, rightHolds, top⟩ := holds_of_reached_binary holds
  have topUntagged := (recordedTy?_of_expression top).trans
    (Tree.typing_of_typeIn_eq_error failed)
  rw [place]
  rcases (bind_eq_error_iff _ _ _).mp failed with leftFailed | ⟨leftTy, leftTyped, rest⟩
  · rw [leftFailed] at rightHolds
    obtain ⟨failing, stops⟩ := leftStops _ _ _ leftHolds leftFailed
    have stopsInOperands := stops.extend
      (by omega : start + left.descendants ≤ start + left.descendants + 1 + right.descendants)
      fun id behind inRange => recordedTy?_of_untagged_layout rightHolds behind inRange
    exact ⟨failing, stopsInOperands.succ topUntagged⟩
  rw [leftTyped] at rightHolds
  rw [Tree.reached_of_typeIn_eq_ok _ _ leftTyped] at leftHolds
  have leftTypedAt : ∀ id : Nat, start ≤ id -> id < start + left.descendants + 1 ->
      program.TypedAt id := fun id least inFront =>
    typedAt_of_layout (.refl _) leftHolds leftTyped least (Nat.le_of_lt_succ inFront)
  rcases (bind_eq_error_iff _ _ _).mp rest with rightFailed | ⟨rightTy, rightTyped, isRule⟩
  · obtain ⟨failing, stops⟩ := rightStops _ _ _ rightHolds rightFailed
    exact ⟨failing, (stops.prepend (by omega) leftTypedAt).succ topUntagged⟩
  -- Both operands have their types, so the rule of the operator itself has failed.
  have rightTypedHolds : program.Holds (start + left.descendants + 1)
      (right.layout (Tree.typing program.symbols) (start + left.descendants + 1)
        (some (start + left.descendants + 1 + right.descendants + 1))) := by
    rw [← Tree.reached_of_typeIn_eq_ok _ _ rightTyped]
    exact rightHolds
  refine ⟨_, .last (by omega) (fun id least inFront => ?_) ?_ topUntagged⟩
  · rcases Nat.lt_or_ge id (start + left.descendants + 1) with inLeft | inRight
    · exact leftTypedAt id least inLeft
    · exact typedAt_of_layout (.refl _) rightTypedHolds rightTyped inRight
        (Nat.le_of_lt_succ inFront)
  · have leftTypedAs := typedAs_of_layout (.refl _) leftHolds leftTyped
    have rightTypedAs := typedAs_of_layout (.refl _) rightTypedHolds rightTyped
    rw [verdict?_of_expression top]
    exact (formVerdict?_binary leftTypedAs.2 rightTypedAs.2 _ _).trans (congrArg some isRule)

end StopsIn

/-- An inference that fails in a tree stops at one of its nodes. -/
theorem stopsIn_tree (tree : Tree) : program.StopsIn tree := by
  induction tree with
  | leaf content position => exact .leaf content position
  | unary operator position operand inductionHypothesis =>
      exact .unary operator position inductionHypothesis
  | binary operator position left right leftHypothesis rightHypothesis =>
      exact .binary operator position leftHypothesis rightHypothesis

section

variable {tree : Tree} {ty : Ty} {fault : Fault}

/-! ## Whole expressions -/

/-- All nodes of a well-typed expression stand for the types that their rules give. -/
theorem typedAt_of_expressionLayout
    {id : Nat}
    (grows : symbols.Grows program.symbols)
    (holds : program.Holds start (tree.expressionLayout (Tree.typing symbols) start parent?))
    (typed : tree.typeIn symbols = .ok ty)
    (least : start ≤ id)
    (greatest : id ≤ start + tree.expressionDescendants) :
    program.TypedAt id := by
  cases tree with
  | unary operator position operand => exact typedAt_of_layout grows holds typed least greatest
  | binary operator position left right =>
      exact typedAt_of_layout grows holds typed least greatest
  | leaf content position =>
      have isTag := Tree.typing_of_typeIn_eq_ok typed
      have top := node?_of_expressionLayout holds
      change program.Holds start ([_] ++ [_]) at holds
      rw [holds_append, holds_singleton] at holds
      have leafTypedAs := typedAs_of_leaf holds.1 (Leaf.typeIn_of_grows grows typed)
      rcases Nat.eq_or_lt_of_le greatest with rfl | below
      · refine ⟨ty, ?_, (operandTy?_of_expression top).trans isTag⟩
        rw [verdict?_of_expression top, Tree.form, formVerdict?, leafTypedAs.2, Option.map_some]
      · obtain rfl := Nat.le_antisymm (Nat.le_of_lt_succ below) least
        exact ⟨ty, leafTypedAs⟩

/-- No type is recorded in an expression that no inference has come to. -/
theorem recordedTy?_of_untagged_expressionLayout
    {id : Nat}
    (holds : program.Holds start (tree.expressionLayout Tree.untagged start parent?))
    (least : start ≤ id)
    (greatest : id ≤ start + tree.expressionDescendants) :
    program.recordedTy? id = none := by
  cases tree with
  | unary operator position operand =>
      exact recordedTy?_of_untagged_layout holds least greatest
  | binary operator position left right =>
      exact recordedTy?_of_untagged_layout holds least greatest
  | leaf content position =>
      have top := node?_of_expressionLayout holds
      change program.Holds start ([_] ++ [_]) at holds
      rw [holds_append, holds_singleton] at holds
      rcases Nat.eq_or_lt_of_le greatest with rfl | below
      · exact recordedTy?_of_expression top
      · obtain rfl := Nat.le_antisymm (Nat.le_of_lt_succ below) least
        exact recordedTy?_of_leaf holds.1

/-- An inference that fails in an expression stops at one of its nodes.  A bare leaf fails in
front of the expression that it stands below. -/
theorem exists_stopsAmong_of_expressionReached
    (holds : program.Holds start (tree.expressionReached program.symbols start parent?))
    (failed : tree.typeIn program.symbols = .error fault) :
    ∃ failing, program.StopsAmong start (start + tree.expressionDescendants) failing fault := by
  cases tree with
  | unary operator position operand => exact stopsIn_tree _ _ _ _ holds failed
  | binary operator position left right => exact stopsIn_tree _ _ _ _ holds failed
  | leaf content position =>
      have topUntagged := (recordedTy?_of_expression (node?_of_expressionLayout holds)).trans
        (Tree.typing_of_typeIn_eq_error failed)
      change program.Holds start ([_] ++ [_]) at holds
      rw [holds_append] at holds
      obtain ⟨failing, stops⟩ := stopsIn_tree (.leaf content position) _ _ _ holds.1 failed
      exact ⟨failing, stops.succ topUntagged⟩

end

end Program
end ScriptLang
