import Mathlib.Data.Option.Basic
import ScriptLang.Proofs.Program.Unplaced
import ScriptLang.Proofs.Running

/-!
# Twins

Two tokens are twins when they differ in their places only, and the places of the
one are related to those of the other.  Trees, symbols and faults have twins in the
same sense.  No stage behind the scanner decides anything by a place, so from twins
it makes twins.
-/

namespace ScriptLang

open Source (Position)

variable (same : Position -> Position -> Prop)

/-- Two tokens that differ in their places only. -/
inductive Token.Twin : Token -> Token -> Prop
  | intro
      (kind : TokenKind) (value : String) (payload : Payload)
      {start stop otherStart otherStop : Position}
      (sameStart : same start otherStart)
      (sameStop : same stop otherStop) :
      Twin ⟨kind, value, ⟨start, stop⟩, payload⟩ ⟨kind, value, ⟨otherStart, otherStop⟩, payload⟩

/-- Two expressions that differ in their places only. -/
inductive Tree.Twin : Tree -> Tree -> Prop
  | leaf
      (content : Leaf)
      {position other : Position}
      (samePlace : same position other) :
      Twin (.leaf content position) (.leaf content other)
  | unary
      (operator : UnaryOperator)
      {position other : Position} {operand otherOperand : Tree}
      (samePlace : same position other)
      (operands : Twin operand otherOperand) :
      Twin (.unary operator position operand) (.unary operator other otherOperand)
  | binary
      (operator : BinaryOperator)
      {position other : Position} {left right otherLeft otherRight : Tree}
      (samePlace : same position other)
      (lefts : Twin left otherLeft)
      (rights : Twin right otherRight) :
      Twin (.binary operator position left right) (.binary operator other otherLeft otherRight)

/-- Two leaves that differ in their places only. -/
inductive LeafAt.Twin : LeafAt -> LeafAt -> Prop
  | intro
      (content : Leaf)
      {position other : Position}
      (samePlace : same position other) :
      Twin ⟨content, position⟩ ⟨content, other⟩

/-- Two statements that differ in their places only. -/
inductive StatementTree.Twin : StatementTree -> StatementTree -> Prop
  | declaration
      {position other : Position} {identifier otherIdentifier : LeafAt}
      {typeKeyword otherTypeKeyword : Option LeafAt} {expression otherExpression : Option Tree}
      (samePlace : same position other)
      (identifiers : LeafAt.Twin same identifier otherIdentifier)
      (typeKeywords : Option.Rel (LeafAt.Twin same) typeKeyword otherTypeKeyword)
      (expressions : Option.Rel (Tree.Twin same) expression otherExpression) :
      Twin (.declaration position identifier typeKeyword expression)
        (.declaration other otherIdentifier otherTypeKeyword otherExpression)
  | assignment
      {position other : Position} {identifier otherIdentifier : LeafAt}
      {expression otherExpression : Tree}
      (samePlace : same position other)
      (identifiers : LeafAt.Twin same identifier otherIdentifier)
      (expressions : Tree.Twin same expression otherExpression) :
      Twin (.assignment position identifier expression)
        (.assignment other otherIdentifier otherExpression)
  | input
      {position other : Position} {identifier otherIdentifier : LeafAt}
      (samePlace : same position other)
      (identifiers : LeafAt.Twin same identifier otherIdentifier) :
      Twin (.input position identifier) (.input other otherIdentifier)
  | output
      {position other : Position} {expression otherExpression : Tree}
      (samePlace : same position other)
      (expressions : Tree.Twin same expression otherExpression) :
      Twin (.output position expression) (.output other otherExpression)

/-- Two symbols that differ in the lines of their declarations only. -/
inductive Symbol.Twin : Symbol -> Symbol -> Prop
  | intro
      (identifier : String) (ty : Ty) (initialized : Bool)
      {position other : Position}
      (samePlace : same position other) :
      Twin ⟨identifier, ty, initialized, position.line⟩ ⟨identifier, ty, initialized, other.line⟩

/-- Two symbol tables whose symbols are twins. -/
def SymbolTable.Twin (first second : SymbolTable) : Prop :=
  ∀ identifier,
    Option.Rel (Symbol.Twin same) (first.get? identifier) (second.get? identifier)

/-- Two internal causes that differ in places only. -/
inductive InternalCause.Twin : InternalCause -> InternalCause -> Prop
  | noLeaf
      {token other : Token}
      (tokens : Token.Twin same token other) :
      Twin (.noLeaf token) (.noLeaf other)
  | noBinding
      {token other : Token}
      (tokens : Token.Twin same token other) :
      Twin (.noBinding token) (.noBinding other)
  | notAnOperator
      {token other : Token}
      (tokens : Token.Twin same token other)
      (arity : Nat) :
      Twin (.notAnOperator token arity) (.notAnOperator other arity)
  | unplaced (cause : InternalCause) : Twin cause cause

/-- Two issues that differ in places only. -/
inductive Issue.Twin : Issue -> Issue -> Prop
  | syntaxError (cause : SyntaxCause) : Twin (.syntaxError cause) (.syntaxError cause)
  | typeError (cause : TypeCause) : Twin (.typeError cause) (.typeError cause)
  | internal
      {cause other : InternalCause}
      (causes : InternalCause.Twin same cause other) :
      Twin (.internal cause) (.internal other)
  | undeclared (identifier : String) : Twin (.undeclared identifier) (.undeclared identifier)
  | uninitialized (identifier : String) :
      Twin (.uninitialized identifier) (.uninitialized identifier)
  | duplicate
      (identifier : String)
      {position other : Position}
      (samePlace : same position other) :
      Twin (.duplicate identifier position.line) (.duplicate identifier other.line)

/-- Two faults that report twins at related places. -/
inductive Fault.Twin : Fault -> Fault -> Prop
  | report
      {issue otherIssue : Issue} {position other : Position}
      (issues : Issue.Twin same issue otherIssue)
      (samePlace : same position other) :
      Twin (.report ⟨issue, position⟩) (.report ⟨otherIssue, other⟩)

variable {same}
variable {α β γ δ : Type}

/-- Two results are values that are related, or faults that are twins. -/
inductive TwinResults (same : Position -> Position -> Prop) (related : α -> β -> Prop) :
    Except Fault α -> Except Fault β -> Prop
  | ok
      {value : α} {other : β}
      (values : related value other) :
      TwinResults same related (.ok value) (.ok other)
  | error
      {fault other : Fault}
      (faults : Fault.Twin same fault other) :
      TwinResults same related (.error fault) (.error other)

namespace TwinResults

variable {related : α -> β -> Prop}

/-- Second steps go on from related values. -/
theorem bind
    {later : γ -> δ -> Prop}
    {first : Except Fault α} {second : Except Fault β}
    {next : α -> Except Fault γ} {otherNext : β -> Except Fault δ}
    (twins : TwinResults same related first second)
    (nextTwins : ∀ value other, related value other ->
      TwinResults same later (next value) (otherNext other)) :
    TwinResults same later (first >>= next) (second >>= otherNext) := by
  cases twins with
  | ok values => exact nextTwins _ _ values
  | error faults => exact .error faults

variable {position other : Position}

theorem ofSyntax
    (cause : SyntaxCause)
    (samePlace : same position other) :
    TwinResults same related (.error (.ofSyntax cause position))
      (.error (.ofSyntax cause other)) :=
  .error (.report (.syntaxError cause) samePlace)

theorem ofType
    (cause : TypeCause)
    (samePlace : same position other) :
    TwinResults same related (.error (.ofType cause position)) (.error (.ofType cause other)) :=
  .error (.report (.typeError cause) samePlace)

theorem ofInternal
    {cause otherCause : InternalCause}
    (causes : InternalCause.Twin same cause otherCause)
    (samePlace : same position other) :
    TwinResults same related (.error (.ofInternal cause position))
      (.error (.ofInternal otherCause other)) :=
  .error (.report (.internal causes) samePlace)

end TwinResults

namespace Token.Twin

variable {token other : Token}

theorem kind_eq
    (twin : Token.Twin same token other) :
    token.kind = other.kind := by
  cases twin
  rfl

theorem value_eq
    (twin : Token.Twin same token other) :
    token.value = other.value := by
  cases twin
  rfl

theorem start
    (twin : Token.Twin same token other) :
    same token.span.start other.span.start := by
  cases twin with
  | intro kind value payload sameStart sameStop => exact sameStart

theorem stop
    (twin : Token.Twin same token other) :
    same token.span.stop other.span.stop := by
  cases twin with
  | intro kind value payload sameStart sameStop => exact sameStop

end Token.Twin

namespace Tree.Twin

variable {tree other : Tree}

theorem position
    (twin : Tree.Twin same tree other) :
    same tree.position other.position := by
  cases twin with
  | leaf content samePlace => exact samePlace
  | unary operator samePlace operands => exact samePlace
  | binary operator samePlace lefts rights => exact samePlace

/-- Twins are the same without their places. -/
theorem unplaced_eq
    (twin : Tree.Twin same tree other) :
    tree.unplaced = other.unplaced := by
  induction twin with
  | leaf content samePlace => rfl
  | unary operator samePlace operands inductionHypothesis =>
      rw [unplaced, unplaced, inductionHypothesis]
  | binary operator samePlace lefts rights leftHypothesis rightHypothesis =>
      rw [unplaced, unplaced, leftHypothesis, rightHypothesis]

theorem nesting_eq
    (twin : Tree.Twin same tree other) :
    tree.nesting = other.nesting := by
  rw [← tree.nesting_unplaced, twin.unplaced_eq, other.nesting_unplaced]

theorem isExpression_eq
    (twin : Tree.Twin same tree other) :
    tree.isExpression = other.isExpression := by
  cases twin with
  | leaf content samePlace => cases content <;> rfl
  | unary operator samePlace operands => rfl
  | binary operator samePlace lefts rights => rfl

end Tree.Twin

theorem LeafAt.Twin.position
    {leaf other : LeafAt}
    (twin : LeafAt.Twin same leaf other) :
    same leaf.position other.position := by
  cases twin with
  | intro content samePlace => exact samePlace

theorem LeafAt.Twin.unplaced_eq
    {leaf other : LeafAt}
    (twin : LeafAt.Twin same leaf other) :
    leaf.unplaced = other.unplaced := by
  cases twin
  rfl

/-- What is equal for related values is equal for optional ones. -/
theorem map_eq_of_rel
    {related : α -> α -> Prop} {value? other? : Option α}
    (view : α -> β)
    (sameView : ∀ value other, related value other -> view value = view other)
    (relatedValues : Option.Rel related value? other?) :
    value?.map view = other?.map view := by
  cases relatedValues with
  | none => rfl
  | some values => exact congrArg some (sameView _ _ values)

namespace StatementTree.Twin

variable {statement other : StatementTree}

/-- Twins are the same without their places. -/
theorem unplaced_eq
    (twin : StatementTree.Twin same statement other) :
    statement.unplaced = other.unplaced := by
  cases twin with
  | declaration samePlace identifiers typeKeywords expressions =>
      rw [unplaced, unplaced, identifiers.unplaced_eq,
        map_eq_of_rel LeafAt.unplaced (fun _ _ twin => twin.unplaced_eq) typeKeywords,
        map_eq_of_rel Tree.unplaced (fun _ _ twin => twin.unplaced_eq) expressions]
  | assignment samePlace identifiers expressions =>
      rw [unplaced, unplaced, identifiers.unplaced_eq, expressions.unplaced_eq]
  | input samePlace identifiers => rw [unplaced, unplaced, identifiers.unplaced_eq]
  | output samePlace expressions => rw [unplaced, unplaced, expressions.unplaced_eq]

/-- Twins take up equally many nodes. -/
theorem descendants_eq
    (twin : StatementTree.Twin same statement other) :
    statement.descendants = other.descendants := by
  rw [← statement.descendants_unplaced, twin.unplaced_eq, other.descendants_unplaced]

end StatementTree.Twin
end ScriptLang
