import ScriptLang.Program.Printer
import ScriptLang.Proofs.Program.Ascent
import ScriptLang.Proofs.Program.Unplaced
import ScriptLang.Proofs.Token.Pieces
import ScriptLang.Proofs.Token.Printable

/-!
# The text of a program in pieces

The words, punctuation and layout that a program is printed as.  Every application
of an operator stands in parentheses, and every statement on a line of its own.
-/

namespace ScriptLang

open Source (Position)
open Token (Piece)
open Token.Piece (texts)

namespace Token

/-- A character of punctuation, at no place in particular. -/
def mark (kind : TokenKind) (character : Char) : Token :=
  ⟨kind, character.toString, default, .empty⟩

/-- A keyword without a leaf, at no place in particular. -/
def keyword (kind : TokenKind) (word : String) : Token :=
  ⟨kind, word, default, .empty⟩

theorem isPunctuation_mark
    {kind : TokenKind} {character : Char}
    (isPunctuation : punctuation? character = some kind) :
    (mark kind character).IsPunctuation :=
  ⟨rfl, character, isPunctuation, rfl⟩

theorem text_mark (kind : TokenKind) (character : Char) :
    (mark kind character).value.toList = [character] :=
  String.toList_singleton character

end Token

open Token (mark keyword)

namespace BinaryOperator

/-- The punctuation of an operator, before pairs are joined. -/
def marks : BinaryOperator -> List Token
  | .add => [mark .plus '+']
  | .subtract => [mark .minus '-']
  | .multiply => [mark .asterisk '*']
  | .divide => [mark .slash '/']
  | .equals => [mark .equal '=', mark .equal '=']
  | .notEquals => [mark .not '!', mark .equal '=']
  | .less => [mark .less '<']
  | .lessEquals => [mark .less '<', mark .equal '=']
  | .greater => [mark .greater '>']
  | .greaterEquals => [mark .greater '>', mark .equal '=']
  | .and => [mark .and '&']
  | .or => [mark .or '|']

theorem texts_marks (operator : BinaryOperator) :
    texts (operator.marks.map Piece.written) = operator.symbol.toList := by
  cases operator <;> rfl

end BinaryOperator

namespace UnaryOperator

/-- The punctuation of an operator. -/
def sign : UnaryOperator -> Token
  | .arithmeticNegation => mark .tilde '~'
  | .logicalNegation => mark .not '!'

theorem text_sign (operator : UnaryOperator) :
    operator.sign.value.toList = operator.symbol.toList := by
  cases operator <;> rfl

end UnaryOperator

namespace Tree

/-- The pieces that an expression is printed as. -/
def pieces : Tree -> List Piece
  | .leaf content _ => [.written content.token]
  | .unary operator _ operand =>
      .written (mark .openParenthesis '(') :: .written operator.sign ::
        (operand.pieces ++ [.written (mark .closeParenthesis ')')])
  | .binary operator _ left right =>
      .written (mark .openParenthesis '(') ::
        (left.pieces ++ .blank :: (operator.marks.map Piece.written ++
          .blank :: (right.pieces ++ [.written (mark .closeParenthesis ')')])))

theorem pieces_unplaced (tree : Tree) : tree.unplaced.pieces = tree.pieces := by
  induction tree with
  | leaf content position => rfl
  | unary operator position operand inductionHypothesis =>
      rw [unplaced, pieces, pieces, inductionHypothesis]
  | binary operator position left right leftHypothesis rightHypothesis =>
      rw [unplaced, pieces, pieces, leftHypothesis, rightHypothesis]

end Tree

namespace StatementTree

/-- The pieces of a type keyword that may be absent. -/
def typePieces : Option LeafAt -> List Piece
  | none => []
  | some leaf => [.blank, .written leaf.content.token]

/-- The pieces of an initial value that may be absent. -/
def initializerPieces : Option Tree -> List Piece
  | none => []
  | some tree => .blank :: .written (mark .equal '=') :: .blank :: tree.pieces

/-- The pieces that a statement is printed as. -/
def pieces : StatementTree -> List Piece
  | .declaration _ identifier typeKeyword expression =>
      .written (keyword .declaration "declare") :: .blank ::
        .written identifier.content.token :: .blank :: .written (mark .colon ':') ::
          (typePieces typeKeyword ++ (initializerPieces expression ++
            [.written (mark .semicolon ';')]))
  | .assignment _ identifier expression =>
      .written identifier.content.token :: .blank :: .written (mark .colon ':') ::
        .written (mark .equal '=') :: .blank ::
          (expression.pieces ++ [.written (mark .semicolon ';')])
  | .input _ identifier =>
      [.written (keyword .standardInput "stdin"), .blank, .written identifier.content.token,
        .written (mark .semicolon ';')]
  | .output _ expression =>
      .written (keyword .standardOutput "stdout") :: .blank ::
        (expression.pieces ++ [.written (mark .semicolon ';')])

theorem pieces_unplaced (statement : StatementTree) :
    statement.unplaced.pieces = statement.pieces := by
  cases statement with
  | declaration position identifier typeKeyword expression =>
      have sameType : typePieces (typeKeyword.map LeafAt.unplaced) = typePieces typeKeyword := by
        cases typeKeyword <;> rfl
      have sameInitializer : initializerPieces (expression.map Tree.unplaced) =
          initializerPieces expression := by
        cases expression with
        | none => rfl
        | some tree =>
            rw [Option.map_some, initializerPieces, initializerPieces, Tree.pieces_unplaced]
      rw [unplaced, pieces, pieces, sameType, sameInitializer]
      rfl
  | assignment position identifier expression =>
      rw [unplaced, pieces, pieces, Tree.pieces_unplaced]
      rfl
  | input position identifier => rfl
  | output position expression =>
      rw [unplaced, pieces, pieces, Tree.pieces_unplaced]

/-- The pieces that statements are printed as. -/
def programPieces (statements : List StatementTree) : List Piece :=
  statements.flatMap fun statement => statement.pieces ++ [.newLine]

theorem programPieces_unplaced (statements : List StatementTree) :
    programPieces (statements.map unplaced) = programPieces statements := by
  unfold programPieces
  rw [List.flatMap_map]
  simp only [pieces_unplaced]

end StatementTree

namespace Program

variable {program : Program} {tag : Tree.Tagging}

/-- The text of a node that is found. -/
theorem nodeText_of_node?
    {id : NodeId} {node : Node}
    (depth : Nat)
    (found : program.node? id = some node) :
    program.nodeText (depth + 1) id = kindText (program.nodeText depth) node.kind := by
  rw [nodeText, found]

/-- A leaf that stands in a program is written as it is. -/
theorem toList_nodeText_of_leaf
    {id : NodeId} {node : Node} {content : Leaf} {depth : Nat}
    (found : program.node? id = some node)
    (isLeaf : node.kind = .leaf content)
    (deep : 0 < depth) :
    (program.nodeText depth id).toList = texts [.written content.token] := by
  obtain ⟨lower, rfl⟩ := Nat.exists_eq_add_one_of_ne_zero (Nat.ne_of_gt deep)
  rw [nodeText_of_node? lower found, isLeaf]
  exact (List.append_nil _).symm

/-- A tree that stands in a program is written in its pieces. -/
theorem toList_nodeText_of_layout
    {tree : Tree} {start depth : Nat} {parent? : Option NodeId}
    (holds : program.Holds start (tree.layout tag start parent?))
    (deep : tree.descendants < depth) :
    (program.nodeText depth (start + tree.descendants)).toList = texts tree.pieces := by
  induction tree generalizing start depth parent? with
  | leaf content position =>
      have found := (holds_singleton ..).mp holds
      exact toList_nodeText_of_leaf found rfl deep
  | unary operator position operand inductionHypothesis =>
      rw [Tree.layout_unary, holds_append, holds_singleton, Tree.length_layout] at holds
      obtain ⟨operandHolds, topFound⟩ := holds
      rw [Tree.descendants_unary] at deep ⊢
      obtain ⟨lower, rfl⟩ := Nat.exists_eq_add_one_of_ne_zero (Nat.ne_zero_of_lt deep)
      have operandText := inductionHypothesis operandHolds (Nat.lt_of_succ_lt_succ deep)
      have text := nodeText_of_node? lower topFound
      have sign := operator.text_sign
      rw [text]
      simp only [Tree.node, Tree.kind, Tree.form, kindText, expressionText, String.toList_append,
        operandText, Tree.pieces, Piece.texts_cons, Piece.texts_append, Piece.text, sign,
        Token.text_mark, Piece.texts_nil]
      simp
  | binary operator position left right leftHypothesis rightHypothesis =>
      rw [Tree.layout_binary, holds_append, holds_append, holds_singleton, List.length_append,
        Tree.length_layout, Tree.length_layout] at holds
      obtain ⟨⟨leftHolds, rightHolds⟩, topFound⟩ := holds
      rw [Tree.descendants_binary] at deep
      obtain ⟨lower, rfl⟩ := Nat.exists_eq_add_one_of_ne_zero (Nat.ne_zero_of_lt deep)
      have leftText : (program.nodeText lower (start + left.descendants)).toList = _ :=
        leftHypothesis leftHolds (by omega)
      have rightText : (program.nodeText lower
          (start + left.descendants + 1 + right.descendants)).toList = _ :=
        rightHypothesis rightHolds (by omega)
      have text := nodeText_of_node? lower topFound
      have top : start + (left.descendants + right.descendants + 2) =
          start + (left.descendants + 1 + (right.descendants + 1)) := by omega
      have symbol := operator.texts_marks
      rw [Tree.descendants_binary, top, text]
      simp only [Tree.node, Tree.kind, Tree.form, kindText, expressionText, String.toList_append,
        leftText, rightText, Tree.pieces, Piece.texts_cons, Piece.texts_append, Piece.text,
        symbol, Token.text_mark, Piece.texts_nil]
      simp

/-- A whole expression that stands in a program is written in its pieces. -/
theorem toList_nodeText_of_expressionLayout
    {tree : Tree} {start depth : Nat} {parent? : Option NodeId}
    (holds : program.Holds start (tree.expressionLayout tag start parent?))
    (deep : tree.expressionDescendants < depth) :
    (program.nodeText depth (start + tree.expressionDescendants)).toList =
      texts tree.pieces := by
  cases tree with
  | unary operator position operand =>
      let tree := Tree.unary operator position operand
      have text : (program.nodeText depth (start + tree.descendants)).toList = texts tree.pieces :=
        toList_nodeText_of_layout holds deep
      exact text
  | binary operator position left right =>
      let tree := Tree.binary operator position left right
      have text : (program.nodeText depth (start + tree.descendants)).toList = texts tree.pieces :=
        toList_nodeText_of_layout holds deep
      exact text
  | leaf content position =>
      change program.Holds start ([_] ++ [_]) at holds
      rw [holds_append, holds_singleton, holds_singleton] at holds
      obtain ⟨leafFound, topFound⟩ := holds
      obtain ⟨lower, rfl⟩ := Nat.exists_eq_add_one_of_ne_zero (Nat.ne_zero_of_lt deep)
      have text := nodeText_of_node? lower topFound
      have leafText := toList_nodeText_of_leaf leafFound rfl (Nat.lt_of_succ_lt_succ deep)
      change (program.nodeText (lower + 1) (start + 1)).toList = _
      change program.nodeText (lower + 1) (start + 1) = program.nodeText lower start at text
      rw [text]
      exact leafText

section

variable {statement : StatementTree} {start depth : Nat} {parent? : Option NodeId}

/-- A leaf of a statement is written as it is. -/
theorem toList_nodeText_of_statementLeaf
    {index : Nat} {leaf : LeafAt}
    (holds : program.Holds start (statement.layout tag start parent?))
    (deep : statement.descendants ≤ depth)
    (isLeaf : statement.leaves[index]? = some leaf) :
    (program.nodeText depth (start + index)).toList = leaf.content.token.value.toList := by
  obtain ⟨leavesHold, _, _⟩ := holds_statement holds
  have inRange := (List.getElem?_eq_some_iff.mp isLeaf).1
  have found := leavesHold index (by rw [List.length_map]; exact inRange)
  rw [List.getElem?_map, isLeaf] at found
  have positive : 0 < depth := by
    unfold StatementTree.descendants at deep
    omega
  exact (toList_nodeText_of_leaf found rfl positive).trans (List.append_nil _)

/-- The expression of a statement is written in its pieces. -/
theorem toList_nodeText_of_statementExpression
    {tree : Tree}
    (holds : program.Holds start (statement.layout tag start parent?))
    (deep : statement.descendants ≤ depth)
    (isExpression : statement.expression? = some tree) :
    (program.nodeText depth (statement.expressionTop start tree)).toList = texts tree.pieces := by
  obtain ⟨_, expressionHolds, _⟩ := holds_statement holds
  rw [isExpression] at expressionHolds
  have size : StatementTree.expressionSize (some tree) = tree.expressionDescendants + 1 := rfl
  unfold StatementTree.descendants at deep
  rw [isExpression] at deep
  apply toList_nodeText_of_expressionLayout expressionHolds
  omega

/-- The type keyword of a declaration is written behind a blank. -/
theorem toList_typeText
    {place : Position} {identifier : LeafAt} {typeKeyword : Option LeafAt}
    {expression : Option Tree}
    (holds : program.Holds start
      ((StatementTree.declaration place identifier typeKeyword expression).layout tag start
        parent?))
    (deep : (StatementTree.declaration place identifier typeKeyword expression).descendants ≤
      depth) :
    (((typeKeyword.map fun _ => start + 1).map fun id =>
        " " ++ program.nodeText depth id).getD "").toList =
      texts (StatementTree.typePieces typeKeyword) := by
  cases typeKeyword with
  | none => rfl
  | some leaf =>
      have keywordText : (program.nodeText depth (start + 1)).toList =
          leaf.content.token.value.toList := toList_nodeText_of_statementLeaf holds deep rfl
      simp only [Option.map_some, Option.getD_some, String.toList_append, keywordText,
        StatementTree.typePieces, Piece.texts_cons, Piece.texts_nil, List.append_nil]
      rfl

/-- The initial value of a declaration is written behind an equals sign. -/
theorem toList_initializerText
    {place : Position} {identifier : LeafAt} {typeKeyword : Option LeafAt}
    {expression : Option Tree}
    (holds : program.Holds start
      ((StatementTree.declaration place identifier typeKeyword expression).layout tag start
        parent?))
    (deep : (StatementTree.declaration place identifier typeKeyword expression).descendants ≤
      depth) :
    (((expression.map
        ((StatementTree.declaration place identifier typeKeyword expression).expressionTop
          start)).map fun id => " = " ++ program.nodeText depth id).getD "").toList =
      texts (StatementTree.initializerPieces expression) := by
  cases expression with
  | none => rfl
  | some tree =>
      have valueText := toList_nodeText_of_statementExpression holds deep rfl
      simp only [Option.map_some, Option.getD_some, String.toList_append, valueText]
      rfl

/-- A statement that stands in a program is written in its pieces. -/
theorem toList_nodeText_of_statement
    (holds : program.Holds start (statement.layout tag start parent?))
    (deep : statement.descendants < depth) :
    (program.nodeText depth (start + statement.descendants)).toList =
      texts statement.pieces := by
  obtain ⟨_, _, topFound⟩ := holds_statement holds
  obtain ⟨lower, rfl⟩ := Nat.exists_eq_add_one_of_ne_zero (Nat.ne_zero_of_lt deep)
  have deepEnough := Nat.le_of_lt_succ deep
  have text := nodeText_of_node? lower topFound
  have nameText : ∀ leaf, statement.leaves[0]? = some leaf ->
      (program.nodeText lower start).toList = leaf.content.token.value.toList :=
    fun leaf isFirst => toList_nodeText_of_statementLeaf holds deepEnough isFirst
  have expressionText : ∀ tree, statement.expression? = some tree -> _ :=
    fun tree isExpression => toList_nodeText_of_statementExpression holds deepEnough isExpression
  rw [text]
  cases statement with
  | declaration position identifier typeKeyword expression =>
      have name := nameText identifier rfl
      have typeText := toList_typeText holds deepEnough
      have initializerText := toList_initializerText holds deepEnough
      simp only [StatementTree.node, StatementTree.form, kindText, statementText,
        String.toList_append, typeText, initializerText, name, StatementTree.pieces,
        Piece.texts_cons, Piece.texts_append, Piece.text, Token.text_mark, Piece.texts_nil]
      simp [keyword]
  | assignment position identifier expression =>
      have name := nameText identifier rfl
      have valueText := expressionText expression rfl
      simp only [StatementTree.node, StatementTree.form, kindText, statementText,
        String.toList_append, valueText, name, StatementTree.pieces,
        Piece.texts_cons, Piece.texts_append, Piece.text, Token.text_mark, Piece.texts_nil]
      simp
  | input position identifier =>
      have name := nameText identifier rfl
      simp only [StatementTree.node, StatementTree.form, kindText, statementText,
        String.toList_append, name, StatementTree.pieces, Piece.texts_cons, Piece.text,
        Token.text_mark, Piece.texts_nil]
      simp [keyword]
  | output position expression =>
      have valueText := expressionText expression rfl
      simp only [StatementTree.node, StatementTree.form, kindText, statementText,
        String.toList_append, valueText, StatementTree.pieces,
        Piece.texts_cons, Piece.texts_append, Piece.text, Token.text_mark, Piece.texts_nil]
      simp [keyword]

end

/-- The statements of a block are written one after the other, each on its own line. -/
theorem toList_foldl_lines (textOf : NodeId -> String) (ids : List NodeId) (text : String) :
    (ids.foldl (fun text id => text ++ textOf id ++ "\n") text).toList =
      text.toList ++ ids.flatMap fun id => (textOf id).toList ++ ['\n'] := by
  induction ids generalizing text with
  | nil => exact (List.append_nil _).symm
  | cons first rest inductionHypothesis =>
      rw [List.foldl_cons, inductionHypothesis, List.flatMap_cons, String.toList_append,
        String.toList_append, List.append_assoc, List.append_assoc, List.append_assoc]
      rfl

theorem texts_programPieces_cons (first : StatementTree) (rest : List StatementTree) :
    texts (StatementTree.programPieces (first :: rest)) =
      texts first.pieces ++ ['\n'] ++ texts (StatementTree.programPieces rest) := by
  unfold StatementTree.programPieces
  rw [List.flatMap_cons, Piece.texts_append, Piece.texts_append]
  rfl

/-- Statements that stand in a program are written in their pieces. -/
theorem flatMap_nodeText_tops
    {statements : List Tagged} {start depth : Nat}
    (holds : program.Holds start (Tagged.layouts start statements))
    (deep : Tagged.extent statements ≤ depth) :
    ((Tagged.tops start statements).flatMap fun id =>
        (program.nodeText depth id).toList ++ ['\n']) =
      texts (StatementTree.programPieces (statements.map Tagged.statement)) := by
  induction statements generalizing start with
  | nil => rfl
  | cons first rest inductionHypothesis =>
      rw [Tagged.layouts, holds_append, StatementTree.length_layout] at holds
      obtain ⟨firstHolds, restHolds⟩ := holds
      rw [Tagged.extent] at deep
      have firstText := toList_nodeText_of_statement firstHolds (by omega : _ < depth)
      have restText := inductionHypothesis restHolds (by omega)
      rw [Tagged.tops, List.flatMap_cons, firstText, List.map_cons, texts_programPieces_cons]
      exact congrArg _ restText

/-- A program is printed in the pieces of its statements. -/
theorem toList_toText_assemble
    (position : Position) (symbols : SymbolTable) (statements : List Tagged) :
    (assemble position symbols statements).toText.toList =
      texts (StatementTree.programPieces (statements.map Tagged.statement)) := by
  let program := assemble position symbols statements
  have size : program.size = Tagged.extent statements + 2 := by
    rw [size_assemble, Nat.add_comm]
  have root : program.node? 1 = some ⟨.program 0, position, none⟩ := by
    unfold program assemble
    rw [node?_extend_of_lt _ (Nat.lt_succ_self 1)]
    rfl
  have block : program.node? 0 =
      some ⟨.codeBlock (Tagged.tops 2 statements) symbols, position, some 1⟩ :=
    node?_frame_zero _ _ _ _
  have holds : program.Holds 2 (Tagged.layouts 2 statements) :=
    holds_extend (frame position (Tagged.tops 2 statements) symbols) _
  change (program.nodeText program.size 1).toList = _
  rw [size, nodeText_of_node? _ root, kindText, nodeText_of_node? _ block, kindText,
    toList_foldl_lines]
  exact flatMap_nodeText_tops holds (Nat.le_refl _)

end Program
end ScriptLang
