import ScriptLang.Proofs.Grammar.Whole
import ScriptLang.Proofs.Twin.Relation

/-!
# Reading twins

Twin tokens are read as twin statements, or refused with twin faults: every place
in a tree and every place that is reported is that of a token.
-/

namespace ScriptLang
namespace Grammar

open Source (Position)

variable {same : Position -> Position -> Prop}

theorem bindingOf_twin
    {token other : Token}
    (twin : Token.Twin same token other) :
    TwinResults same Eq (bindingOf token) (bindingOf other) := by
  have tokens := twin
  cases twin with
  | intro kind value payload sameStart sameStop =>
      cases payload with
      | operator binding => exact .ok rfl
      | empty => exact .ofInternal (.noBinding tokens) sameStart
      | leaf content => exact .ofInternal (.noBinding tokens) sameStart

namespace Forest

/-- Two states of reading whose operators and trees are twins. -/
structure Twin (same : Position -> Position -> Prop) (forest other : Forest) : Prop where
  operators : List.Forall₂ (Token.Twin same) forest.operators other.operators
  trees : List.Forall₂ (Tree.Twin same) forest.trees other.trees

variable (limit : Nat)
variable {token otherToken : Token} {forest otherForest : Forest}
variable {trees otherTrees : List Tree} {operators otherOperators : List Token}

theorem leafOf_twin
    (twin : Token.Twin same token otherToken) :
    TwinResults same (Tree.Twin same) (leafOf token) (leafOf otherToken) := by
  have tokens := twin
  cases twin with
  | intro kind value payload sameStart sameStop =>
      cases payload with
      | leaf content => exact .ok (.leaf content sameStart)
      | empty => exact .ofInternal (.noLeaf tokens) sameStart
      | operator binding => exact .ofInternal (.noLeaf tokens) sameStart

/-- Twin operators make twins of twins. -/
theorem applyTo_twin
    (twin : Token.Twin same token otherToken)
    (treesTwin : List.Forall₂ (Tree.Twin same) trees otherTrees) :
    TwinResults same
      (fun applied other => Tree.Twin same applied.1 other.1 ∧
        List.Forall₂ (Tree.Twin same) applied.2 other.2)
      (applyTo token trees) (applyTo otherToken otherTrees) := by
  have tokens := twin
  refine .bind (bindingOf_twin twin) ?_
  rintro ⟨precedence, arity⟩ _ rfl
  cases twin with
  | intro kind value payload sameStart sameStop =>
      have refusal : Fault.Twin same (.ofInternal _ _) (.ofInternal _ _) :=
        .report (.internal (.notAnOperator tokens arity)) sameStart
      have missing : Fault.Twin same (.ofSyntax (.missingOperand value) _) (.ofSyntax _ _) :=
        .report (.syntaxError (.missingOperand value)) sameStart
      rcases arity with _ | _ | _ | arity
      · exact .error refusal
      · cases treesTwin with
        | nil => exact .error missing
        | cons operandTwin othersTwin =>
            dsimp only
            cases kind.unaryOperator? with
            | none => exact .error refusal
            | some unary => exact .ok ⟨.unary unary sameStart operandTwin, othersTwin⟩
      · cases treesTwin with
        | nil => exact .error missing
        | cons rightTwin behindTwin =>
            cases behindTwin with
            | nil => exact .error missing
            | cons leftTwin othersTwin =>
                dsimp only
                cases kind.binaryOperator? with
                | none => exact .error refusal
                | some binary =>
                    exact .ok ⟨.binary binary sameStart leftTwin rightTwin, othersTwin⟩
      · exact .error refusal

/-- Twin operators replace twin operands by twins. -/
theorem combine_twin
    (twin : Token.Twin same token otherToken)
    (treesTwin : List.Forall₂ (Tree.Twin same) trees otherTrees) :
    TwinResults same (List.Forall₂ (Tree.Twin same)) (combine limit token trees)
      (combine limit otherToken otherTrees) := by
  refine .bind (applyTo_twin twin treesTwin) ?_
  rintro ⟨tree, others⟩ ⟨otherTree, otherOthers⟩ ⟨treeTwin, othersTwin⟩
  dsimp only
  rw [treeTwin.nesting_eq]
  split
  · exact .ofSyntax _ twin.start
  · exact .ok (.cons treeTwin othersTwin)

theorem settle_twin
    (precedence : Nat)
    (operatorsTwin : List.Forall₂ (Token.Twin same) operators otherOperators)
    (treesTwin : List.Forall₂ (Tree.Twin same) trees otherTrees) :
    TwinResults same (Twin same) (settle limit precedence operators trees)
      (settle limit precedence otherOperators otherTrees) := by
  induction operatorsTwin generalizing trees otherTrees with
  | nil => exact .ok ⟨.nil, treesTwin⟩
  | @cons top otherTop operators otherOperators topTwin operatorsTwin inductionHypothesis =>
      unfold settle
      rw [topTwin.kind_eq]
      split
      · exact .ok ⟨.cons topTwin operatorsTwin, treesTwin⟩
      · refine .bind (bindingOf_twin topTwin) ?_
        rintro binding _ rfl
        split
        · exact .ok ⟨.cons topTwin operatorsTwin, treesTwin⟩
        · exact .bind (combine_twin limit topTwin treesTwin) fun _ _ => inductionHypothesis

theorem close_twin
    (twin : Token.Twin same token otherToken)
    (forests : Twin same forest otherForest) :
    TwinResults same (Twin same) (close limit token forest)
      (close limit otherToken otherForest) := by
  refine .bind (settle_twin limit 0 forests.operators forests.trees) ?_
  rintro ⟨operators, trees⟩ ⟨otherOperators, otherTrees⟩ ⟨operatorsTwin, treesTwin⟩
  cases operatorsTwin with
  | nil => exact .ofSyntax _ twin.start
  | cons topTwin operatorsTwin => exact .ok ⟨operatorsTwin, treesTwin⟩

theorem finish_twin
    (forests : Twin same forest otherForest) :
    TwinResults same (List.Forall₂ (Tree.Twin same)) (finish limit forest)
      (finish limit otherForest) := by
  refine .bind (settle_twin limit 0 forests.operators forests.trees) ?_
  rintro ⟨operators, trees⟩ ⟨otherOperators, otherTrees⟩ ⟨operatorsTwin, treesTwin⟩
  cases operatorsTwin with
  | nil => exact .ok treesTwin
  | cons topTwin operatorsTwin => exact .ofSyntax _ topTwin.start

theorem readOperator_twin
    (twin : Token.Twin same token otherToken)
    (forests : Twin same forest otherForest) :
    TwinResults same (Twin same) (readOperator limit token forest)
      (readOperator limit otherToken otherForest) := by
  refine .bind (bindingOf_twin twin) ?_
  rintro binding _ rfl
  split
  · refine .bind (settle_twin limit binding.precedence forests.operators forests.trees) ?_
    intro settled otherSettled settledTwin
    exact .ok ⟨.cons twin settledTwin.operators, settledTwin.trees⟩
  · exact .ok ⟨.cons twin forests.operators, forests.trees⟩

/-- Twin tokens are read in the same way, since their kinds are the same. -/
theorem readToken_twin
    (twin : Token.Twin same token otherToken)
    (forests : Twin same forest otherForest) :
    TwinResults same (Twin same) (readToken limit token forest)
      (readToken limit otherToken otherForest) := by
  have leaves := leafOf_twin twin
  have operands : TwinResults same (Twin same)
      (leafOf token >>= fun tree => .ok ⟨forest.operators, tree :: forest.trees⟩)
      (leafOf otherToken >>= fun tree => .ok ⟨otherForest.operators, tree :: otherForest.trees⟩) :=
    .bind leaves fun tree other trees => .ok ⟨forests.operators, .cons trees forests.trees⟩
  have operators := readOperator_twin limit twin forests
  have closes := close_twin limit twin forests
  have tokens := twin
  cases twin with
  | intro kind value payload sameStart sameStop =>
      cases kind
      case identifier | literal => exact operands
      case openParenthesis => exact .ok ⟨.cons tokens forests.operators, forests.trees⟩
      case closeParenthesis => exact closes
      all_goals first | exact operators | exact .ofSyntax _ sameStart

theorem readTokens_twin
    {tokens others : List Token}
    (twins : List.Forall₂ (Token.Twin same) tokens others)
    (forests : Twin same forest otherForest) :
    TwinResults same (Twin same) (readTokens limit tokens forest)
      (readTokens limit others otherForest) := by
  induction twins generalizing forest otherForest with
  | nil => exact .ok forests
  | cons twin twins inductionHypothesis =>
      exact .bind (readToken_twin limit twin forests) fun _ _ => inductionHypothesis

theorem readAll_twin
    {tokens others : List Token}
    (twins : List.Forall₂ (Token.Twin same) tokens others) :
    TwinResults same (List.Forall₂ (Tree.Twin same)) (readAll limit tokens)
      (readAll limit others) :=
  .bind (readTokens_twin limit twins ⟨.nil, .nil⟩) fun _ _ => finish_twin limit

theorem single_twin
    {position other : Position}
    (start : Nat)
    (treesTwin : List.Forall₂ (Tree.Twin same) trees otherTrees)
    (samePlace : same position other) :
    TwinResults same (Tree.Twin same) (single start position trees)
      (single start other otherTrees) := by
  have leftover : TwinResults same (Tree.Twin same)
      (.error (.ofInternal (.leftoverOperands trees.length) position))
      (.error (.ofInternal (.leftoverOperands otherTrees.length) other)) := by
    rw [treesTwin.length_eq]
    exact .ofInternal (.unplaced _) samePlace
  cases treesTwin with
  | nil => exact leftover
  | cons treeTwin othersTwin =>
      cases othersTwin with
      | nil =>
          rw [single, single, treeTwin.isExpression_eq]
          split
          · exact .ok treeTwin
          · exact .ofInternal (.unplaced _) treeTwin.position
      | cons _ _ => exact leftover

/-- Twin tokens are read as twin expressions. -/
theorem parse_twin
    {tokens others : List Token} {position other : Position}
    (start : Nat)
    (twins : List.Forall₂ (Token.Twin same) tokens others)
    (samePlace : same position other) :
    TwinResults same (Tree.Twin same) (parse start tokens position)
      (parse start others other) := by
  cases twins with
  | nil => exact .ofSyntax _ samePlace
  | cons twin twins =>
      exact .bind (readAll_twin greatestDepth (.cons twin twins)) fun _ _ treesTwin =>
        single_twin start treesTwin samePlace

end Forest

/-- Two chunks whose tokens are twins. -/
structure Chunk.Twin (same : Position -> Position -> Prop) (chunk other : Chunk) : Prop where
  tokens : List.Forall₂ (Token.Twin same) chunk.tokens other.tokens
  semicolon : Token.Twin same chunk.semicolon other.semicolon

/-- Twin tokens are cut at the same places. -/
theorem chunks_twin
    {tokens others : List Token}
    (twins : List.Forall₂ (Token.Twin same) tokens others) :
    List.Forall₂ (Chunk.Twin same) (chunks tokens).1 (chunks others).1 ∧
      List.Forall₂ (Token.Twin same) (chunks tokens).2 (chunks others).2 := by
  induction twins with
  | nil => exact ⟨.nil, .nil⟩
  | @cons token other tokens others twin twins inductionHypothesis =>
      rw [chunks, chunks, twin.kind_eq]
      split
      · exact ⟨.cons ⟨.nil, twin⟩ inductionHypothesis.1, inductionHypothesis.2⟩
      · revert inductionHypothesis
        rcases chunks tokens with ⟨list, trailing⟩
        rcases chunks others with ⟨otherList, otherTrailing⟩
        rintro ⟨chunksTwin, trailingTwin⟩
        cases chunksTwin with
        | nil => exact ⟨.nil, .cons twin trailingTwin⟩
        | cons firstTwin restTwin =>
            exact ⟨.cons ⟨.cons twin firstTwin.tokens, firstTwin.semicolon⟩ restTwin, trailingTwin⟩

namespace Sentence

variable {tokens others : List Token} {stop otherStop : Position}
variable {token otherToken : Token}

theorem placeOf_twin
    (twins : List.Forall₂ (Token.Twin same) tokens others)
    (samePlace : same stop otherStop) :
    same (placeOf tokens stop) (placeOf others otherStop) := by
  cases twins with
  | nil => exact samePlace
  | cons twin twins => exact twin.start

theorem expectFirst_twin
    (kind : TokenKind) (expectation : Expectation)
    (twins : List.Forall₂ (Token.Twin same) tokens others)
    (samePlace : same stop otherStop) :
    TwinResults same
      (fun read other => Token.Twin same read.1 other.1 ∧
        List.Forall₂ (Token.Twin same) read.2 other.2)
      (expectFirst kind expectation stop tokens)
      (expectFirst kind expectation otherStop others) := by
  cases twins with
  | nil => exact .ofSyntax _ samePlace
  | cons twin twins =>
      have tokens := twin
      cases twin with
      | intro tokenKind value payload sameStart sameStop =>
          rw [expectFirst, expectFirst]
          dsimp only
          split
          · exact .ok ⟨tokens, twins⟩
          · exact .ofSyntax _ sameStart

theorem leafAt_twin
    (twin : Token.Twin same token otherToken) :
    TwinResults same (LeafAt.Twin same) (leafAt token) (leafAt otherToken) := by
  have tokens := twin
  cases twin with
  | intro kind value payload sameStart sameStop =>
      cases payload with
      | leaf content => exact .ok (.intro content sameStart)
      | empty => exact .ofInternal (.noLeaf tokens) sameStart
      | operator binding => exact .ofInternal (.noLeaf tokens) sameStart

theorem takeColon_twin
    (twins : List.Forall₂ (Token.Twin same) tokens others) :
    (takeColon tokens).1 = (takeColon others).1 ∧
      List.Forall₂ (Token.Twin same) (takeColon tokens).2 (takeColon others).2 := by
  cases twins with
  | nil => exact ⟨rfl, .nil⟩
  | cons twin twins =>
      have tokens := twin
      cases twin with
      | intro kind value payload sameStart sameStop =>
          rw [takeColon, takeColon]
          dsimp only
          split
          · exact ⟨rfl, twins⟩
          · exact ⟨rfl, .cons tokens twins⟩

theorem takeType_twin
    (hasColon : Bool) (name : String)
    (twins : List.Forall₂ (Token.Twin same) tokens others) :
    TwinResults same
      (fun read other => Option.Rel (LeafAt.Twin same) read.1 other.1 ∧
        List.Forall₂ (Token.Twin same) read.2 other.2)
      (takeType hasColon name tokens) (takeType hasColon name others) := by
  cases twins with
  | nil => exact .ok ⟨.none, .nil⟩
  | cons twin twins =>
      have tokens := twin
      have leaves := leafAt_twin twin
      cases twin with
      | intro kind value payload sameStart sameStop =>
          rw [takeType, takeType]
          dsimp only
          split
          · cases hasColon with
            | false => exact .ofSyntax _ sameStart
            | true => exact .bind leaves fun _ _ leafTwin => .ok ⟨.some leafTwin, twins⟩
          · exact .ok ⟨.none, .cons tokens twins⟩

theorem takeInitializer_twin
    (start : Nat)
    (twins : List.Forall₂ (Token.Twin same) tokens others)
    (samePlace : same stop otherStop) :
    TwinResults same
      (fun read other => Option.Rel (Tree.Twin same) read.1 other.1 ∧
        List.Forall₂ (Token.Twin same) read.2 other.2)
      (takeInitializer start stop tokens) (takeInitializer start otherStop others) := by
  cases twins with
  | nil => exact .ok ⟨.none, .nil⟩
  | cons twin twins =>
      have tokens := twin
      cases twin with
      | intro kind value payload sameStart sameStop =>
          rw [takeInitializer, takeInitializer]
          dsimp only
          split
          · refine .bind (Forest.parse_twin start twins (placeOf_twin twins samePlace)) ?_
            intro tree otherTree treeTwin
            exact .ok ⟨.some treeTwin, .nil⟩
          · exact .ok ⟨.none, .cons tokens twins⟩

/-- What is read of two statements: twins, and twins that are unread. -/
abbrev TwinReads (same : Position -> Position -> Prop)
    (read other : StatementTree × List Token) : Prop :=
  StatementTree.Twin same read.1 other.1 ∧ List.Forall₂ (Token.Twin same) read.2 other.2

theorem declaration_twin
    (start : Nat)
    (first : Token.Twin same token otherToken)
    (twins : List.Forall₂ (Token.Twin same) tokens others)
    (samePlace : same stop otherStop) :
    TwinResults same (TwinReads same) (declaration start stop token tokens)
      (declaration start otherStop otherToken others) := by
  refine .bind (expectFirst_twin .identifier .declaredName twins samePlace) ?_
  rintro ⟨identifierToken, rest⟩ ⟨otherIdentifierToken, otherRest⟩ ⟨identifierTwin, restTwin⟩
  refine .bind (leafAt_twin identifierTwin) ?_
  intro identifier otherIdentifier identifiers
  obtain ⟨sameColon, behindColon⟩ := takeColon_twin restTwin
  dsimp only
  rw [sameColon, identifierTwin.value_eq]
  refine .bind (takeType_twin _ _ behindColon) ?_
  rintro ⟨typeKeyword, behindType⟩ ⟨otherTypeKeyword, otherBehindType⟩ ⟨typeTwin, behindTwin⟩
  have sameCount : (identifier :: typeKeyword.toList).length =
      (otherIdentifier :: otherTypeKeyword.toList).length := by
    cases typeTwin <;> rfl
  dsimp only
  rw [sameCount]
  refine .bind (takeInitializer_twin _ behindTwin samePlace) ?_
  rintro ⟨expression, unread⟩ ⟨otherExpression, otherUnread⟩ ⟨expressionTwin, unreadTwin⟩
  have read : TwinResults same (TwinReads same)
      (.ok (.declaration token.span.start identifier typeKeyword expression, unread))
      (.ok (.declaration otherToken.span.start otherIdentifier otherTypeKeyword otherExpression,
        otherUnread)) :=
    .ok ⟨.declaration first.start identifiers typeTwin expressionTwin, unreadTwin⟩
  cases typeTwin with
  | some _ => exact read
  | none =>
      cases expressionTwin with
      | some _ => exact read
      | none => exact .ofSyntax _ first.start

theorem assignment_twin
    (start : Nat)
    (first : Token.Twin same token otherToken)
    (twins : List.Forall₂ (Token.Twin same) tokens others)
    (samePlace : same stop otherStop) :
    TwinResults same (TwinReads same) (assignment start stop token tokens)
      (assignment start otherStop otherToken others) := by
  have leaves := leafAt_twin first
  cases first with
  | intro kind value payload sameStart sameStop =>
      refine .bind leaves ?_
      intro identifier otherIdentifier identifiers
      refine .bind (expectFirst_twin .colon (.assignmentSign value) twins samePlace) ?_
      rintro ⟨colon, behindColon⟩ ⟨otherColon, otherBehindColon⟩ ⟨_, colonTwins⟩
      refine .bind (expectFirst_twin .equal (.assignmentSign value) colonTwins samePlace) ?_
      rintro ⟨equal, behindEqual⟩ ⟨otherEqual, otherBehindEqual⟩ ⟨_, equalTwins⟩
      refine .bind (Forest.parse_twin _ equalTwins (placeOf_twin equalTwins samePlace)) ?_
      intro tree otherTree treeTwin
      exact .ok ⟨.assignment sameStart identifiers treeTwin, .nil⟩

theorem input_twin
    (first : Token.Twin same token otherToken)
    (twins : List.Forall₂ (Token.Twin same) tokens others)
    (samePlace : same stop otherStop) :
    TwinResults same (TwinReads same) (input stop token tokens)
      (input otherStop otherToken others) := by
  cases first with
  | intro kind value payload sameStart sameStop =>
      refine .bind (expectFirst_twin .identifier .inputName twins samePlace) ?_
      rintro ⟨identifierToken, rest⟩ ⟨otherIdentifierToken, otherRest⟩ ⟨identifierTwin, restTwin⟩
      refine .bind (leafAt_twin identifierTwin) ?_
      intro identifier otherIdentifier identifiers
      exact .ok ⟨.input sameStart identifiers, restTwin⟩

theorem output_twin
    (start : Nat)
    (first : Token.Twin same token otherToken)
    (twins : List.Forall₂ (Token.Twin same) tokens others)
    (samePlace : same stop otherStop) :
    TwinResults same (TwinReads same) (output start stop token tokens)
      (output start otherStop otherToken others) := by
  cases first with
  | intro kind value payload sameStart sameStop =>
      refine .bind (Forest.parse_twin start twins (placeOf_twin twins samePlace)) ?_
      intro tree otherTree treeTwin
      exact .ok ⟨.output sameStart treeTwin, .nil⟩

theorem form_twin
    (start : Nat)
    (first : Token.Twin same token otherToken)
    (twins : List.Forall₂ (Token.Twin same) tokens others)
    (samePlace : same stop otherStop) :
    TwinResults same (TwinReads same) (form start stop token tokens)
      (form start otherStop otherToken others) := by
  have declared := declaration_twin start first twins samePlace
  have assigned := assignment_twin start first twins samePlace
  have asked := input_twin first twins samePlace
  have shown := output_twin start first twins samePlace
  cases first with
  | intro kind value payload sameStart sameStop =>
      cases kind
      case declaration => exact declared
      case identifier => exact assigned
      case standardInput => exact asked
      case standardOutput => exact shown
      all_goals exact .ofSyntax _ sameStart

/-- Twin tokens are read as twin statements. -/
theorem read_twin
    (start : Nat)
    (twins : List.Forall₂ (Token.Twin same) tokens others)
    (samePlace : same stop otherStop) :
    TwinResults same (StatementTree.Twin same) (read start stop tokens)
      (read start otherStop others) := by
  cases twins with
  | nil => exact .ofSyntax _ samePlace
  | cons first twins =>
      refine .bind (form_twin start first twins samePlace) ?_
      rintro ⟨statement, unread⟩ ⟨otherStatement, otherUnread⟩ ⟨statements, unreadTwin⟩
      cases unreadTwin with
      | nil => exact .ok statements
      | cons leftover _ =>
          cases leftover with
          | intro kind value payload sameStart sameStop => exact .ofSyntax _ sameStart

theorem readChunks_twin
    {list otherList : List Chunk}
    (start : Nat)
    (twins : List.Forall₂ (Chunk.Twin same) list otherList) :
    TwinResults same (List.Forall₂ (StatementTree.Twin same)) (readChunks start list)
      (readChunks start otherList) := by
  induction twins generalizing start with
  | nil => exact .ok .nil
  | @cons chunk otherChunk rest otherRest twin twins inductionHypothesis =>
      refine .bind (read_twin start twin.tokens twin.semicolon.start) ?_
      intro statement otherStatement statements
      rw [statements.descendants_eq]
      exact .bind (inductionHypothesis _) fun _ _ othersTwin => .ok (.cons statements othersTwin)

theorem rel_head?
    (twins : List.Forall₂ (Token.Twin same) tokens others) :
    Option.Rel (Token.Twin same) tokens.head? others.head? := by
  cases twins with
  | nil => exact .none
  | cons twin _ => exact .some twin

theorem refuseTrailing_twin
    (twins : List.Forall₂ (Token.Twin same) tokens others) :
    TwinResults same (fun _ _ => True) (refuseTrailing tokens) (refuseTrailing others) := by
  have lasts := rel_head? (List.rel_reverse twins)
  rw [← List.getLast?_eq_head?_reverse, ← List.getLast?_eq_head?_reverse] at lasts
  unfold refuseTrailing
  revert lasts
  rcases tokens.getLast? with _ | last <;> rcases others.getLast? with _ | otherLast
  · exact fun _ => .ok trivial
  · rintro ⟨⟩
  · rintro ⟨⟩
  · rintro ⟨lastTwin⟩
    dsimp only
    rw [lastTwin.value_eq]
    exact .ofSyntax _ lastTwin.stop

/-- Twin tokens are read as the statements of twin programs. -/
theorem readProgram_twin
    (file otherFile : String)
    (nonempty : tokens ≠ [])
    (twins : List.Forall₂ (Token.Twin same) tokens others) :
    TwinResults same (List.Forall₂ (StatementTree.Twin same)) (readProgram tokens file)
      (readProgram others otherFile) := by
  obtain ⟨chunksTwin, trailingTwin⟩ := chunks_twin twins
  cases twins with
  | nil => exact absurd rfl nonempty
  | cons first twins =>
      refine .bind (readChunks_twin 2 chunksTwin) ?_
      intro statements otherStatements statementsTwin
      exact .bind (refuseTrailing_twin trailingTwin) fun _ _ _ => .ok statementsTwin

end Sentence
end Grammar
end ScriptLang
