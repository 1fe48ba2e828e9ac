import ScriptLang.Proofs.Grammar.Spelling
import ScriptLang.Proofs.Program.Separation
import ScriptLang.Proofs.Token.Joining

/-!
# Printed statements spell their trees

The tokens of a printed expression spell its tree, the tokens of a printed
statement its statement, and the tokens of a printed program are read as its
statements, each of which starts on a line of its own.
-/

namespace ScriptLang

open Source (Position)
open Token (Piece mark keyword finished)
open Token.Piece (placed placedAt Becomes NoEqualFirst)
open Grammar (Spells SpellsType SpellsInitializer SpellsStatement binaryOf? unaryOf?)

namespace Leaf

/-- A leaf is no operator, so that it gets no binding. -/
theorem withBinding_placedAt (content : Leaf) (position : Position) :
    (placedAt position content.token).withBinding = placedAt position content.token := by
  cases content <;> rfl

/-- A leaf is joined with nothing. -/
theorem kind_token_alone (content : Leaf) :
    content.token.kind ∉ [.equal, .less, .greater, .not] := by
  cases content <;> simp [token, tokenKind]

end Leaf

namespace Grammar

theorem binaryOf?_withBinding (token : Token) :
    binaryOf? token.withBinding = binaryOf? token := by
  unfold binaryOf?
  rw [Token.kind_withBinding]

theorem unaryOf?_withBinding (token : Token) :
    unaryOf? token.withBinding = unaryOf? token := by
  unfold unaryOf?
  rw [Token.kind_withBinding]

end Grammar

namespace BinaryOperator

/-- An operator is written as one token or as a pair that is joined. -/
theorem marks_cases (operator : BinaryOperator) :
    (∃ token precedence, operator.marks = [token] ∧ token.Unbound ∧
      binaryOf? token = some (operator, precedence)) ∨
    (∃ first second kind precedence, operator.marks = [first, second] ∧
      TokenKind.joined? first.kind second.kind = some kind ∧
      ∀ left right, binaryOf? (Token.join kind left right) = some (operator, precedence)) := by
  cases operator <;>
    first
      | exact .inl ⟨_, _, rfl, rfl, rfl⟩
      | exact .inr ⟨_, _, _, _, rfl, rfl, fun _ _ => rfl⟩

/-- The pieces of an operator become one token that stands for it. -/
theorem becomes_marks
    {pieces : List Piece}
    (operator : BinaryOperator) (position : Position)
    (noEqual : NoEqualFirst pieces) :
    ∃ sign precedence behind,
      binaryOf? sign = some (operator, precedence) ∧ sign.Coherent ∧
        ∀ tokens stop, Becomes behind pieces tokens stop ->
          Becomes position (operator.marks.map Piece.written ++ pieces) (sign :: tokens) stop := by
  rcases operator.marks_cases with ⟨token, precedence, marks, unbound, isOperator⟩ |
    ⟨first, second, kind, precedence, marks, isPair, isOperator⟩
  · refine ⟨(placedAt position token).withBinding, precedence,
      position.right token.value.toList.length, ?_, ?_, ?_⟩
    · rw [Grammar.binaryOf?_withBinding]
      exact isOperator
    · exact Token.coherent_withBinding unbound
    · intro tokens stop becomes
      rw [marks]
      exact .written_of_noEqualFirst noEqual becomes
  · let middle := position.right first.value.toList.length
    refine ⟨(Token.join kind (placedAt position first) (placedAt middle second)).withBinding,
      precedence, middle.right second.value.toList.length, ?_, ?_, ?_⟩
    · rw [Grammar.binaryOf?_withBinding]
      exact isOperator _ _
    · exact Token.coherent_withBinding (Token.unbound_join _ _ isPair)
    · intro tokens stop becomes
      rw [marks]
      exact .joined isPair becomes

end BinaryOperator

/-- The token of an operator stands for it. -/
theorem UnaryOperator.unaryOf?_sign (operator : UnaryOperator) :
    operator.sign.Unbound ∧ ∃ precedence, unaryOf? operator.sign = some (operator, precedence) := by
  cases operator with
  | arithmeticNegation => exact ⟨rfl, _, rfl⟩
  | logicalNegation => exact ⟨rfl, _, rfl⟩

namespace Tree

/-- No expression starts with an equals sign. -/
theorem noEqualFirst_pieces (tree : Tree) : NoEqualFirst tree.pieces := by
  cases tree with
  | leaf content position =>
      apply Piece.noEqualFirst_written
      cases content <;> simp [Leaf.token, Leaf.tokenKind]
  | unary operator position operand => exact Piece.noEqualFirst_written _ (by decide)
  | binary operator position left right => exact Piece.noEqualFirst_written _ (by decide)

/-- A printed expression becomes tokens that spell its tree. -/
theorem becomes_pieces
    {tree : Tree}
    (noTypes : tree.Every fun content => ∀ ty, content ≠ .typeKeyword ty)
    (position : Position) :
    ∃ tokens stop, Spells tree tokens ∧ Becomes position tree.pieces tokens stop := by
  induction tree generalizing position with
  | leaf content place =>
      have same := content.withBinding_placedAt position
      refine ⟨[(placedAt position content.token).withBinding],
        position.right content.token.value.toList.length, ?_,
        .written content.kind_token_alone (Piece.becomes_nil _)⟩
      rw [same]
      refine .leaf place ?_ rfl
      cases content with
      | identifier name => exact .inl rfl
      | literal value => exact .inr rfl
      | typeKeyword ty => exact absurd rfl (noTypes ty)
  | unary operator place operand inductionHypothesis =>
      let middle := position.right (mark .openParenthesis '(').value.toList.length
      obtain ⟨tokens, stop, spells, becomes⟩ := inductionHypothesis noTypes
        (middle.right operator.sign.value.toList.length)
      obtain ⟨unbound, precedence, isOperator⟩ := operator.unaryOf?_sign
      have coherent : (placedAt middle operator.sign).withBinding.Coherent :=
        Token.coherent_withBinding unbound
      have found : unaryOf? (placedAt middle operator.sign).withBinding =
          some (operator, precedence) := by
        rw [Grammar.unaryOf?_withBinding]
        exact isOperator
      have inner := operand.noEqualFirst_pieces.append [.written (mark .closeParenthesis ')')]
      exact ⟨_, _, .unary place rfl found coherent spells rfl,
        .written (by decide) (.written_of_noEqualFirst inner
          (becomes.append (.written (by decide) (Piece.becomes_nil _))))⟩
  | binary operator place left right leftHypothesis rightHypothesis =>
      obtain ⟨leftTokens, leftStop, leftSpells, leftBecomes⟩ :=
        leftHypothesis noTypes.1 (position.right _)
      have inner := right.noEqualFirst_pieces.append [.written (mark .closeParenthesis ')')]
      obtain ⟨sign, precedence, behind, isOperator, coherent, signBecomes⟩ :=
        operator.becomes_marks (leftStop.right 1) (Piece.noEqualFirst_blank inner)
      obtain ⟨rightTokens, rightStop, rightSpells, rightBecomes⟩ :=
        rightHypothesis noTypes.2 (behind.right 1)
      exact ⟨_, _, .binary place rfl leftSpells isOperator coherent rightSpells rfl,
        .written (by decide) (leftBecomes.append (.blank (signBecomes _ _ (.blank
          (rightBecomes.append (.written (by decide) (Piece.becomes_nil _)))))))⟩

end Tree

namespace LeafAt

theorem withBinding_of_isName
    {leaf : LeafAt}
    (isName : leaf.IsName) (position : Position) :
    (placedAt position leaf.content.token).withBinding.kind = .identifier ∧
      (placedAt position leaf.content.token).withBinding.payload = .leaf leaf.content := by
  obtain ⟨name, content⟩ := isName
  rw [content]
  exact ⟨rfl, rfl⟩

theorem withBinding_of_isType
    {leaf : LeafAt}
    (isType : leaf.IsType) (position : Position) :
    (placedAt position leaf.content.token).withBinding.kind = .typeKeyword ∧
      (placedAt position leaf.content.token).withBinding.payload = .leaf leaf.content := by
  obtain ⟨ty, content⟩ := isType
  rw [content]
  exact ⟨rfl, rfl⟩

end LeafAt

namespace StatementTree

theorem becomes_typePieces
    {typeKeyword : Option LeafAt}
    (isType : ∀ leaf ∈ typeKeyword, leaf.IsType)
    (position : Position) :
    ∃ tokens stop, SpellsType typeKeyword tokens ∧
      Becomes position (typePieces typeKeyword) tokens stop := by
  cases typeKeyword with
  | none => exact ⟨[], position, .absent, Piece.becomes_nil position⟩
  | some leaf =>
      obtain ⟨kind, carries⟩ := LeafAt.withBinding_of_isType (isType leaf rfl) (position.right 1)
      exact ⟨_, _, .present kind carries,
        .blank (.written leaf.content.kind_token_alone (Piece.becomes_nil _))⟩

theorem becomes_initializerPieces
    {good : Leaf -> Prop} {expression : Option Tree}
    (wellFormed : ∀ tree ∈ expression, tree.WellFormed good)
    (position : Position) :
    ∃ tokens stop, SpellsInitializer expression tokens ∧
      Becomes position (initializerPieces expression) tokens stop := by
  cases expression with
  | none => exact ⟨[], position, .absent, Piece.becomes_nil position⟩
  | some tree =>
      have noTypes := (wellFormed tree rfl).1.imp fun content isGood => isGood.1
      let middle := (position.right 1).right (mark .equal '=').value.toList.length
      obtain ⟨tokens, stop, spells, becomes⟩ := tree.becomes_pieces noTypes (middle.right 1)
      have noEqual := Piece.noEqualFirst_blank tree.noEqualFirst_pieces
      exact ⟨_, stop, .present rfl spells,
        .blank (.written_of_noEqualFirst noEqual becomes.blank)⟩

/-- A printed statement becomes tokens that spell it, and a semicolon. -/
theorem becomes_pieces
    {good : Leaf -> Prop} {statement : StatementTree}
    (wellFormed : statement.WellFormed good)
    (position : Position) :
    ∃ first rest semicolon stop, SpellsStatement statement (first :: rest) ∧
      first.span.start = position ∧ semicolon.kind = .semicolon ∧
      Becomes position statement.pieces ((first :: rest) ++ [semicolon]) stop := by
  have ended : ∀ place, Becomes place [.written (mark .semicolon ';')]
      [(placedAt place (mark .semicolon ';')).withBinding]
      (place.right (mark .semicolon ';').value.toList.length) :=
    fun place => .written (by decide) (Piece.becomes_nil _)
  cases statement with
  | declaration place identifier typeKeyword expression =>
      obtain ⟨⟨isName, _⟩, isType, expressionWellFormed, _⟩ := wellFormed
      let behindFirst := position.right (keyword .declaration "declare").value.toList.length
      let behindName := (behindFirst.right 1).right identifier.content.token.value.toList.length
      let behindColon := (behindName.right 1).right (mark .colon ':').value.toList.length
      obtain ⟨kind, carries⟩ := LeafAt.withBinding_of_isName isName (behindFirst.right 1)
      obtain ⟨typeTokens, behindType, spellsType, typeBecomes⟩ :=
        becomes_typePieces isType behindColon
      obtain ⟨initializer, behindInitializer, spellsInitializer, initializerBecomes⟩ :=
        becomes_initializerPieces expressionWellFormed behindType
      have parts := typeBecomes.append (initializerBecomes.append (ended _))
      rw [← List.append_assoc typeTokens] at parts
      exact ⟨_, _, _, _, .declaration place rfl kind carries rfl spellsType spellsInitializer, rfl,
        rfl, .written (by decide) (.blank (.written identifier.content.kind_token_alone
          (.blank (.written (by decide) parts))))⟩
  | assignment place identifier expression =>
      obtain ⟨⟨isName, _⟩, expressionWellFormed⟩ := wellFormed
      have noTypes := expressionWellFormed.1.imp fun content isGood => isGood.1
      let behindName := position.right identifier.content.token.value.toList.length
      let behindColon := (behindName.right 1).right (mark .colon ':').value.toList.length
      let behindSign := behindColon.right (mark .equal '=').value.toList.length
      obtain ⟨kind, carries⟩ := LeafAt.withBinding_of_isName isName position
      obtain ⟨tokens, behind, spells, becomes⟩ :=
        expression.becomes_pieces noTypes (behindSign.right 1)
      have noEqual := Piece.noEqualFirst_blank
        (expression.noEqualFirst_pieces.append [.written (mark .semicolon ';')])
      refine ⟨_, _, _, _, .assignment place kind carries rfl rfl spells, ?_, rfl,
        .written identifier.content.kind_token_alone (.blank (.written (by decide)
          (.written_of_noEqualFirst noEqual (.blank (becomes.append (ended _))))))⟩
      rw [Token.span_withBinding]
      rfl
  | input place identifier =>
      obtain ⟨isName, _⟩ := wellFormed
      let behindFirst := position.right (keyword .standardInput "stdin").value.toList.length
      obtain ⟨kind, carries⟩ := LeafAt.withBinding_of_isName isName (behindFirst.right 1)
      exact ⟨_, _, _, _, .input place rfl kind carries, rfl, rfl,
        .written (by decide) (.blank (.written identifier.content.kind_token_alone (ended _)))⟩
  | output place expression =>
      have noTypes := wellFormed.1.imp fun content isGood => isGood.1
      let behindFirst := position.right (keyword .standardOutput "stdout").value.toList.length
      obtain ⟨tokens, behind, spells, becomes⟩ :=
        expression.becomes_pieces noTypes (behindFirst.right 1)
      exact ⟨_, _, _, _, .output place rfl spells, rfl, rfl,
        .written (by decide) (.blank (becomes.append (ended _)))⟩

end StatementTree

namespace Grammar

/-- Tokens are cut behind their first semicolon. -/
theorem chunks_append_cons
    {tokens : List Token} {semicolon : Token}
    (rest : List Token)
    (notSemicolon : ∀ token ∈ tokens, token.kind ≠ .semicolon)
    (isSemicolon : semicolon.kind = .semicolon) :
    chunks (tokens ++ semicolon :: rest) =
      (⟨tokens, semicolon⟩ :: (chunks rest).1, (chunks rest).2) := by
  induction tokens with
  | nil => rw [List.nil_append, chunks, if_pos isSemicolon]
  | cons first others inductionHypothesis =>
      obtain ⟨firstNot, othersNot⟩ := List.forall_mem_cons.mp notSemicolon
      rw [List.cons_append, chunks, if_neg firstNot, inductionHypothesis othersNot]

namespace Sentence

/-- The tokens of printed statements are read as these statements, each of them on its line. -/
theorem readChunks_programPieces
    {good : Leaf -> Prop} {statements : List StatementTree}
    (wellFormed : ∀ statement ∈ statements, statement.WellFormed good)
    (position : Position) :
    ∃ found again,
      chunks (finished (placed position (StatementTree.programPieces statements))) = (found, []) ∧
      (∀ start, readChunks start found = .ok again) ∧
      again.map StatementTree.unplaced = statements.map StatementTree.unplaced ∧
      ∀ index statement, again[index]? = some statement ->
        statement.position.line = position.line + index := by
  induction statements generalizing position with
  | nil =>
      refine ⟨[], [], rfl, fun _ => rfl, rfl, ?_⟩
      intro index statement isStatement
      cases isStatement
  | cons first others inductionHypothesis =>
      obtain ⟨firstWellFormed, othersWellFormed⟩ := List.forall_mem_cons.mp wellFormed
      obtain ⟨token, tokens, semicolon, stop, spells, starts, isSemicolon, becomes⟩ :=
        first.becomes_pieces firstWellFormed position
      obtain ⟨found, again, cut, reads, same, lines⟩ :=
        inductionHypothesis othersWellFormed stop.nextLine
      obtain ⟨firstAgain, firstSame, ⟨_, _, isToken, firstStarts⟩, firstReads⟩ :=
        read_of_spells spells firstWellFormed
      refine ⟨⟨token :: tokens, semicolon⟩ :: found, firstAgain :: again, ?_, ?_, ?_, ?_⟩
      · have pieces : StatementTree.programPieces (first :: others) =
            first.pieces ++ .newLine :: StatementTree.programPieces others := by
          unfold StatementTree.programPieces
          rw [List.flatMap_cons, List.append_assoc]
          rfl
        rw [pieces, becomes.finishes, List.append_assoc, List.singleton_append,
          chunks_append_cons _ (not_semicolon_of_spellsStatement spells) isSemicolon, placed, cut]
      · intro start
        rw [readChunks, firstReads, ok_bind, reads]
        rfl
      · rw [List.map_cons, List.map_cons, firstSame, same]
      · intro index statement isStatement
        cases index with
        | zero =>
            cases isStatement
            cases isToken
            rw [firstStarts, starts, Nat.add_zero]
        | succ index =>
            have line := lines index statement isStatement
            have behind : stop.nextLine.line = position.line + 1 :=
              congrArg (· + 1) becomes.sameLine
            omega

/-- A program that is read has a statement. -/
theorem ne_nil_of_readProgram
    {tokens : List Token} {file : String} {statements : List StatementTree}
    (read : readProgram tokens file = .ok statements) :
    statements ≠ [] := by
  rintro rfl
  unfold readProgram at read
  split at read
  · cases read
  · next nonempty =>
      obtain ⟨others, readsChunks, rest⟩ := (bind_eq_ok_iff _ _ _).mp read
      obtain ⟨_, noTrailing, result⟩ := (bind_eq_ok_iff _ _ _).mp rest
      cases result
      have whole := flatMap_chunks tokens
      have noChunks : (chunks tokens).1 = [] := by
        cases cut : (chunks tokens).1 with
        | nil => rfl
        | cons chunk others =>
            rw [cut, readChunks] at readsChunks
            obtain ⟨_, _, readsRest⟩ := (bind_eq_ok_iff _ _ _).mp readsChunks
            obtain ⟨_, _, result⟩ := (bind_eq_ok_iff _ _ _).mp readsRest
            cases result
      have noTokens : (chunks tokens).2 = [] := by
        unfold refuseTrailing at noTrailing
        split at noTrailing
        · next none => exact List.getLast?_eq_none_iff.mp none
        · cases noTrailing
      rw [noChunks, noTokens] at whole
      rw [← whole] at nonempty
      exact nonempty rfl

/-- The tokens of printed statements are read as these statements, each of them on its line. -/
theorem readProgram_programPieces
    {good : Leaf -> Prop} {statements : List StatementTree}
    (nonempty : statements ≠ [])
    (wellFormed : ∀ statement ∈ statements, statement.WellFormed good)
    (file parsedAs : String) :
    ∃ again,
      readProgram (finished (placed (.start file) (StatementTree.programPieces statements)))
          parsedAs =
        .ok again ∧
      again.map StatementTree.unplaced = statements.map StatementTree.unplaced ∧
      ∀ index statement, again[index]? = some statement ->
        statement.position.line = index + 1 := by
  obtain ⟨found, again, cut, reads, same, lines⟩ :=
    readChunks_programPieces wellFormed (.start file)
  refine ⟨again, ?_, same, ?_⟩
  · have hasTokens : (finished
        (placed (.start file) (StatementTree.programPieces statements))).isEmpty = false := by
      rw [List.isEmpty_eq_false_iff]
      intro noTokens
      rw [noTokens] at cut
      cases cut
      have noneAgain := reads 2
      cases noneAgain
      exact nonempty (List.map_eq_nil_iff.mp same.symm)
    unfold readProgram
    rw [hasTokens, cut]
    simp only [Bool.false_eq_true, if_false, reads, ok_bind]
    rfl
  · intro index statement isStatement
    have line := lines index statement isStatement
    have first : (Position.start file).line = 1 := rfl
    omega

end Sentence
end Grammar
end ScriptLang
