import ScriptLang.Proofs.Program.Text

/-!
# Printed programs are cut into their pieces

In the text of a program every word is followed by a blank or by punctuation, and
no slash by another one.  Scanning the text of well-formed statements therefore
gives the words and the punctuation that were printed.
-/

namespace ScriptLang

open Source (Position)
open Token (Piece mark keyword)
open Token.Piece (texts placed EndsWord Separates Separated)

namespace Token.Piece

/-- A text ends a word when its first character does. -/
theorem endsWord_cons
    {stop : Char}
    (rest : List Char)
    (isStop : isDelimiter stop = true) :
    EndsWord (stop :: rest) :=
  ⟨stop, rest, isStop, rfl⟩

theorem endsWord_of_blank (rest : List Piece) : EndsWord (texts (.blank :: rest)) :=
  endsWord_cons _ rfl

theorem endsWord_of_mark
    {kind : TokenKind} {character : Char}
    (rest : List Piece)
    (isPunctuation : punctuation? character = some kind) :
    EndsWord (texts (.written (mark kind character) :: rest)) := by
  rw [texts_cons, text, text_mark]
  apply endsWord_cons
  rw [isDelimiter, isPunctuation]
  exact Bool.or_true _

/-- Punctuation other than a slash may stand in front of everything. -/
theorem separated_mark
    {kind : TokenKind} {character : Char} {rest : List Piece}
    (isPunctuation : punctuation? character = some kind)
    (notSlash : character ≠ '/')
    (separated : Separated rest) :
    Separated (.written (mark kind character) :: rest) := by
  refine ⟨.inr ⟨isPunctuation_mark isPunctuation, ?_⟩, separated⟩
  rintro ⟨isSlash, _⟩
  have sameText := congrArg String.toList isSlash
  rw [text_mark] at sameText
  cases sameText
  exact notSlash rfl

/-- A word may stand in front of what ends it. -/
theorem separated_word
    {token : Token} {rest : List Piece}
    (isWord : token.IsWord)
    (ends : EndsWord (texts rest))
    (separated : Separated rest) :
    Separated (.written token :: rest) :=
  ⟨.inl ⟨isWord, ends⟩, separated⟩

end Token.Piece

open Token.Piece (endsWord_of_blank endsWord_of_mark separated_mark separated_word)

theorem UnaryOperator.separated_sign
    {rest : List Piece}
    (operator : UnaryOperator)
    (separated : Separated rest) :
    Separated (.written operator.sign :: rest) := by
  cases operator with
  | arithmeticNegation => exact separated_mark rfl (by decide) separated
  | logicalNegation => exact separated_mark rfl (by decide) separated

/-- An operator may stand in front of a blank. -/
theorem BinaryOperator.separated_marks
    {rest : List Piece}
    (operator : BinaryOperator)
    (separated : Separated rest) :
    Separated (operator.marks.map Piece.written ++ .blank :: rest) := by
  have one : ∀ {kind : TokenKind} {character : Char},
      Token.punctuation? character = some kind -> character ≠ '/' ->
        Separated ([mark kind character].map Piece.written ++ .blank :: rest) :=
    fun isPunctuation notSlash => separated_mark isPunctuation notSlash separated
  have two : ∀ {kind : TokenKind} {character : Char},
      Token.punctuation? character = some kind -> character ≠ '/' ->
        Separated ([mark kind character, mark .equal '='].map Piece.written ++ .blank :: rest) :=
    fun isPunctuation notSlash =>
      separated_mark isPunctuation notSlash (separated_mark rfl (by decide) separated)
  cases operator with
  | divide =>
      refine ⟨.inr ⟨Token.isPunctuation_mark rfl, ?_⟩, separated⟩
      rintro ⟨_, isSlash⟩
      cases isSlash
  | add => exact one rfl (by decide)
  | subtract => exact one rfl (by decide)
  | multiply => exact one rfl (by decide)
  | less => exact one rfl (by decide)
  | greater => exact one rfl (by decide)
  | and => exact one rfl (by decide)
  | or => exact one rfl (by decide)
  | equals => exact two rfl (by decide)
  | notEquals => exact two rfl (by decide)
  | lessEquals => exact two rfl (by decide)
  | greaterEquals => exact two rfl (by decide)

/-- A printed expression may stand in front of what ends a word. -/
theorem Tree.separated_pieces
    {tree : Tree} {rest : List Piece}
    (printable : tree.Every Leaf.Printable)
    (ends : EndsWord (texts rest))
    (separated : Separated rest) :
    Separated (tree.pieces ++ rest) := by
  induction tree generalizing rest with
  | leaf content position => exact separated_word printable ends separated
  | unary operator position operand inductionHypothesis =>
      have closed : Separated (.written (mark .closeParenthesis ')') :: rest) :=
        separated_mark rfl (by decide) separated
      have inner := inductionHypothesis printable (endsWord_of_mark rest rfl) closed
      simp only [pieces, List.cons_append, List.append_assoc, List.nil_append]
      apply separated_mark rfl (by decide)
      exact operator.separated_sign inner
  | binary operator position left right leftHypothesis rightHypothesis =>
      have closed : Separated (.written (mark .closeParenthesis ')') :: rest) :=
        separated_mark rfl (by decide) separated
      have rightSeparated := rightHypothesis printable.2 (endsWord_of_mark rest rfl) closed
      have behind : Separated (.blank :: (operator.marks.map Piece.written ++ .blank ::
          (right.pieces ++ .written (mark .closeParenthesis ')') :: rest))) :=
        operator.separated_marks rightSeparated
      have leftSeparated := leftHypothesis printable.1 (endsWord_of_blank _) behind
      simp only [pieces, List.cons_append, List.append_assoc, List.nil_append]
      apply separated_mark rfl (by decide)
      exact leftSeparated

namespace StatementTree

theorem isWord_keyword
    {kind : TokenKind} {word : String}
    (isKeyword : (word, kind) ∈
      [("declare", TokenKind.declaration), ("stdin", .standardInput),
        ("stdout", .standardOutput)]) :
    (keyword kind word).IsWord := by
  simp only [List.mem_cons, Prod.mk.injEq, List.not_mem_nil, or_false] at isKeyword
  rcases isKeyword with ⟨rfl, rfl⟩ | ⟨rfl, rfl⟩ | ⟨rfl, rfl⟩ <;>
    exact .of_all (by rfl) (by decide) (by rfl)

/-- The printed parts of a declaration behind its colon may stand in front of a semicolon. -/
theorem separated_initializerPieces
    {expression : Option Tree} {rest : List Piece}
    (wellFormed : ∀ tree ∈ expression, tree.WellFormed Leaf.Printable)
    (ends : EndsWord (texts rest))
    (separated : Separated rest) :
    Separated (initializerPieces expression ++ rest) ∧
      EndsWord (texts (initializerPieces expression ++ rest)) := by
  cases expression with
  | none => exact ⟨separated, ends⟩
  | some tree =>
      have printable : tree.Every Leaf.Printable :=
        (wellFormed tree rfl).1.imp fun content isGood => isGood.2
      refine ⟨?_, endsWord_of_blank _⟩
      change Separated (.written (mark .equal '=') :: .blank :: (tree.pieces ++ rest))
      apply separated_mark rfl (by decide)
      exact tree.separated_pieces printable ends separated

theorem separated_typePieces
    {typeKeyword : Option LeafAt} {rest : List Piece}
    (isType : ∀ leaf ∈ typeKeyword, leaf.IsType)
    (ends : EndsWord (texts rest))
    (separated : Separated rest) :
    Separated (typePieces typeKeyword ++ rest) := by
  cases typeKeyword with
  | none => exact separated
  | some leaf =>
      obtain ⟨ty, content⟩ := isType leaf rfl
      have isWord : leaf.content.token.IsWord := by
        rw [content]
        exact Leaf.printable_typeKeyword ty
      exact separated_word isWord ends separated

/-- A printed statement may stand in front of everything. -/
theorem separated_pieces
    {statement : StatementTree} {rest : List Piece}
    (wellFormed : statement.WellFormed Leaf.Printable)
    (separated : Separated rest) :
    Separated (statement.pieces ++ rest) := by
  have ended : Separated (.written (mark .semicolon ';') :: rest) :=
    separated_mark rfl (by decide) separated
  have ends : EndsWord (texts (.written (mark .semicolon ';') :: rest)) :=
    endsWord_of_mark rest rfl
  have expression : ∀ tree : Tree, tree.WellFormed Leaf.Printable ->
      Separated (tree.pieces ++ .written (mark .semicolon ';') :: rest) := by
    intro tree treeWellFormed
    have printable := treeWellFormed.1.imp fun content isGood => isGood.2
    exact tree.separated_pieces printable ends ended
  cases statement with
  | declaration position identifier typeKeyword initial =>
      obtain ⟨⟨_, isWord⟩, isType, initialWellFormed, _⟩ := wellFormed
      obtain ⟨initialSeparated, initialEnds⟩ :=
        separated_initializerPieces initialWellFormed ends ended
      have typeSeparated := separated_typePieces isType initialEnds initialSeparated
      simp only [pieces, List.cons_append, List.append_assoc, List.nil_append]
      apply separated_word (isWord_keyword (by simp)) (endsWord_of_blank _)
      apply separated_word isWord (endsWord_of_blank _)
      apply separated_mark rfl (by decide)
      exact typeSeparated
  | assignment position identifier tree =>
      obtain ⟨⟨_, isWord⟩, treeWellFormed⟩ := wellFormed
      simp only [pieces, List.cons_append, List.append_assoc, List.nil_append]
      apply separated_word isWord (endsWord_of_blank _)
      apply separated_mark rfl (by decide)
      apply separated_mark rfl (by decide)
      exact expression tree treeWellFormed
  | input position identifier =>
      obtain ⟨_, isWord⟩ := wellFormed
      apply separated_word (isWord_keyword (by simp)) (endsWord_of_blank _)
      exact separated_word isWord ends ended
  | output position tree =>
      simp only [pieces, List.cons_append, List.append_assoc, List.nil_append]
      apply separated_word (isWord_keyword (by simp)) (endsWord_of_blank _)
      exact expression tree wellFormed

theorem separated_programPieces
    {statements : List StatementTree}
    (wellFormed : ∀ statement ∈ statements, statement.WellFormed Leaf.Printable) :
    Separated (programPieces statements) := by
  induction statements with
  | nil => trivial
  | cons first rest inductionHypothesis =>
      obtain ⟨firstWellFormed, restWellFormed⟩ := List.forall_mem_cons.mp wellFormed
      have restSeparated := inductionHypothesis restWellFormed
      unfold programPieces
      rw [List.flatMap_cons, List.append_assoc]
      exact separated_pieces firstWellFormed restSeparated

/-- The text of a program is scanned as the tokens that were printed. -/
theorem scanSource_toText
    {statements : List StatementTree}
    (position : Position) (symbols : SymbolTable) (tagged : List Tagged) (file : String)
    (statementsAre : tagged.map Tagged.statement = statements)
    (wellFormed : ∀ statement ∈ statements, statement.WellFormed Leaf.Printable) :
    Token.scanSource (Program.assemble position symbols tagged).toText file =
      .ok (placed (.start file) (programPieces statements)) := by
  unfold Token.scanSource Source.Cursor.ofSource
  rw [Program.toList_toText_assemble, statementsAre]
  exact Token.scan_texts _ (separated_programPieces wellFormed)

end StatementTree
end ScriptLang
