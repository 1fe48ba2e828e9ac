import ScriptLang.Proofs.Fault.Sorts
import ScriptLang.Proofs.Grammar.Leaves
import ScriptLang.Proofs.Grammar.Nesting
import ScriptLang.Proofs.Grammar.Precedence
import ScriptLang.Proofs.Grammar.Whole

/-!
# Faults of reading

Coherent tokens are read with syntax errors only, apart from an expression that
leaves none or several operands.  Only operators and opening parentheses ever wait
for their operands, and every operator that waits has its binding.  The statements
that are read have names, types and expressions where these belong.
-/

namespace ScriptLang
namespace Grammar

open Source (Position)
open Fault (IsSyntax IsLeftover)

/-- What coherent tokens may be refused for. -/
def IsReading (fault : Fault) : Prop := fault.IsSyntax ∨ fault.IsLeftover

/-- Every operator has as many operands as its binding says. -/
theorem operator_of_binding?
    {kind : TokenKind} {binding : Binding}
    (bound : kind.binding? = some binding) :
    (binding.arity = 1 ∧ ∃ unary, kind.unaryOperator? = some unary) ∨
      (binding.arity = 2 ∧ ∃ binary, kind.binaryOperator? = some binary) := by
  cases kind <;> cases bound <;>
    simp [TokenKind.unaryOperator?, TokenKind.binaryOperator?]

/-- What waits for operands is an opening parenthesis or an operator with its binding. -/
def Waits (token : Token) : Prop :=
  token.Coherent ∧ (token.kind = .openParenthesis ∨ token.kind.isOperator = true)

/-- An operator that waits has its binding. -/
theorem exists_binding_of_waits
    {token : Token}
    (waits : Waits token)
    (notOpen : token.kind ≠ .openParenthesis) :
    ∃ binding, token.kind.binding? = some binding ∧ bindingOf token = .ok binding := by
  obtain ⟨coherent, isOpen | isOperator⟩ := waits
  · exact absurd isOpen notOpen
  · obtain ⟨binding, bound⟩ := Option.isSome_iff_exists.mp isOperator
    exact ⟨binding, bound, bindingOf_of_coherent bound coherent⟩

namespace Forest

variable {limit : Nat}

/-- An operator with its binding can only miss operands. -/
theorem applyTo_yields
    {operator : Token} {binding : Binding}
    (trees : List Tree)
    (bound : operator.kind.binding? = some binding)
    (carried : bindingOf operator = .ok binding) :
    Yields (fun _ => True) IsSyntax (applyTo operator trees) := by
  obtain ⟨precedence, arity⟩ := binding
  unfold applyTo
  rw [carried, ok_bind]
  rcases operator_of_binding? bound with ⟨isOne, unary, found⟩ | ⟨isTwo, binary, found⟩
  · cases isOne
    cases trees with
    | nil => exact .intro _ _
    | cons operand others =>
        simp only [found]
        trivial
  · cases isTwo
    rcases trees with _ | ⟨right, _ | ⟨left, others⟩⟩
    · exact .intro _ _
    · exact .intro _ _
    · simp only [found]
      trivial

theorem combine_yields
    {operator : Token} {binding : Binding}
    (trees : List Tree)
    (bound : operator.kind.binding? = some binding)
    (carried : bindingOf operator = .ok binding) :
    Yields (fun _ => True) IsSyntax (combine limit operator trees) := by
  refine .bind (applyTo_yields trees bound carried) ?_
  rintro ⟨tree, others⟩ _
  dsimp only
  split
  · exact .intro _ _
  · trivial

/-- Settling fails with syntax errors only, and what waits afterwards has waited before. -/
theorem settle_yields
    {operators : List Token}
    (precedence : Nat) (trees : List Tree)
    (waits : ∀ token ∈ operators, Waits token) :
    Yields (fun forest => ∀ token ∈ forest.operators, Waits token) IsSyntax
      (settle limit precedence operators trees) := by
  induction operators generalizing trees with
  | nil => exact waits
  | cons top operators inductionHypothesis =>
      unfold settle
      split
      · exact waits
      · next notOpen =>
          obtain ⟨topWaits, othersWait⟩ := List.forall_mem_cons.mp waits
          obtain ⟨binding, bound, carried⟩ := exists_binding_of_waits topWaits notOpen
          rw [carried, ok_bind]
          split
          · exact waits
          · refine .bind (combine_yields trees bound carried) ?_
            intro combined _
            exact inductionHypothesis combined othersWait

/-- Reading a token fails with syntax errors only, and leaves only operators and opening
parentheses waiting. -/
theorem readToken_yields
    {token : Token} {forest : Forest}
    (coherent : token.Coherent)
    (waits : ∀ other ∈ forest.operators, Waits other) :
    Yields (fun next => ∀ other ∈ next.operators, Waits other) IsSyntax
      (readToken limit token forest) := by
  by_cases isOperand : IsOperand token
  · obtain ⟨content, isLeaf, _⟩ := leafOf_of_coherent isOperand coherent
    rw [readToken_of_operand limit forest isOperand isLeaf]
    exact waits
  by_cases isOpen : token.kind = .openParenthesis
  · rw [readToken_of_openParenthesis limit forest isOpen]
    exact List.forall_mem_cons.mpr ⟨⟨coherent, .inl isOpen⟩, waits⟩
  by_cases isClose : token.kind = .closeParenthesis
  · rw [readToken_of_closeParenthesis limit forest isClose]
    refine .bind (settle_yields 0 forest.trees waits) ?_
    rintro ⟨operators, trees⟩ settledWaits
    cases operators with
    | nil => exact .intro _ _
    | cons top operators => exact (List.forall_mem_cons.mp settledWaits).2
  by_cases isOperator : token.kind.isOperator = true
  · have tokenWaits : Waits token := ⟨coherent, .inr isOperator⟩
    obtain ⟨binding, _, carried⟩ := exists_binding_of_waits tokenWaits isOpen
    rw [readToken_of_isOperator limit forest isOperator, readOperator, carried, ok_bind]
    split
    · refine .bind (settle_yields _ forest.trees waits) ?_
      intro settled settledWaits
      exact List.forall_mem_cons.mpr ⟨tokenWaits, settledWaits⟩
    · exact List.forall_mem_cons.mpr ⟨tokenWaits, waits⟩
  · unfold readToken
    split
    · next isIdentifier => exact absurd (.inl isIdentifier) isOperand
    · next isLiteral => exact absurd (.inr isLiteral) isOperand
    · next kind => exact absurd kind isOpen
    · next kind => exact absurd kind isClose
    · rw [if_neg isOperator]
      exact .intro _ _

theorem readTokens_yields
    {tokens : List Token} {forest : Forest}
    (coherent : ∀ token ∈ tokens, token.Coherent)
    (waits : ∀ token ∈ forest.operators, Waits token) :
    Yields (fun last => ∀ token ∈ last.operators, Waits token) IsSyntax
      (readTokens limit tokens forest) := by
  induction tokens generalizing forest with
  | nil => exact waits
  | cons token rest inductionHypothesis =>
      obtain ⟨tokenCoherent, restCoherent⟩ := List.forall_mem_cons.mp coherent
      refine .bind (readToken_yields tokenCoherent waits) ?_
      intro next nextWaits
      exact inductionHypothesis restCoherent nextWaits

/-- Coherent tokens are read to their end with syntax errors only. -/
theorem readAll_yields
    {tokens : List Token}
    (coherent : ∀ token ∈ tokens, token.Coherent) :
    Yields (fun _ => True) IsSyntax (readAll limit tokens) := by
  have nothingWaits : ∀ token ∈ empty.operators, Waits token := by
    intro token member
    cases member
  refine .bind (readTokens_yields coherent nothingWaits) ?_
  intro last lastWaits
  refine .bind (settle_yields 0 last.trees lastWaits) ?_
  rintro ⟨operators, trees⟩ _
  cases operators with
  | nil => trivial
  | cons top operators => exact .intro _ _

/-- Reading within a limit leaves trees within it. -/
theorem deepest_le_of_readAll
    {tokens : List Token} {trees : List Tree}
    (read : readAll limit tokens = .ok trees) :
    deepest trees ≤ limit :=
  (readAll_cuts limit limit tokens).deepest_le (Nat.zero_le limit) read

/-- Coherent tokens are read as a well-formed expression, with two sorts of faults. -/
theorem parse_yields
    {good : Leaf -> Prop} {tokens : List Token}
    (start : Nat) (position : Position)
    (coherent : ∀ token ∈ tokens, token.Coherent)
    (carries : Carries good tokens) :
    Yields (Tree.WellFormed good) IsReading (parse start tokens position) := by
  unfold parse
  split
  · exact .inl (.intro _ _)
  · have reading : Yields
        (fun trees => AllEvery (fun content => (∀ ty, content ≠ .typeKeyword ty) ∧ good content)
          trees ∧ deepest trees ≤ greatestDepth)
        IsReading (readAll greatestDepth tokens) := by
      refine (readAll_yields coherent).imp ?_ fun fault => .inl
      intro trees read _
      have both : Carries (fun content => (∀ ty, content ≠ .typeKeyword ty) ∧ good content)
          tokens := fun token member isOperand content carried =>
        ⟨carries_of_coherent coherent token member isOperand content carried,
          carries token member isOperand content carried⟩
      exact ⟨readAll_every both read, deepest_le_of_readAll read⟩
    refine .bind reading ?_
    rintro trees ⟨every, inLimit⟩
    rcases trees with _ | ⟨tree, _ | ⟨second, others⟩⟩
    · exact .inr (.intro 0 _ (by decide))
    · rw [allEvery_cons] at every
      have isExpression := isExpression_of_every
        (every.1.imp fun content isGood => isGood.1)
      rw [single, if_pos isExpression]
      refine ⟨every.1, ?_⟩
      rw [deepest_cons] at inLimit
      omega
    · exact .inr (.intro _ _ (by simp))

end Forest

/-- A coherent token whose leaf satisfies a condition if it stands as an operand. -/
def Readable (good : Leaf -> Prop) (token : Token) : Prop :=
  token.Coherent ∧
    (IsOperand token -> ∀ content, token.payload = .leaf content -> good content)

namespace Sentence

variable {good : Leaf -> Prop}

theorem parse_yields_of_readable
    {tokens : List Token}
    (start : Nat) (position : Position)
    (readable : ∀ token ∈ tokens, Readable good token) :
    Yields (Tree.WellFormed good) IsReading (Forest.parse start tokens position) :=
  Forest.parse_yields start position (fun token member => (readable token member).1)
    fun token member => (readable token member).2

theorem expectFirst_yields
    {tokens : List Token}
    (kind : TokenKind) (expectation : Expectation) (stop : Position)
    (readable : ∀ token ∈ tokens, Readable good token) :
    Yields
      (fun read => read.1.kind = kind ∧ Readable good read.1 ∧
        ∀ token ∈ read.2, Readable good token)
      IsReading (expectFirst kind expectation stop tokens) := by
  cases tokens with
  | nil => exact .inl (.intro _ _)
  | cons token rest =>
      rw [expectFirst]
      split
      · next isKind => exact ⟨isKind, List.forall_mem_cons.mp readable⟩
      · exact .inl (.intro _ _)

/-- An identifier carries a name. -/
theorem leafAt_yields_name
    {token : Token}
    (isIdentifier : token.kind = .identifier)
    (readable : Readable good token) :
    Yields (fun leaf => leaf.IsName ∧ good leaf.content) IsReading (leafAt token) := by
  obtain ⟨coherent, isGood⟩ := readable
  unfold Token.Coherent at coherent
  simp only [isIdentifier] at coherent
  unfold leafAt
  rw [coherent]
  exact ⟨⟨token.value, rfl⟩, isGood (.inl isIdentifier) _ coherent⟩

/-- A type keyword carries a type. -/
theorem leafAt_yields_type
    {token : Token}
    (isType : token.kind = .typeKeyword)
    (coherent : token.Coherent) :
    Yields LeafAt.IsType IsReading (leafAt token) := by
  unfold Token.Coherent at coherent
  simp only [isType] at coherent
  obtain ⟨ty, carried⟩ := coherent
  unfold leafAt
  rw [carried]
  exact ⟨ty, rfl⟩

theorem takeColon_readable
    {tokens : List Token}
    (readable : ∀ token ∈ tokens, Readable good token) :
    ∀ token ∈ (takeColon tokens).2, Readable good token := by
  cases tokens with
  | nil => exact readable
  | cons token rest =>
      rw [takeColon]
      split
      · exact (List.forall_mem_cons.mp readable).2
      · exact readable

theorem takeType_yields
    {tokens : List Token}
    (hasColon : Bool) (name : String)
    (readable : ∀ token ∈ tokens, Readable good token) :
    Yields
      (fun read => (∀ leaf ∈ read.1, leaf.IsType) ∧ ∀ token ∈ read.2, Readable good token)
      IsReading (takeType hasColon name tokens) := by
  cases tokens with
  | nil => exact ⟨by simp, readable⟩
  | cons token rest =>
      obtain ⟨tokenReadable, restReadable⟩ := List.forall_mem_cons.mp readable
      rw [takeType]
      split
      · next isType =>
          cases hasColon with
          | false => exact .inl (.intro _ _)
          | true =>
              refine .bind (leafAt_yields_type isType tokenReadable.1) ?_
              intro leaf leafIsType
              exact ⟨by simpa using leafIsType, restReadable⟩
      · exact ⟨by simp, readable⟩

theorem takeInitializer_yields
    {tokens : List Token}
    (start : Nat) (stop : Position)
    (readable : ∀ token ∈ tokens, Readable good token) :
    Yields (fun read => ∀ tree ∈ read.1, Tree.WellFormed good tree) IsReading
      (takeInitializer start stop tokens) := by
  cases tokens with
  | nil => simp [takeInitializer]
  | cons token rest =>
      rw [takeInitializer]
      split
      · have restReadable := (List.forall_mem_cons.mp readable).2
        refine .bind (parse_yields_of_readable start _ restReadable) ?_
        intro tree wellFormed
        simpa using wellFormed
      · simp

theorem declaration_yields
    {tokens : List Token}
    (start : Nat) (stop : Position) (first : Token)
    (readable : ∀ token ∈ tokens, Readable good token) :
    Yields (fun read => read.1.WellFormed good) IsReading
      (declaration start stop first tokens) := by
  refine .bind (expectFirst_yields .identifier .declaredName stop readable) ?_
  rintro ⟨identifierToken, rest⟩ ⟨isIdentifier, identifierReadable, restReadable⟩
  refine .bind (leafAt_yields_name isIdentifier identifierReadable) ?_
  intro identifier isName
  refine .bind (takeType_yields _ _ (takeColon_readable restReadable)) ?_
  rintro ⟨typeKeyword, behindType⟩ ⟨isType, behindReadable⟩
  refine .bind (takeInitializer_yields _ _ behindReadable) ?_
  rintro ⟨expression, unread⟩ wellFormed
  dsimp only
  split
  · exact .inl (.intro _ _)
  · next typed =>
      refine ⟨isName, isType, wellFormed, ?_⟩
      cases typeKeyword <;> cases expression <;> simp at typed ⊢

theorem assignment_yields
    {first : Token} {tokens : List Token}
    (start : Nat) (stop : Position)
    (isIdentifier : first.kind = .identifier)
    (firstReadable : Readable good first)
    (readable : ∀ token ∈ tokens, Readable good token) :
    Yields (fun read => read.1.WellFormed good) IsReading
      (assignment start stop first tokens) := by
  refine .bind (leafAt_yields_name isIdentifier firstReadable) ?_
  intro identifier isName
  refine .bind (expectFirst_yields .colon _ stop readable) ?_
  rintro ⟨colon, behindColon⟩ ⟨_, _, behindColonReadable⟩
  refine .bind (expectFirst_yields .equal _ stop behindColonReadable) ?_
  rintro ⟨equal, behindEqual⟩ ⟨_, _, behindEqualReadable⟩
  refine .bind (parse_yields_of_readable _ _ behindEqualReadable) ?_
  intro tree wellFormed
  exact ⟨isName, wellFormed⟩

theorem input_yields
    {tokens : List Token}
    (stop : Position) (first : Token)
    (readable : ∀ token ∈ tokens, Readable good token) :
    Yields (fun read => read.1.WellFormed good) IsReading (input stop first tokens) := by
  refine .bind (expectFirst_yields .identifier .inputName stop readable) ?_
  rintro ⟨identifierToken, rest⟩ ⟨isIdentifier, identifierReadable, _⟩
  refine .bind (leafAt_yields_name isIdentifier identifierReadable) ?_
  intro identifier isName
  exact isName

theorem output_yields
    {tokens : List Token}
    (start : Nat) (stop : Position) (first : Token)
    (readable : ∀ token ∈ tokens, Readable good token) :
    Yields (fun read => read.1.WellFormed good) IsReading (output start stop first tokens) := by
  refine .bind (parse_yields_of_readable _ _ readable) ?_
  intro tree wellFormed
  exact wellFormed

theorem form_yields
    {first : Token} {tokens : List Token}
    (start : Nat) (stop : Position)
    (firstReadable : Readable good first)
    (readable : ∀ token ∈ tokens, Readable good token) :
    Yields (fun read => read.1.WellFormed good) IsReading (form start stop first tokens) := by
  unfold form
  split
  · exact declaration_yields start stop first readable
  · next isIdentifier => exact assignment_yields start stop isIdentifier firstReadable readable
  · exact input_yields stop first readable
  · exact output_yields start stop first readable
  · exact .inl (.intro _ _)

/-- Coherent tokens are read as a well-formed statement, with two sorts of faults. -/
theorem read_yields
    {tokens : List Token}
    (start : Nat) (stop : Position)
    (readable : ∀ token ∈ tokens, Readable good token) :
    Yields (StatementTree.WellFormed good) IsReading (read start stop tokens) := by
  cases tokens with
  | nil => exact .inl (.intro _ _)
  | cons first rest =>
      obtain ⟨firstReadable, restReadable⟩ := List.forall_mem_cons.mp readable
      refine .bind (form_yields start stop firstReadable restReadable) ?_
      rintro ⟨statement, unread⟩ wellFormed
      cases unread with
      | nil => exact wellFormed
      | cons token others => exact .inl (.intro _ _)

theorem readChunks_yields
    {list : List Chunk}
    (start : Nat)
    (readable : ∀ chunk ∈ list, ∀ token ∈ chunk.tokens, Readable good token) :
    Yields (fun statements => ∀ statement ∈ statements, statement.WellFormed good) IsReading
      (readChunks start list) := by
  induction list generalizing start with
  | nil => simp [readChunks]
  | cons chunk rest inductionHypothesis =>
      obtain ⟨chunkReadable, restReadable⟩ := List.forall_mem_cons.mp readable
      refine .bind (read_yields start _ chunkReadable) ?_
      intro statement wellFormed
      refine .bind (inductionHypothesis _ restReadable) ?_
      intro others othersWellFormed
      exact List.forall_mem_cons.mpr ⟨wellFormed, othersWellFormed⟩

/-- Coherent tokens are read as well-formed statements, with two sorts of faults. -/
theorem readProgram_yields
    {tokens : List Token}
    (file : String)
    (readable : ∀ token ∈ tokens, Readable good token) :
    Yields (fun statements => ∀ statement ∈ statements, statement.WellFormed good) IsReading
      (readProgram tokens file) := by
  unfold readProgram
  split
  · exact .inl (.intro _ _)
  · have chunksReadable : ∀ chunk ∈ (chunks tokens).1, ∀ token ∈ chunk.tokens,
        Readable good token := by
      intro chunk inChunks token inChunk
      refine readable token ?_
      rw [← flatMap_chunks tokens]
      refine List.mem_append_left _ (List.mem_flatMap.mpr ⟨chunk, inChunks, ?_⟩)
      exact List.mem_append_left _ inChunk
    refine .bind (readChunks_yields 2 chunksReadable) ?_
    intro statements wellFormed
    unfold refuseTrailing
    split
    · exact wellFormed
    · exact .inl (.intro _ _)

end Sentence

/-- Coherent tokens are parsed as the program of well-formed statements, with two sorts of
faults. -/
theorem parse_yields
    {good : Leaf -> Prop} {tokens : List Token}
    (file : String)
    (readable : ∀ token ∈ tokens, Readable good token) :
    Yields
      (fun program => ∃ statements, (∀ statement ∈ statements, statement.WellFormed good) ∧
        program = untaggedProgram (Sentence.startOf tokens file) statements)
      IsReading (parse tokens file) := by
  rw [parse_eq]
  have yields := Sentence.readProgram_yields file readable
  cases read : Sentence.readProgram tokens file with
  | error fault => exact yields.fault read
  | ok statements => exact ⟨statements, yields.value read, rfl⟩

end Grammar
end ScriptLang
