import ScriptLang.Grammar.Statement
import ScriptLang.Proofs.Grammar.Planting
import ScriptLang.Proofs.Program.StatementTree

/-!
# Reading statements as trees

The reading of a statement once more, as a function of its tokens whose result is
a tree.  The main statement says that the reader of the front end succeeds on the
same tokens, puts the nodes of that tree at the end of the program, and fails with
the same fault otherwise.
-/

namespace ScriptLang
namespace Grammar

open Source (Position)

namespace Sentence

/-- The place of the first token, or the place where the tokens end. -/
def placeOf (tokens : List Token) (stop : Position) : Position :=
  match tokens with
  | token :: _ => token.span.start
  | [] => stop

/-- The first token, which must have the given kind, and the tokens behind it. -/
def expectFirst
    (kind : TokenKind) (expectation : Expectation) (stop : Position) :
    List Token -> Except Fault (Token × List Token)
  | [] => .error (.ofSyntax (.unmet expectation none) stop)
  | token :: rest =>
      if token.kind = kind then .ok (token, rest)
      else .error (.ofSyntax (.unmet expectation (some token.value)) token.span.start)

/-- The leaf that a token carries, at its place. -/
def leafAt (token : Token) : Except Fault LeafAt :=
  match token.payload with
  | .leaf content => .ok ⟨content, token.span.start⟩
  | _ => .error (.ofInternal (.noLeaf token) token.span.start)

/-- Leave out a colon and say whether there was one. -/
def takeColon : List Token -> Bool × List Token
  | [] => (false, [])
  | token :: rest => if token.kind = .colon then (true, rest) else (false, token :: rest)

/-- Read a type keyword, if there is one, and the tokens behind it. -/
def takeType (hasColon : Bool) (name : String) :
    List Token -> Except Fault (Option LeafAt × List Token)
  | [] => .ok (none, [])
  | token :: rest =>
      if token.kind = .typeKeyword then
        if hasColon then do
          let leaf ← leafAt token
          return (some leaf, rest)
        else throw (.ofSyntax (.typeWithoutColon name) token.span.start)
      else return (none, token :: rest)

/-- Read an equals sign and all tokens behind it as an expression, if there is one.  The number
`start` of the first node of the expression is only used in refusals. -/
def takeInitializer (start : Nat) (stop : Position) :
    List Token -> Except Fault (Option Tree × List Token)
  | [] => .ok (none, [])
  | token :: rest =>
      if token.kind = .equal then do
        let tree ← Forest.parse start rest (placeOf rest stop)
        return (some tree, [])
      else return (none, token :: rest)

/-- Read a declaration behind its first token. -/
def declaration (start : Nat) (stop : Position) (first : Token) (tokens : List Token) :
    Except Fault (StatementTree × List Token) := do
  let (identifierToken, tokens) ← expectFirst .identifier .declaredName stop tokens
  let identifier ← leafAt identifierToken
  let (typeKeyword, tokens) ←
    takeType (takeColon tokens).1 identifierToken.value (takeColon tokens).2
  let (expression, tokens) ←
    takeInitializer (start + (identifier :: typeKeyword.toList).length) stop tokens
  if typeKeyword.isNone && expression.isNone then
    throw (.ofSyntax (.untypedDeclaration identifierToken.value) first.span.start)
  else return (.declaration first.span.start identifier typeKeyword expression, tokens)

/-- Read an assignment behind its first token. -/
def assignment (start : Nat) (stop : Position) (first : Token) (tokens : List Token) :
    Except Fault (StatementTree × List Token) := do
  let identifier ← leafAt first
  let (_, tokens) ← expectFirst .colon (.assignmentSign first.value) stop tokens
  let (_, tokens) ← expectFirst .equal (.assignmentSign first.value) stop tokens
  let expression ← Forest.parse (start + 1) tokens (placeOf tokens stop)
  return (.assignment first.span.start identifier expression, [])

/-- Read an input behind its first token. -/
def input (stop : Position) (first : Token) (tokens : List Token) :
    Except Fault (StatementTree × List Token) := do
  let (identifierToken, tokens) ← expectFirst .identifier .inputName stop tokens
  let identifier ← leafAt identifierToken
  return (.input first.span.start identifier, tokens)

/-- Read an output behind its first token. -/
def output (start : Nat) (stop : Position) (first : Token) (tokens : List Token) :
    Except Fault (StatementTree × List Token) := do
  let expression ← Forest.parse start tokens (placeOf tokens stop)
  return (.output first.span.start expression, [])

/-- Read the statement that the kind of a first token starts. -/
def form (start : Nat) (stop : Position) (first : Token) (tokens : List Token) :
    Except Fault (StatementTree × List Token) :=
  match first.kind with
  | .declaration => declaration start stop first tokens
  | .identifier => assignment start stop first tokens
  | .standardInput => input stop first tokens
  | .standardOutput => output start stop first tokens
  | _ => throw (.ofSyntax (.unknownStatement first.value) first.span.start)

/-- Read all tokens as one statement whose first node would have number `start`. -/
def read (start : Nat) (stop : Position) : List Token -> Except Fault StatementTree
  | [] => throw (.ofSyntax .emptyStatement stop)
  | first :: rest => do
      let (statement, unread) ← form start stop first rest
      match unread with
      | [] => return statement
      | token :: _ => throw (.ofSyntax (.leftover token.value) token.span.start)

end Sentence

variable {α β γ δ : Type}

/-- What a reading leaves: its result, the tokens that are unread, and the nodes that it has
put at the end of the program. -/
structure Picture (β : Type) where
  result : β
  unread : List Token
  nodes : List Node

/-- An outcome of a reader mirrors a reading apart from programs: both succeed or both fail with
one fault.  Successful or not, the reader only puts nodes at the end of the program. -/
def ReadingMirrors
    (stop : Position)
    (program : Program)
    (picture : α -> Picture β) :
    Except Fault α -> EStateM.Result Fault Reader β -> Prop
  | .ok value, outcome =>
      outcome = .ok (picture value).result
        ⟨(picture value).unread, stop, program.extend (picture value).nodes⟩
  | .error fault, outcome =>
      ∃ unread nodes, outcome = .error fault ⟨unread, stop, program.extend nodes⟩

namespace ReadingMirrors

variable {stop : Position} {program : Program}

theorem bind
    {picture : α -> Picture β}
    {laterPicture : γ -> Picture δ}
    {first : Except Fault α}
    {reading : Reading β}
    {next : α -> Except Fault γ}
    {readingNext : β -> Reading δ}
    {start : Reader}
    (mirrors : ReadingMirrors stop program picture first (reading start))
    (mirrorsNext : ∀ value, first = .ok value ->
      ReadingMirrors stop program laterPicture (next value)
        (readingNext (picture value).result
          ⟨(picture value).unread, stop, program.extend (picture value).nodes⟩)) :
    ReadingMirrors stop program laterPicture (first >>= next)
      ((reading >>= readingNext) start) := by
  cases first with
  | ok value =>
      rw [Running.bind_of_ok mirrors]
      exact mirrorsNext value rfl
  | error fault =>
      obtain ⟨unread, nodes, failed⟩ := mirrors
      rw [Running.bind_of_error failed]
      exact ⟨unread, nodes, rfl⟩

/-- A step that is done does not show. -/
theorem bind_of_ok
    {laterPicture : γ -> Picture δ}
    {reading : Reading β}
    {next : Except Fault γ}
    {readingNext : β -> Reading δ}
    {start after : Reader}
    {result : β}
    (done : reading start = .ok result after)
    (mirrors : ReadingMirrors stop program laterPicture next (readingNext result after)) :
    ReadingMirrors stop program laterPicture next ((reading >>= readingNext) start) := by
  rw [Running.bind_of_ok done]
  exact mirrors

/-- A fault leaves everything as it is. -/
theorem throw
    {picture : α -> Picture β}
    (unread : List Token) (nodes : List Node) (fault : Fault) :
    ReadingMirrors stop program picture (.error fault)
      ((throw fault : Reading β) ⟨unread, stop, program.extend nodes⟩) :=
  ⟨unread, nodes, rfl⟩

end ReadingMirrors

section

variable (stop : Position) (program : Program) (nodes : List Node)

theorem expect_mirrors
    (kind : TokenKind) (expectation : Expectation) (tokens : List Token) :
    ReadingMirrors stop program (fun read : Token × List Token => ⟨read.1, read.2, nodes⟩)
      (Sentence.expectFirst kind expectation stop tokens)
      (expect kind expectation ⟨tokens, stop, program.extend nodes⟩) := by
  cases tokens with
  | nil => exact .throw [] nodes _
  | cons token rest =>
      simp only [expect, Running.bind_apply, Running.get_apply, Sentence.expectFirst]
      split
      · rfl
      · exact .throw (token :: rest) nodes _

theorem expect_apply
    {kind : TokenKind} {token : Token}
    (expectation : Expectation) (rest : List Token)
    (isKind : token.kind = kind) :
    expect kind expectation ⟨token :: rest, stop, program⟩ =
      .ok token ⟨rest, stop, program⟩ := by
  simp only [expect, Running.bind_apply, Running.get_apply, if_pos isKind]
  rfl

theorem leafAt_mirrors (token : Token) (unread : List Token) :
    ReadingMirrors stop program
      (fun leaf : LeafAt =>
        ⟨program.size + nodes.length, unread, nodes ++ [leaf.node none]⟩)
      (Sentence.leafAt token)
      (build (addLeaf token) ⟨unread, stop, program.extend nodes⟩) := by
  unfold Sentence.leafAt build addLeaf
  cases token.payload with
  | empty => exact ⟨unread, nodes, rfl⟩
  | operator binding => exact ⟨unread, nodes, rfl⟩
  | leaf content =>
      have added := Program.add_of_children_eq_nil (program.extend nodes) (.leaf content)
        token.span.start rfl
      rw [Program.extend_extend] at added
      simp only [Program.addNode, added, Program.size_extend]
      rfl

theorem readExpression_mirrors (tokens : List Token) :
    ReadingMirrors stop program
      (fun tree : Tree =>
        ⟨program.size + nodes.length + tree.expressionDescendants, [],
          nodes ++ tree.expressionLayout Tree.untagged (program.size + nodes.length) none⟩)
      (Forest.parse (program.size + nodes.length) tokens (Sentence.placeOf tokens stop))
      (readExpression ⟨tokens, stop, program.extend nodes⟩) := by
  have sameplace : (Reader.mk tokens stop (program.extend nodes)).position =
      Sentence.placeOf tokens stop := by
    cases tokens <;> rfl
  have mirrors := parseExpression_mirrors (program.extend nodes) tokens
    (Sentence.placeOf tokens stop)
  rw [Program.size_extend] at mirrors
  unfold readExpression
  simp only [Running.bind_apply, Running.get_apply, Running.set_apply, build, sameplace]
  cases read : Forest.parse (program.size + nodes.length) tokens
      (Sentence.placeOf tokens stop) with
  | error fault =>
      rw [read] at mirrors
      obtain ⟨trees, failed⟩ := mirrors
      rw [failed]
      exact ⟨[], nodes ++ planted (program.extend nodes).size trees, by
        simp only [plant, Program.extend_extend]⟩
  | ok tree =>
      rw [read] at mirrors
      unfold Mirrors at mirrors
      rw [mirrors]
      simp only [ReadingMirrors, expressionOf, Program.size_extend, Program.extend_extend]

theorem nextKind?_apply (reader : Reader) :
    nextKind? reader = .ok (reader.unread.head?.map Token.kind) reader := rfl

theorem skip_apply (token : Token) (rest : List Token) :
    skip ⟨token :: rest, stop, program⟩ = .ok () ⟨rest, stop, program⟩ := rfl

theorem readColon_apply (tokens : List Token) :
    readColon ⟨tokens, stop, program⟩ =
      .ok (Sentence.takeColon tokens).1 ⟨(Sentence.takeColon tokens).2, stop, program⟩ := by
  rw [readColon, Running.bind_of_ok (nextKind?_apply _)]
  cases tokens with
  | nil => rfl
  | cons token rest =>
      by_cases isColon : token.kind = .colon
      · simp only [List.head?_cons, Option.map_some, isColon, if_true, Sentence.takeColon]
        rfl
      · have notColon : (Reader.mk (token :: rest) stop program).unread.head?.map Token.kind ≠
            some .colon := by
          simpa using isColon
        rw [if_neg notColon, Sentence.takeColon, if_neg isColon]
        rfl

theorem readType_mirrors (hasColon : Bool) (name : String) (tokens : List Token) :
    ReadingMirrors stop program
      (fun read : Option LeafAt × List Token =>
        ⟨read.1.map fun _ => program.size + nodes.length, read.2,
          nodes ++ read.1.toList.map (LeafAt.node none)⟩)
      (Sentence.takeType hasColon name tokens)
      (readType hasColon name ⟨tokens, stop, program.extend nodes⟩) := by
  rw [readType, Running.bind_of_ok (nextKind?_apply _)]
  cases tokens with
  | nil => simp [Sentence.takeType, ReadingMirrors]
  | cons token rest =>
      by_cases isType : token.kind = .typeKeyword
      · simp only [List.head?_cons, Option.map_some, isType, if_true, Sentence.takeType]
        cases hasColon with
        | false => exact .throw (token :: rest) nodes _
        | true =>
            simp only [if_true]
            rw [expectToken, Running.bind_of_ok (expect_apply _ _ _ _ isType)]
            refine .bind (leafAt_mirrors stop program nodes token rest) ?_
            intro leaf _
            rfl
      · simp [Sentence.takeType, ReadingMirrors, isType]

theorem readInitializer_mirrors (tokens : List Token) :
    ReadingMirrors stop program
      (fun read : Option Tree × List Token =>
        ⟨read.1.map fun tree => program.size + nodes.length + tree.expressionDescendants, read.2,
          nodes ++ StatementTree.expressionNodes Tree.untagged (program.size + nodes.length) none
            read.1⟩)
      (Sentence.takeInitializer (program.size + nodes.length) stop tokens)
      (readInitializer ⟨tokens, stop, program.extend nodes⟩) := by
  rw [readInitializer, Running.bind_of_ok (nextKind?_apply _)]
  cases tokens with
  | nil => simp [Sentence.takeInitializer, ReadingMirrors, StatementTree.expressionNodes]
  | cons token rest =>
      by_cases isEqual : token.kind = .equal
      · simp only [List.head?_cons, Option.map_some, isEqual, if_true, Sentence.takeInitializer]
        rw [Running.bind_of_ok (skip_apply _ _ _ _)]
        refine .bind (readExpression_mirrors stop program nodes rest) ?_
        intro tree _
        rfl
      · simp [Sentence.takeInitializer, ReadingMirrors, StatementTree.expressionNodes, isEqual]

end

/-- The picture of a statement that is read: its node stands behind the nodes of its parts. -/
def statementPicture (program : Program) (read : StatementTree × List Token) :
    Picture NodeId :=
  ⟨program.size + read.1.descendants, read.2,
    read.1.layout Tree.untagged program.size none⟩

section

variable (stop : Position) (program : Program)

/-- The node of a statement is added behind its parts. -/
theorem addNode_mirrors
    (statement : StatementTree) (unread : List Token) (form : Statement) (position : Position)
    (sameForm : form = statement.form program.size)
    (samePosition : position = statement.position) :
    ReadingMirrors stop program (statementPicture program) (.ok (statement, unread))
      (build (Program.addNode (.statement form) position)
        ⟨unread, stop, program.extend (statement.parts Tree.untagged program.size none)⟩) := by
  have added := StatementTree.add_statement program Tree.untagged statement
  subst sameForm samePosition
  simp only [build, Program.addNode, added, Program.size_extend, StatementTree.length_parts]
  rfl

theorem readDeclaration_mirrors
    {first : Token}
    (tokens : List Token)
    (isFirst : first.kind = .declaration) :
    ReadingMirrors stop program (statementPicture program)
      (Sentence.declaration program.size stop first tokens)
      (readDeclaration ⟨first :: tokens, stop, program⟩) := by
  refine .bind_of_ok (expect_apply _ _ _ _ isFirst) ?_
  have expected := expect_mirrors stop program [] .identifier .declaredName tokens
  rw [Program.extend_nil] at expected
  refine .bind expected ?_
  rintro ⟨identifierToken, rest⟩ _
  refine .bind (leafAt_mirrors stop program [] identifierToken rest) ?_
  intro identifier _
  let nodes := [identifier.node none]
  refine .bind_of_ok (readColon_apply stop (program.extend nodes) rest) ?_
  refine .bind (readType_mirrors stop program nodes _ _ _) ?_
  rintro ⟨typeKeyword, others⟩ _
  let leafNodes := nodes ++ typeKeyword.toList.map (LeafAt.node none)
  have starts : program.size + leafNodes.length =
      program.size + (identifier :: typeKeyword.toList).length := by
    simp [leafNodes, nodes]
  have initial := readInitializer_mirrors stop program leafNodes others
  rw [starts] at initial
  refine .bind initial ?_
  rintro ⟨expression, last⟩ _
  simp only [Option.isNone_map]
  split
  · exact .throw _ _ _
  · exact addNode_mirrors stop program
      (.declaration first.span.start identifier typeKeyword expression) last _ _ rfl rfl

theorem readAssignment_mirrors
    {first : Token}
    (tokens : List Token)
    (isFirst : first.kind = .identifier) :
    ReadingMirrors stop program (statementPicture program)
      (Sentence.assignment program.size stop first tokens)
      (readAssignment ⟨first :: tokens, stop, program⟩) := by
  refine .bind_of_ok (expect_apply _ _ _ _ isFirst) ?_
  have reading := leafAt_mirrors stop program [] first tokens
  rw [Program.extend_nil] at reading
  refine .bind reading ?_
  intro identifier _
  let nodes := [identifier.node none]
  refine .bind (expect_mirrors stop program nodes _ _ _) ?_
  rintro ⟨colon, rest⟩ _
  refine .bind (expect_mirrors stop program nodes _ _ _) ?_
  rintro ⟨equal, last⟩ _
  refine .bind (readExpression_mirrors stop program nodes last) ?_
  intro expression _
  exact addNode_mirrors stop program (.assignment first.span.start identifier expression) [] _ _
    rfl rfl

theorem readInput_mirrors
    {first : Token}
    (tokens : List Token)
    (isFirst : first.kind = .standardInput) :
    ReadingMirrors stop program (statementPicture program)
      (Sentence.input stop first tokens)
      (readInput ⟨first :: tokens, stop, program⟩) := by
  refine .bind_of_ok (expect_apply _ _ _ _ isFirst) ?_
  have expected := expect_mirrors stop program [] .identifier .inputName tokens
  rw [Program.extend_nil] at expected
  refine .bind expected ?_
  rintro ⟨identifierToken, rest⟩ _
  refine .bind (leafAt_mirrors stop program [] identifierToken rest) ?_
  intro identifier _
  exact addNode_mirrors stop program (.input first.span.start identifier) rest _ _ rfl rfl

theorem readOutput_mirrors
    {first : Token}
    (tokens : List Token)
    (isFirst : first.kind = .standardOutput) :
    ReadingMirrors stop program (statementPicture program)
      (Sentence.output program.size stop first tokens)
      (readOutput ⟨first :: tokens, stop, program⟩) := by
  refine .bind_of_ok (expect_apply _ _ _ _ isFirst) ?_
  have reading := readExpression_mirrors stop program [] tokens
  rw [Program.extend_nil] at reading
  refine .bind reading ?_
  intro expression _
  exact addNode_mirrors stop program (.output first.span.start expression) [] _ _ rfl rfl

/-- The picture of a statement that takes up all tokens, with its first token. -/
def wholePicture (program : Program) (first : Token) (statement : StatementTree) :
    Picture (Token × NodeId) :=
  ⟨(first, program.size + statement.descendants), [],
    statement.layout Tree.untagged program.size none⟩

/-- Reading a statement into a program mirrors reading it as a tree. -/
theorem readStatement_mirrors (first : Token) (rest : List Token) :
    ReadingMirrors stop program (wholePicture program first)
      (Sentence.read program.size stop (first :: rest))
      (readStatement FormTable.standard ⟨first :: rest, stop, program⟩) := by
  have forms : ∀ form, FormTable.standard first.kind = some form ->
      ReadingMirrors stop program (statementPicture program)
        (Sentence.form program.size stop first rest)
        (form.read ⟨first :: rest, stop, program⟩) := by
    intro form isForm
    unfold Sentence.form
    cases kind : first.kind <;> rw [kind] at isForm <;> cases isForm
    · exact readAssignment_mirrors stop program rest kind
    · exact readDeclaration_mirrors stop program rest kind
    · exact readInput_mirrors stop program rest kind
    · exact readOutput_mirrors stop program rest kind
  unfold readStatement
  rw [Running.bind_of_ok (Running.get_apply _)]
  simp only
  cases isForm : FormTable.standard first.kind with
  | none =>
      have unknown : Sentence.read program.size stop (first :: rest) =
          .error (.ofSyntax (.unknownStatement first.value) first.span.start) := by
        unfold Sentence.read Sentence.form
        unfold FormTable.standard at isForm
        cases kind : first.kind <;> simp [kind] at isForm ⊢
      rw [unknown]
      have nothing := Program.extend_nil program
      exact ⟨first :: rest, [], by rw [nothing]; rfl⟩
  | some form =>
      refine .bind (forms form isForm) ?_
      rintro ⟨statement, unread⟩ _
      refine .bind_of_ok (Running.get_apply _) ?_
      cases unread with
      | nil => rfl
      | cons token others => exact .throw _ _ _

end

end Grammar
end ScriptLang
