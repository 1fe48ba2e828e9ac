import ScriptLang.Proofs.Fault.Reading
import ScriptLang.Proofs.Grammar.Spelling
import ScriptLang.Proofs.Typing.CommandTree

/-!
# The grammar of statements

The statements of the language as phrases of tokens, in which an expression is any
nonempty list of tokens that the reader of expressions accepts.  The main
statements say that the reader of statements reads nothing but phrases, that it
reads every phrase, and that the statement it reads is what the phrase means.
-/

namespace ScriptLang
namespace Grammar

open Source (Position)

/-- The tokens of a statement that matter, apart from its signs. -/
inductive Phrase
  | declaration
      (first name : Token)
      (typeKeyword : Option Token)
      (expression : Option (List Token))
  | assignment (name : Token) (expression : List Token)
  | input (first name : Token)
  | output (first : Token) (expression : List Token)

/-- A colon with or without a type keyword behind it, or nothing. -/
inductive IsAnnotation : List Token -> Option Token -> Prop
  | absent : IsAnnotation [] none
  | bare {colon : Token} (isColon : colon.kind = .colon) : IsAnnotation [colon] none
  | typed
      {colon keyword : Token}
      (isColon : colon.kind = .colon)
      (isType : keyword.kind = .typeKeyword) :
      IsAnnotation [colon, keyword] (some keyword)

/-- An equals sign and an expression behind it, or nothing. -/
inductive IsInitializer : List Token -> Option (List Token) -> Prop
  | absent : IsInitializer [] none
  | present
      {equal : Token} {tokens : List Token}
      (isEqual : equal.kind = .equal) :
      IsInitializer (equal :: tokens) (some tokens)

/-- The tokens of a statement. -/
inductive IsPhrase : List Token -> Phrase -> Prop
  | declaration
      {first name : Token}
      {typePart initializer : List Token}
      {typeKeyword : Option Token} {expression : Option (List Token)}
      (isFirst : first.kind = .declaration)
      (isName : name.kind = .identifier)
      (annotated : IsAnnotation typePart typeKeyword)
      (initialized : IsInitializer initializer expression)
      (typed : typeKeyword.isSome ∨ expression.isSome) :
      IsPhrase (first :: name :: (typePart ++ initializer))
        (.declaration first name typeKeyword expression)
  | assignment
      {name colon equal : Token} {tokens : List Token}
      (isName : name.kind = .identifier)
      (isColon : colon.kind = .colon)
      (isEqual : equal.kind = .equal) :
      IsPhrase (name :: colon :: equal :: tokens) (.assignment name tokens)
  | input
      {first name : Token}
      (isFirst : first.kind = .standardInput)
      (isName : name.kind = .identifier) :
      IsPhrase [first, name] (.input first name)
  | output
      {first : Token} {tokens : List Token}
      (isFirst : first.kind = .standardOutput) :
      IsPhrase (first :: tokens) (.output first tokens)

/-- Nonempty tokens that the reader of expressions accepts, in some program. -/
def Accepted (tokens : List Token) : Prop :=
  tokens ≠ [] ∧ ∃ position program node after,
    parseExpression tokens position program = .ok node after

/-- Nonempty tokens that are read as a given expression, in every program. -/
def ReadsAs (tokens : List Token) (value : Term) : Prop :=
  tokens ≠ [] ∧ ∀ position program, ∃ node after,
    parseExpression tokens position program = .ok node after ∧ after.term? node = some value

namespace Phrase

/-- The tokens of the expression of a phrase. -/
def expression? : Phrase -> Option (List Token)
  | .declaration _ _ _ expression => expression
  | .assignment _ expression => some expression
  | .input _ _ => none
  | .output _ expression => some expression

/-- What the type and the expression of a declaration say about its variable. -/
inductive Declares : Option Token -> Option (List Token) -> Declared -> Prop
  | bare
      {keyword : Token} {ty : Ty}
      (carries : keyword.payload = .leaf (.typeKeyword ty)) :
      Declares (some keyword) none (.bare ty)
  | inferred
      {tokens : List Token} {value : Term}
      (reads : ReadsAs tokens value) :
      Declares none (some tokens) (.inferred value)
  | annotated
      {keyword : Token} {ty : Ty} {tokens : List Token} {value : Term}
      (carries : keyword.payload = .leaf (.typeKeyword ty))
      (reads : ReadsAs tokens value) :
      Declares (some keyword) (some tokens) (.annotated ty value)

/-- The command that a phrase means. -/
inductive Means : Phrase -> Command -> Prop
  | declaration
      {first name : Token}
      {typeKeyword : Option Token} {expression : Option (List Token)} {declared : Declared}
      (declares : Declares typeKeyword expression declared) :
      Means (.declaration first name typeKeyword expression)
        (.declare first.span.start name.value declared)
  | assignment
      {name : Token} {tokens : List Token} {value : Term}
      (reads : ReadsAs tokens value) :
      Means (.assignment name tokens) (.assign name.value name.span.start value)
  | input {first name : Token} :
      Means (.input first name) (.input name.value name.span.start)
  | output
      {first : Token} {tokens : List Token} {value : Term}
      (reads : ReadsAs tokens value) :
      Means (.output first tokens) (.output value)

end Phrase

/-! ## Expressions of phrases -/

namespace Forest

/-- Tokens that are read as a tree, wherever its nodes will stand. -/
def ParsesAs (tokens : List Token) (tree : Tree) : Prop :=
  ∀ start position, parse start tokens position = .ok tree

theorem single_eq_ok
    {start : Nat} {position : Position} {trees : List Tree} {tree : Tree}
    (isSingle : single start position trees = .ok tree) :
    trees = [tree] ∧ tree.isExpression = true := by
  rcases trees with _ | ⟨first, _ | ⟨second, others⟩⟩
  · cases isSingle
  · rw [single] at isSingle
    split at isSingle
    · next isExpression =>
        cases isSingle
        exact ⟨rfl, isExpression⟩
    · cases isSingle
  · cases isSingle

/-- The number of the first node and the place of an expression only matter if it is refused. -/
theorem parsesAs_of_parse
    {start : Nat} {tokens : List Token} {position : Position} {tree : Tree}
    (parsed : parse start tokens position = .ok tree) :
    ParsesAs tokens tree := by
  intro other place
  unfold parse at parsed ⊢
  split at parsed
  · cases parsed
  · next nonempty =>
      obtain ⟨trees, read, isSingle⟩ := (bind_eq_ok_iff _ _ _).mp parsed
      obtain ⟨rfl, isExpression⟩ := single_eq_ok isSingle
      rw [if_neg nonempty, read, ok_bind, single, if_pos isExpression]

/-- Tokens are read as a tree if it is the only one that is left of them, and may stand as an
expression. -/
theorem parsesAs_iff_readAll (tokens : List Token) (tree : Tree) :
    ParsesAs tokens tree ↔
      tokens ≠ [] ∧ readAll greatestDepth tokens = .ok [tree] ∧ tree.isExpression = true := by
  constructor
  · intro parses
    have parsed := parses 0 Source.nowhere
    unfold parse at parsed
    split at parsed
    · cases parsed
    · next nonempty =>
        obtain ⟨trees, read, isSingle⟩ := (bind_eq_ok_iff _ _ _).mp parsed
        obtain ⟨rfl, isExpression⟩ := single_eq_ok isSingle
        exact ⟨fun isNil => nonempty (List.isEmpty_iff.mpr isNil), read, isExpression⟩
  · rintro ⟨nonempty, read, isExpression⟩ start position
    rw [parse, if_neg fun isEmpty => nonempty (List.isEmpty_iff.mp isEmpty), read, ok_bind, single,
      if_pos isExpression]

theorem ParsesAs.ne_nil
    {tokens : List Token} {tree : Tree}
    (parses : ParsesAs tokens tree) :
    tokens ≠ [] := by
  rintro rfl
  cases parses 0 Source.nowhere

/-- Coherent tokens of a tree are read as its expression. -/
theorem ParsesAs.exists_readsAs
    {tokens : List Token} {tree : Tree}
    (parses : ParsesAs tokens tree)
    (coherent : ∀ token ∈ tokens, token.Coherent) :
    ∃ value, tree.term? = some value ∧ ReadsAs tokens value := by
  have wellFormed : Tree.WellFormed (fun _ => True) tree :=
    (Forest.parse_yields 0 Source.nowhere coherent fun _ _ _ _ _ => trivial).value
      (parses 0 Source.nowhere)
  obtain ⟨value, isTerm⟩ := Tree.exists_term? wellFormed.1
  refine ⟨value, isTerm, parses.ne_nil, ?_⟩
  intro position program
  have mirrors := parseExpression_mirrors program tokens position
  rw [parses program.size position] at mirrors
  refine ⟨_, _, mirrors, ?_⟩
  rw [← isTerm]
  exact Program.term?_of_expressionLayout (Program.holds_extend program _)

theorem ParsesAs.accepted
    {tokens : List Token} {tree : Tree}
    (parses : ParsesAs tokens tree) :
    Accepted tokens := by
  let program := Program.empty Source.nowhere
  have mirrors := parseExpression_mirrors program tokens Source.nowhere
  rw [parses program.size Source.nowhere] at mirrors
  exact ⟨parses.ne_nil, _, program, _, _, mirrors⟩

/-- Accepted tokens are read as a tree. -/
theorem exists_parsesAs
    {tokens : List Token}
    (accepted : Accepted tokens) :
    ∃ tree, ParsesAs tokens tree := by
  obtain ⟨_, position, program, node, after, parsed⟩ := accepted
  obtain ⟨tree, treeParsed, _⟩ := parse_of_parseExpression parsed
  exact ⟨tree, parsesAs_of_parse treeParsed⟩

end Forest

/-! ## Phrases and trees of statements -/

namespace Phrase

open Forest (ParsesAs)

/-- The leaf of an optional type keyword. -/
inductive BuildsType : Option Token -> Option LeafAt -> Prop
  | absent : BuildsType none none
  | present
      {keyword : Token} {ty : Ty}
      (carries : keyword.payload = .leaf (.typeKeyword ty)) :
      BuildsType (some keyword) (some ⟨.typeKeyword ty, keyword.span.start⟩)

/-- The tree of an optional expression. -/
inductive BuildsValue : Option (List Token) -> Option Tree -> Prop
  | absent : BuildsValue none none
  | present
      {tokens : List Token} {tree : Tree}
      (parses : ParsesAs tokens tree) :
      BuildsValue (some tokens) (some tree)

/-- The statement that a phrase is read as. -/
inductive Builds : Phrase -> StatementTree -> Prop
  | declaration
      {first name : Token}
      {typeKeyword : Option Token} {expression : Option (List Token)}
      {leaf : Option LeafAt} {tree : Option Tree}
      (buildsType : BuildsType typeKeyword leaf)
      (buildsValue : BuildsValue expression tree) :
      Builds (.declaration first name typeKeyword expression)
        (.declaration first.span.start ⟨.identifier name.value, name.span.start⟩ leaf tree)
  | assignment
      {name : Token} {tokens : List Token} {tree : Tree}
      (parses : ParsesAs tokens tree) :
      Builds (.assignment name tokens)
        (.assignment name.span.start ⟨.identifier name.value, name.span.start⟩ tree)
  | input {first name : Token} :
      Builds (.input first name)
        (.input first.span.start ⟨.identifier name.value, name.span.start⟩)
  | output
      {first : Token} {tokens : List Token} {tree : Tree}
      (parses : ParsesAs tokens tree) :
      Builds (.output first tokens) (.output first.span.start tree)

theorem BuildsType.isSome_eq
    {typeKeyword : Option Token} {leaf : Option LeafAt}
    (builds : BuildsType typeKeyword leaf) :
    leaf.isSome = typeKeyword.isSome := by
  cases builds <;> rfl

theorem BuildsValue.isSome_eq
    {expression : Option (List Token)} {tree : Option Tree}
    (builds : BuildsValue expression tree) :
    tree.isSome = expression.isSome := by
  cases builds <;> rfl

end Phrase

open Phrase (Builds BuildsType BuildsValue Declares Means)

namespace Sentence

/-- A coherent identifier carries its text as a name. -/
theorem leafAt_of_isIdentifier
    {token : Token}
    (isName : token.kind = .identifier)
    (coherent : token.Coherent) :
    leafAt token = .ok ⟨.identifier token.value, token.span.start⟩ := by
  unfold Token.Coherent at coherent
  simp only [isName] at coherent
  exact leafAt_of_payload coherent

theorem exists_payload_of_isType
    {token : Token}
    (isType : token.kind = .typeKeyword)
    (coherent : token.Coherent) :
    ∃ ty, token.payload = .leaf (.typeKeyword ty) := by
  unfold Token.Coherent at coherent
  simpa only [isType] using coherent

theorem expectFirst_eq_ok
    {kind : TokenKind} {expectation : Expectation} {stop : Position}
    {tokens rest : List Token} {token : Token}
    (expected : expectFirst kind expectation stop tokens = .ok (token, rest)) :
    tokens = token :: rest ∧ token.kind = kind := by
  cases tokens with
  | nil => cases expected
  | cons first others =>
      rw [expectFirst] at expected
      split at expected
      · next isKind =>
          cases expected
          exact ⟨rfl, isKind⟩
      · cases expected

/-- What is taken between the name of a declaration and its initial value is an annotation. -/
theorem takeType_eq_ok
    {name : String} {tokens rest : List Token} {leaf : Option LeafAt}
    (coherent : ∀ token ∈ tokens, token.Coherent)
    (taken : takeType (takeColon tokens).1 name (takeColon tokens).2 = .ok (leaf, rest)) :
    ∃ typePart typeKeyword, tokens = typePart ++ rest ∧
      IsAnnotation typePart typeKeyword ∧ BuildsType typeKeyword leaf := by
  cases tokens with
  | nil =>
      cases taken
      exact ⟨[], none, rfl, .absent, .absent⟩
  | cons first others =>
      rw [takeColon] at taken
      split at taken
      · next isColon =>
          cases others with
          | nil =>
              cases taken
              exact ⟨[first], none, rfl, .bare isColon, .absent⟩
          | cons second behind =>
              rw [takeType] at taken
              split at taken
              · next isType =>
                  obtain ⟨ty, carries⟩ :=
                    exists_payload_of_isType isType (coherent second (by simp))
                  rw [if_pos rfl, leafAt_of_payload carries] at taken
                  cases taken
                  exact ⟨[first, second], some second, rfl, .typed isColon isType,
                    .present carries⟩
              · cases taken
                exact ⟨[first], none, rfl, .bare isColon, .absent⟩
      · rw [takeType] at taken
        split at taken
        · cases taken
        · cases taken
          exact ⟨[], none, rfl, .absent, .absent⟩

theorem takeInitializer_eq_ok
    {start : Nat} {stop : Position} {tokens rest : List Token} {tree : Option Tree}
    (taken : takeInitializer start stop tokens = .ok (tree, rest)) :
    ∃ initializer expression, tokens = initializer ++ rest ∧
      IsInitializer initializer expression ∧ BuildsValue expression tree := by
  cases tokens with
  | nil =>
      cases taken
      exact ⟨[], none, rfl, .absent, .absent⟩
  | cons first others =>
      rw [takeInitializer] at taken
      split at taken
      · next isEqual =>
          obtain ⟨value, parsed, result⟩ := (bind_eq_ok_iff _ _ _).mp taken
          cases result
          exact ⟨first :: others, some others, by simp, .present isEqual,
            .present (Forest.parsesAs_of_parse parsed)⟩
      · cases taken
        exact ⟨[], none, rfl, .absent, .absent⟩

section

variable {start : Nat} {stop : Position} {first : Token} {tokens : List Token}
  {statement : StatementTree}

theorem exists_phrase_of_declaration
    (isFirst : first.kind = .declaration)
    (coherent : ∀ token ∈ tokens, token.Coherent)
    (formed : declaration start stop first tokens = .ok (statement, [])) :
    ∃ phrase, IsPhrase (first :: tokens) phrase ∧ Builds phrase statement := by
  obtain ⟨⟨name, behindName⟩, expected, named⟩ := (bind_eq_ok_iff _ _ _).mp formed
  obtain ⟨rfl, isName⟩ := expectFirst_eq_ok expected
  obtain ⟨nameCoherent, behindCoherent⟩ := List.forall_mem_cons.mp coherent
  dsimp only at named
  rw [leafAt_of_isIdentifier isName nameCoherent, ok_bind] at named
  obtain ⟨⟨leaf, behindType⟩, typeTaken, behind⟩ := (bind_eq_ok_iff _ _ _).mp named
  obtain ⟨⟨tree, behindValue⟩, valueTaken, result⟩ := (bind_eq_ok_iff _ _ _).mp behind
  dsimp only at result
  split at result
  · cases result
  · next typed =>
      cases result
      obtain ⟨typePart, typeKeyword, rfl, annotated, buildsType⟩ :=
        takeType_eq_ok behindCoherent typeTaken
      obtain ⟨initializer, expression, rfl, initialized, buildsValue⟩ :=
        takeInitializer_eq_ok valueTaken
      rw [List.append_nil]
      refine ⟨_, .declaration isFirst isName annotated initialized ?_,
        .declaration buildsType buildsValue⟩
      rw [← buildsType.isSome_eq, ← buildsValue.isSome_eq]
      cases leaf <;> cases tree <;> simp at typed ⊢

theorem exists_phrase_of_assignment
    (isName : first.kind = .identifier)
    (coherent : first.Coherent)
    (formed : assignment start stop first tokens = .ok (statement, [])) :
    ∃ phrase, IsPhrase (first :: tokens) phrase ∧ Builds phrase statement := by
  rw [assignment, leafAt_of_isIdentifier isName coherent, ok_bind] at formed
  obtain ⟨⟨colon, behindColon⟩, colonExpected, signed⟩ := (bind_eq_ok_iff _ _ _).mp formed
  obtain ⟨rfl, isColon⟩ := expectFirst_eq_ok colonExpected
  obtain ⟨⟨equal, behindEqual⟩, equalExpected, valued⟩ := (bind_eq_ok_iff _ _ _).mp signed
  obtain ⟨rfl, isEqual⟩ := expectFirst_eq_ok equalExpected
  obtain ⟨tree, parsed, result⟩ := (bind_eq_ok_iff _ _ _).mp valued
  cases result
  exact ⟨_, .assignment isName isColon isEqual, .assignment (Forest.parsesAs_of_parse parsed)⟩

theorem exists_phrase_of_input
    (isFirst : first.kind = .standardInput)
    (coherent : ∀ token ∈ tokens, token.Coherent)
    (formed : input stop first tokens = .ok (statement, [])) :
    ∃ phrase, IsPhrase (first :: tokens) phrase ∧ Builds phrase statement := by
  obtain ⟨⟨name, behindName⟩, expected, named⟩ := (bind_eq_ok_iff _ _ _).mp formed
  obtain ⟨rfl, isName⟩ := expectFirst_eq_ok expected
  dsimp only at named
  rw [leafAt_of_isIdentifier isName (coherent name List.mem_cons_self), ok_bind] at named
  cases named
  exact ⟨_, .input isFirst isName, .input⟩

theorem exists_phrase_of_output
    (isFirst : first.kind = .standardOutput)
    (formed : output start stop first tokens = .ok (statement, [])) :
    ∃ phrase, IsPhrase (first :: tokens) phrase ∧ Builds phrase statement := by
  obtain ⟨tree, parsed, result⟩ := (bind_eq_ok_iff _ _ _).mp formed
  cases result
  exact ⟨_, .output isFirst, .output (Forest.parsesAs_of_parse parsed)⟩

/-- Tokens are read as a statement only if they are a phrase for it. -/
theorem exists_phrase_of_read
    (coherent : ∀ token ∈ tokens, token.Coherent)
    (isRead : read start stop tokens = .ok statement) :
    ∃ phrase, IsPhrase tokens phrase ∧ Builds phrase statement := by
  cases tokens with
  | nil => cases isRead
  | cons first rest =>
      obtain ⟨firstCoherent, restCoherent⟩ := List.forall_mem_cons.mp coherent
      obtain ⟨⟨result, unread⟩, formed, nothingUnread⟩ := (bind_eq_ok_iff _ _ _).mp isRead
      cases unread with
      | cons token others => cases nothingUnread
      | nil =>
          cases nothingUnread
          unfold form at formed
          split at formed
          · next isFirst => exact exists_phrase_of_declaration isFirst restCoherent formed
          · next isName => exact exists_phrase_of_assignment isName firstCoherent formed
          · next isFirst => exact exists_phrase_of_input isFirst restCoherent formed
          · next isFirst => exact exists_phrase_of_output isFirst formed
          · cases formed

end

/-- An annotation is taken in front of an initial value. -/
theorem takeType_of_isAnnotation
    {typePart initializer : List Token} {typeKeyword : Option Token} {leaf : Option LeafAt}
    {expression : Option (List Token)}
    (name : String)
    (annotated : IsAnnotation typePart typeKeyword)
    (builds : BuildsType typeKeyword leaf)
    (initialized : IsInitializer initializer expression) :
    takeType (takeColon (typePart ++ initializer)).1 name
      (takeColon (typePart ++ initializer)).2 = .ok (leaf, initializer) := by
  have nothing (hasColon : Bool) :
      takeType hasColon name initializer = .ok (none, initializer) := by
    cases initialized with
    | absent => rfl
    | present isEqual =>
        rw [takeType, isEqual]
        rfl
  cases annotated with
  | absent =>
      cases builds
      have noColon : takeColon initializer = (false, initializer) := by
        cases initialized with
        | absent => rfl
        | present isEqual =>
            rw [takeColon, isEqual]
            rfl
      rw [List.nil_append, noColon]
      exact nothing false
  | bare isColon =>
      cases builds
      rw [List.singleton_append, takeColon, if_pos isColon]
      exact nothing true
  | typed isColon isType =>
      cases builds with
      | present carries =>
          rw [List.cons_append, List.singleton_append, takeColon, if_pos isColon]
          dsimp only
          rw [takeType, if_pos isType, if_pos rfl, leafAt_of_payload carries]
          rfl

theorem takeInitializer_of_isInitializer
    {initializer : List Token} {expression : Option (List Token)} {tree : Option Tree}
    (start : Nat) (stop : Position)
    (initialized : IsInitializer initializer expression)
    (builds : BuildsValue expression tree) :
    takeInitializer start stop initializer = .ok (tree, []) := by
  cases initialized with
  | absent =>
      cases builds
      rfl
  | present isEqual =>
      cases builds with
      | present parses =>
          rw [takeInitializer, if_pos isEqual, parses]
          rfl

/-- Every phrase is read as its statement. -/
theorem read_of_isPhrase
    {tokens : List Token} {phrase : Phrase} {statement : StatementTree}
    (start : Nat) (stop : Position)
    (coherent : ∀ token ∈ tokens, token.Coherent)
    (isPhrase : IsPhrase tokens phrase)
    (builds : Builds phrase statement) :
    read start stop tokens = .ok statement := by
  cases isPhrase with
  | @declaration first name _ _ _ _ isFirst isName annotated initialized typed =>
      cases builds with
      | @declaration _ _ _ _ leaf tree buildsType buildsValue =>
          have typeTaken := takeType_of_isAnnotation name.value annotated buildsType initialized
          have isTyped : (leaf.isNone && tree.isNone) = false := by
            rw [← buildsType.isSome_eq, ← buildsValue.isSome_eq] at typed
            cases leaf <;> cases tree <;> simp at typed ⊢
          apply read_of_form
          rw [form, isFirst]
          simp only [declaration, expectFirst_of_kind _ _ _ isName, ok_bind,
            leafAt_of_isIdentifier isName (coherent name (by simp)), typeTaken,
            takeInitializer_of_isInitializer _ _ initialized buildsValue, isTyped,
            Bool.false_eq_true, if_false]
          rfl
  | @assignment name _ _ _ isName isColon isEqual =>
      cases builds with
      | assignment parses =>
          apply read_of_form
          rw [form, isName]
          simp only [assignment, leafAt_of_isIdentifier isName (coherent name (by simp)), ok_bind,
            expectFirst_of_kind _ _ _ isColon, expectFirst_of_kind _ _ _ isEqual]
          rw [parses]
          rfl
  | @input first name isFirst isName =>
      cases builds
      apply read_of_form
      rw [form, isFirst]
      simp only [input, expectFirst_of_kind _ _ _ isName, ok_bind,
        leafAt_of_isIdentifier isName (coherent name (by simp))]
      rfl
  | output isFirst =>
      cases builds with
      | output parses =>
          apply read_of_form
          rw [form, isFirst]
          simp only [output]
          rw [parses]
          rfl

end Sentence

namespace Phrase

variable {tokens : List Token} {phrase : Phrase}

theorem exists_buildsType
    {typeKeyword : Option Token} {typePart : List Token}
    (annotated : IsAnnotation typePart typeKeyword)
    (coherent : ∀ token ∈ typePart, token.Coherent) :
    ∃ leaf, BuildsType typeKeyword leaf := by
  cases annotated with
  | absent => exact ⟨none, .absent⟩
  | bare isColon => exact ⟨none, .absent⟩
  | typed isColon isType =>
      obtain ⟨ty, carries⟩ := Sentence.exists_payload_of_isType isType (coherent _ (by simp))
      exact ⟨_, .present carries⟩

theorem exists_buildsValue
    {expression : Option (List Token)}
    (accepted : ∀ tokens ∈ expression, Accepted tokens) :
    ∃ tree, BuildsValue expression tree := by
  cases expression with
  | none => exact ⟨none, .absent⟩
  | some tokens =>
      obtain ⟨tree, parses⟩ := Forest.exists_parsesAs (accepted tokens rfl)
      exact ⟨some tree, .present parses⟩

/-- A phrase whose expression is accepted is read as some statement. -/
theorem exists_builds
    (coherent : ∀ token ∈ tokens, token.Coherent)
    (isPhrase : IsPhrase tokens phrase)
    (accepted : ∀ expression ∈ phrase.expression?, Accepted expression) :
    ∃ statement, Builds phrase statement := by
  cases isPhrase with
  | @declaration _ _ typePart initializer _ _ isFirst isName annotated initialized typed =>
      obtain ⟨leaf, buildsType⟩ := exists_buildsType annotated fun token member =>
        coherent token (by simp [member])
      obtain ⟨tree, buildsValue⟩ := exists_buildsValue accepted
      exact ⟨_, .declaration buildsType buildsValue⟩
  | assignment isName isColon isEqual =>
      obtain ⟨tree, parses⟩ := Forest.exists_parsesAs (accepted _ rfl)
      exact ⟨_, .assignment parses⟩
  | input isFirst isName => exact ⟨_, .input⟩
  | output isFirst =>
      obtain ⟨tree, parses⟩ := Forest.exists_parsesAs (accepted _ rfl)
      exact ⟨_, .output parses⟩

/-- The tokens of the expression of a phrase are tokens of the phrase. -/
theorem subset_of_isPhrase
    {expression : List Token}
    (isPhrase : IsPhrase tokens phrase)
    (isExpression : expression ∈ phrase.expression?) :
    expression ⊆ tokens := by
  cases isPhrase with
  | declaration isFirst isName annotated initialized typed =>
      cases initialized with
      | absent => cases isExpression
      | present isEqual =>
          cases isExpression
          intro token member
          simp [member]
  | assignment isName isColon isEqual =>
      cases isExpression
      intro token member
      simp [member]
  | input isFirst isName => cases isExpression
  | output isFirst =>
      cases isExpression
      exact List.subset_cons_self _ _

/-- The expression of a phrase that is read as a statement is accepted. -/
theorem Builds.accepted
    {statement : StatementTree}
    (builds : Builds phrase statement) :
    ∀ expression ∈ phrase.expression?, Accepted expression := by
  intro expression isExpression
  cases builds with
  | declaration buildsType buildsValue =>
      cases buildsValue with
      | absent => cases isExpression
      | present parses =>
          cases isExpression
          exact parses.accepted
  | assignment parses =>
      cases isExpression
      exact parses.accepted
  | input => cases isExpression
  | output parses =>
      cases isExpression
      exact parses.accepted

theorem exists_declares
    {typeKeyword : Option Token} {expression : Option (List Token)}
    {leaf : Option LeafAt} {tree : Option Tree}
    (buildsType : BuildsType typeKeyword leaf)
    (buildsValue : BuildsValue expression tree)
    (typed : typeKeyword.isSome ∨ expression.isSome)
    (coherent : ∀ tokens ∈ expression, ∀ token ∈ tokens, token.Coherent) :
    ∃ declared, Declares typeKeyword expression declared ∧
      StatementTree.declared? leaf tree = some declared := by
  cases buildsType with
  | absent =>
      cases buildsValue with
      | absent => simp at typed
      | present parses =>
          obtain ⟨value, isTerm, reads⟩ := parses.exists_readsAs (coherent _ rfl)
          exact ⟨_, .inferred reads, by rw [StatementTree.declared?, isTerm]; rfl⟩
  | present carries =>
      cases buildsValue with
      | absent => exact ⟨_, .bare carries, rfl⟩
      | present parses =>
          obtain ⟨value, isTerm, reads⟩ := parses.exists_readsAs (coherent _ rfl)
          exact ⟨_, .annotated carries reads, by rw [StatementTree.declared?, isTerm]; rfl⟩

/-- The statement that a phrase is read as is the command that the phrase means, and stands at
the first token of the phrase. -/
theorem exists_means
    {statement : StatementTree}
    (coherent : ∀ token ∈ tokens, token.Coherent)
    (isPhrase : IsPhrase tokens phrase)
    (builds : Builds phrase statement) :
    (∃ command, Means phrase command ∧ statement.command? = some command) ∧
      ∃ first rest, tokens = first :: rest ∧ statement.position = first.span.start := by
  have expressionCoherent : ∀ expression ∈ phrase.expression?, ∀ token ∈ expression,
      token.Coherent := fun expression isExpression token member =>
    coherent token (subset_of_isPhrase isPhrase isExpression member)
  cases isPhrase with
  | declaration isFirst isName annotated initialized typed =>
      cases builds with
      | declaration buildsType buildsValue =>
          obtain ⟨declared, declares, isDeclared⟩ :=
            exists_declares buildsType buildsValue typed expressionCoherent
          refine ⟨⟨_, .declaration declares, ?_⟩, _, _, rfl, rfl⟩
          rw [StatementTree.command?, isDeclared]
          rfl
  | assignment isName isColon isEqual =>
      cases builds with
      | assignment parses =>
          obtain ⟨value, isTerm, reads⟩ := parses.exists_readsAs (expressionCoherent _ rfl)
          refine ⟨⟨_, .assignment reads, ?_⟩, _, _, rfl, rfl⟩
          rw [StatementTree.command?, isTerm]
          rfl
  | input isFirst isName =>
      cases builds
      exact ⟨⟨_, .input, rfl⟩, _, _, rfl, rfl⟩
  | output isFirst =>
      cases builds with
      | output parses =>
          obtain ⟨value, isTerm, reads⟩ := parses.exists_readsAs (expressionCoherent _ rfl)
          refine ⟨⟨_, .output reads, ?_⟩, _, _, rfl, rfl⟩
          rw [StatementTree.command?, isTerm]
          rfl

end Phrase
end Grammar
end ScriptLang
