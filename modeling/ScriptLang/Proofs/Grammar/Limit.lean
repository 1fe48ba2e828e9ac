import Mathlib.Data.List.Basic
import ScriptLang.Proofs.Grammar.Phrase
import ScriptLang.Proofs.Grammar.Points

/-!
# The limit of the nesting in whole programs

Whatever the tokens are, the trees of the statements that are read from them lie
within the limit of the nesting, and when the tokens are refused for the nesting, it
is for an expression among them that is refused.
-/

namespace ScriptLang

/-- The expression of a statement, if there is one, lies within the limit of the nesting. -/
def StatementTree.InLimit (statement : StatementTree) : Prop :=
  ∀ tree ∈ statement.expression?, tree.nesting ≤ greatestDepth

namespace Grammar

open Source (Position)

/-- A refusal for the nesting is that of an expression among the tokens. -/
def Blames (tokens : List Token) (fault : Fault) : Prop :=
  ∀ place, fault = tooDeep place -> ∃ expression, expression <:+: tokens ∧
    Forest.readAll greatestDepth expression = .error (tooDeep place)

namespace Sentence

/-- A statement within the limit is read, or the tokens are refused and blamed if it is for their
nesting. -/
def Keeps (all : List Token) : Except Fault (StatementTree × List Token) -> Prop :=
  Yields (fun read => read.1.InLimit) (Blames all)

section

variable {all tokens : List Token} (isPart : tokens <:+: all)

include isPart

theorem parse_blames (start : Nat) (position : Position) :
    Yields (fun tree => tree.nesting ≤ greatestDepth) (Blames all)
      (Forest.parse start tokens position) := by
  cases parsed : Forest.parse start tokens position with
  | ok tree =>
      obtain ⟨_, read, _⟩ := (Forest.parsesAs_iff_readAll tokens tree).mp
        (Forest.parsesAs_of_parse parsed)
      have inLimit := Forest.deepest_le_of_readAll read
      rw [deepest_cons] at inLimit
      exact Nat.le_trans (Nat.le_max_left ..) inLimit
  | error fault =>
      rintro place rfl
      exact ⟨tokens, isPart, (parse_eq_tooDeep_iff start tokens position place).mp parsed⟩

theorem expectFirst_blames (kind : TokenKind) (expectation : Expectation) (stop : Position) :
    Yields (fun read => read.2 <:+: all) (Blames all)
      (expectFirst kind expectation stop tokens) := by
  cases tokens with
  | nil => rintro _ ⟨⟩
  | cons token rest =>
      rw [expectFirst]
      split
      · exact (List.suffix_cons token rest).isInfix.trans isPart
      · rintro _ ⟨⟩

theorem takeColon_isInfix : (takeColon tokens).2 <:+: all := by
  cases tokens with
  | nil => exact isPart
  | cons token rest =>
      rw [takeColon]
      split
      · exact (List.suffix_cons token rest).isInfix.trans isPart
      · exact isPart

omit isPart in
theorem leafAt_blames (token : Token) :
    Yields (fun _ => True) (Blames all) (leafAt token) := by
  unfold leafAt
  split
  · exact trivial
  · exact nofun

theorem takeType_blames (hasColon : Bool) (name : String) :
    Yields (fun read => read.2 <:+: all) (Blames all) (takeType hasColon name tokens) := by
  cases tokens with
  | nil => exact isPart
  | cons token rest =>
      rw [takeType]
      split
      · cases hasColon with
        | false => rintro _ ⟨⟩
        | true =>
            apply (leafAt_blames token).bind
            intro leaf _
            exact (List.suffix_cons token rest).isInfix.trans isPart
      · exact isPart

theorem takeInitializer_blames (start : Nat) (stop : Position) :
    Yields (fun read => ∀ tree ∈ read.1, tree.nesting ≤ greatestDepth) (Blames all)
      (takeInitializer start stop tokens) := by
  cases tokens with
  | nil => rintro _ ⟨⟩
  | cons token rest =>
      rw [takeInitializer]
      split
      · apply (parse_blames ((List.suffix_cons token rest).isInfix.trans isPart) start _).bind
        intro tree inLimit
        rintro _ ⟨⟩
        exact inLimit
      · rintro _ ⟨⟩

theorem declaration_keeps (start : Nat) (stop : Position) (first : Token) :
    Keeps all (declaration start stop first tokens) := by
  apply (expectFirst_blames isPart .identifier .declaredName stop).bind
  rintro ⟨identifierToken, behindName⟩ behindNameIsPart
  apply (leafAt_blames identifierToken).bind
  intro identifier _
  apply (takeType_blames (takeColon_isInfix behindNameIsPart) _ _).bind
  rintro ⟨typeKeyword, behindType⟩ behindTypeIsPart
  apply (takeInitializer_blames behindTypeIsPart _ stop).bind
  rintro ⟨expression, unread⟩ inLimit
  dsimp only
  split
  · exact nofun
  · exact inLimit

theorem assignment_keeps (start : Nat) (stop : Position) (first : Token) :
    Keeps all (assignment start stop first tokens) := by
  apply (leafAt_blames first).bind
  intro identifier _
  apply (expectFirst_blames isPart .colon _ stop).bind
  rintro ⟨colon, behindColon⟩ behindColonIsPart
  apply (expectFirst_blames behindColonIsPart .equal _ stop).bind
  rintro ⟨equal, behindEqual⟩ behindEqualIsPart
  apply (parse_blames behindEqualIsPart _ _).bind
  rintro tree inLimit _ ⟨⟩
  exact inLimit

theorem input_keeps (stop : Position) (first : Token) :
    Keeps all (input stop first tokens) := by
  apply (expectFirst_blames isPart .identifier .inputName stop).bind
  rintro ⟨identifierToken, unread⟩ _
  apply (leafAt_blames identifierToken).bind
  rintro identifier _ tree ⟨⟩

theorem output_keeps (start : Nat) (stop : Position) (first : Token) :
    Keeps all (output start stop first tokens) := by
  apply (parse_blames isPart _ _).bind
  rintro tree inLimit _ ⟨⟩
  exact inLimit

theorem form_keeps (start : Nat) (stop : Position) (first : Token) :
    Keeps all (form start stop first tokens) := by
  unfold form
  split
  · exact declaration_keeps isPart start stop first
  · exact assignment_keeps isPart start stop first
  · exact input_keeps isPart stop first
  · exact output_keeps isPart start stop first
  · exact nofun

theorem read_blames (start : Nat) (stop : Position) :
    Yields StatementTree.InLimit (Blames all) (read start stop tokens) := by
  cases tokens with
  | nil => exact nofun
  | cons first rest =>
      apply (form_keeps ((List.suffix_cons first rest).isInfix.trans isPart) start stop first).bind
      rintro ⟨statement, unread⟩ inLimit
      cases unread with
      | nil => exact inLimit
      | cons token others => exact nofun

end

theorem readChunks_blames
    {all : List Token} {list : List Chunk}
    (start : Nat)
    (areParts : ∀ chunk ∈ list, chunk.tokens <:+: all) :
    Yields (fun statements => ∀ statement ∈ statements, statement.InLimit) (Blames all)
      (readChunks start list) := by
  induction list generalizing start with
  | nil => exact List.forall_mem_nil _
  | cons chunk rest inductionHypothesis =>
      obtain ⟨isPart, restAreParts⟩ := List.forall_mem_cons.mp areParts
      apply (read_blames isPart start _).bind
      intro statement inLimit
      apply (inductionHypothesis _ restAreParts).bind
      intro others othersInLimit
      exact List.forall_mem_cons.mpr ⟨inLimit, othersInLimit⟩

theorem readProgram_blames (tokens : List Token) (file : String) :
    Yields (fun statements => ∀ statement ∈ statements, statement.InLimit) (Blames tokens)
      (readProgram tokens file) := by
  have areParts : ∀ chunk ∈ (chunks tokens).1, chunk.tokens <:+: tokens := by
    intro chunk inChunks
    have whole := flatMap_chunks tokens
    have member : chunk.tokens ++ [chunk.semicolon] ∈
        (chunks tokens).1.map fun chunk => chunk.tokens ++ [chunk.semicolon] :=
      List.mem_map.mpr ⟨chunk, inChunks, rfl⟩
    have inWhole := List.infix_of_mem_flatten member
    rw [← List.flatMap_def] at inWhole
    have isPrefix : chunk.tokens <+: chunk.tokens ++ [chunk.semicolon] := List.prefix_append ..
    rw [← whole]
    exact (isPrefix.isInfix.trans inWhole).trans (List.prefix_append ..).isInfix
  unfold readProgram
  split
  · exact nofun
  · apply (readChunks_blames 2 areParts).bind
    intro statements inLimit
    unfold refuseTrailing
    split
    · exact inLimit
    · exact nofun

end Sentence

/-- The statements of a program that is parsed lie within the limit, and tokens that are refused for
their nesting contain an expression that is. -/
theorem parse_blames (tokens : List Token) (file : String) :
    Yields
      (fun program => ∃ statements : List StatementTree,
        (∀ statement ∈ statements, statement.InLimit) ∧
        program = untaggedProgram (Sentence.startOf tokens file) statements)
      (Blames tokens) (parse tokens file) := by
  rw [parse_eq]
  have blames := Sentence.readProgram_blames tokens file
  cases read : Sentence.readProgram tokens file with
  | error fault => exact blames.fault read
  | ok statements => exact ⟨statements, blames.value read, rfl⟩

section

variable {tokens : List Token} {file : String} {program : Program}
  (parsed : parse tokens file = .ok program)

include parsed

theorem exists_statements_inLimit :
    ∃ statements : List Tagged,
      (∀ tagged ∈ statements, ∀ tree ∈ tagged.statement.expression?,
        tree.nesting ≤ greatestDepth) ∧
      program = .assemble (Sentence.startOf tokens file) .empty statements := by
  obtain ⟨statements, inLimit, isProgram⟩ := (parse_blames tokens file).value parsed
  refine ⟨statements.map Tagged.plain, ?_, isProgram⟩
  intro tagged member
  obtain ⟨statement, isStatement, rfl⟩ := List.mem_map.mp member
  exact inLimit statement isStatement

/-- Every expression of a parsed program is nested within the limit. -/
theorem exists_nesting?_of_parse
    {id : NodeId}
    (isExpression : program.IsExpression id) :
    ∃ depth ≤ greatestDepth, program.nesting? id = some depth := by
  obtain ⟨statements, inLimit, rfl⟩ := exists_statements_inLimit parsed
  exact Program.exists_nesting?_assemble inLimit isExpression

/-- The ways down from the parts of a statement are at most one node longer than the limit, in every
program that differs from the parsed one in types and symbols only. -/
theorem exists_within_of_parse
    {current : Program} {statement part : NodeId}
    (same : current.bare = program.bare)
    (isStatement : statement ∈ program.statements)
    (isPart : program.Child statement part) :
    ∃ height, current.Within height part ∧ height ≤ greatestDepth + 1 ∧
      height ≤ current.size := by
  obtain ⟨statements, inLimit, rfl⟩ := exists_statements_inLimit parsed
  obtain ⟨height, within, notHigher, inProgram⟩ :=
    Program.exists_within_assemble inLimit isStatement isPart
  refine ⟨height, (Program.within_iff_of_bare_eq same).mpr within, notHigher, ?_⟩
  rw [Program.size_of_mapNodes_eq same]
  exact inProgram

end

end Grammar
end ScriptLang
