import ScriptLang.Proofs.Program.Rebound
import ScriptLang.Proofs.Typing.Surroundings

/-!
# Shadowing

A declaration goes into the nearest code block, which must not have the name yet,
and is seen from every node whose walk comes to that code block before it finds
another declaration of the name.  Every other name and every other node keeps what
it saw: inner declarations shadow it, outer ones stay visible around it, and code
blocks beside it are not touched.
-/

namespace ScriptLang

open Source (Position)

namespace Program

/-- A code block is around a node, and no code block between them declares a name. -/
def Visible (program : Program) (name : String) (scope start : NodeId) : Prop :=
  ∃ inner outer, program.Chain start (inner ++ scope :: outer) ∧
    ∀ id ∈ inner, program.symbolAt? id name = none

variable {program changed : Program} {scope start : NodeId} {symbol : Symbol} {name : String}

namespace Gains

variable (gains : program.Gains changed scope symbol)

include gains

/-- The new symbol is found from where its code block is visible. -/
theorem innermost_of_visible
    {inner outer : List NodeId}
    (isChain : program.Chain start (inner ++ scope :: outer))
    (isFirst : ∀ id ∈ inner, program.symbolAt? id symbol.identifier = none) :
    changed.Innermost symbol.identifier (inner ++ scope :: outer) (some (scope, symbol)) := by
  refine .declared inner outer rfl ?_ fun id member => ?_
  · rw [gains.symbolAt?_eq, if_pos ⟨rfl, rfl⟩]
  · have differs : id ≠ scope := by
      rintro rfl
      exact (List.disjoint_of_nodup_append isChain.nodup) member List.mem_cons_self
    rw [gains.symbolAt?_eq, if_neg fun both => differs both.1, isFirst id member]

/-- On a chain from which the code block is not visible every name means what it meant. -/
theorem innermost_of_not_visible
    {chain : List NodeId} {found? : Option (NodeId × Symbol)}
    (isChain : program.Chain start chain)
    (hidden : ¬ (name = symbol.identifier ∧ program.Visible name scope start))
    (isInnermost : program.Innermost name chain found?) :
    changed.Innermost name chain found? := by
  -- Nodes before the first declaration of the name declare nothing, unless one of them is the
  -- code block with the new symbol, which would then be visible.
  have keepsNone : ∀ inner outer, chain = inner ++ outer ->
      (∀ id ∈ inner, program.symbolAt? id name = none) ->
      ∀ id ∈ inner, changed.symbolAt? id name = none := by
    intro inner outer isSplit isFirst id member
    have isOther : ¬ (id = scope ∧ name = symbol.identifier) := by
      rintro ⟨rfl, isName⟩
      obtain ⟨before, after, isInner⟩ := List.append_of_mem member
      subst isInner
      rw [List.append_assoc, List.cons_append] at isSplit
      apply hidden
      refine ⟨isName, before, after ++ outer, isSplit ▸ isChain, fun id member => ?_⟩
      exact isFirst id (List.mem_append_left _ member)
    rw [gains.symbolAt?_eq, if_neg isOther, isFirst id member]
  cases isInnermost with
  | declared inner outer isSplit isDeclared isFirst =>
      refine .declared inner outer isSplit ?_ (keepsNone inner _ isSplit isFirst)
      rw [gains.symbolAt?_eq, if_neg, isDeclared]
      rintro ⟨rfl, rfl⟩
      rw [gains.fresh] at isDeclared
      cases isDeclared
  | undeclared isNowhere =>
      exact .undeclared (keepsNone chain [] (List.append_nil chain).symm isNowhere)

theorem lookup?_of_visible (visible : program.Visible symbol.identifier scope start) :
    changed.lookup? start symbol.identifier = .ok (some (scope, symbol)) := by
  obtain ⟨inner, outer, isChain, isFirst⟩ := visible
  obtain ⟨_, isTable⟩ := gains.isTable
  obtain ⟨_, isTableAfter⟩ := gains.exists_symbolsAt? isTable
  apply (lookup?_eq_ok_iff (isChain.of_bare_eq gains.bare_eq)
    (List.mem_append_right _ List.mem_cons_self) isTableAfter _ _).mpr
  exact gains.innermost_of_visible isChain isFirst

theorem lookup?_of_not_visible
    (climbable : program.Climbable)
    (inRange : start < program.size)
    (hidden : ¬ (name = symbol.identifier ∧ program.Visible name scope start)) :
    changed.lookup? start name = program.lookup? start name := by
  obtain ⟨chain, isChain⟩ := climbable.exists_chain inRange
  have isChainAfter := isChain.of_bare_eq gains.bare_eq
  rcases program.noTable_or_exists_split chain with noTable | ⟨inner, block, outer, symbols, rfl,
      isTable, _⟩
  · have noTableAfter : ∀ id ∈ chain, changed.symbolsAt? id = none := by
      intro id member
      have isSome := gains.isSome_symbolsAt?_eq id
      rw [noTable id member, Option.isSome_none] at isSome
      exact Option.isNone_iff_eq_none.mp (Option.isSome_eq_false_iff.mp isSome)
    obtain ⟨node, found⟩ := exists_node_of_lt inRange
    have samePosition :=
      map_node?_of_mapNodes_eq gains.bare_eq Node.position (fun _ => rfl) start
    rw [found, Option.map_some, Option.map_eq_some_iff] at samePosition
    obtain ⟨other, foundAfter, isPosition⟩ := samePosition
    rw [lookup?_of_noTable isChain found noTable,
      lookup?_of_noTable isChainAfter foundAfter noTableAfter, isPosition]
  · have onChain : block ∈ inner ++ block :: outer :=
      List.mem_append_right _ List.mem_cons_self
    obtain ⟨_, isTableAfter⟩ := gains.exists_symbolsAt? isTable
    have before := lookup?_of_table isChain onChain isTable name
    rw [before]
    apply (lookup?_eq_ok_iff isChainAfter onChain isTableAfter _ _).mpr
    apply gains.innermost_of_not_visible isChain hidden
    exact (lookup?_eq_ok_iff isChain onChain isTable _ _).mp before

end Gains
end Program

namespace Typing

/-- A symbol is declared in the nearest code block, or refused if its name is declared there. -/
theorem declareSymbol_of_enclosingScope
    {program : Program} {start scope : NodeId} {symbols : SymbolTable}
    (isScope : program.enclosingScope start = .ok scope)
    (isTable : program.symbolsAt? scope = some symbols)
    (symbol : Symbol) (position : Position) (log : Log) :
    declareSymbol start symbol position ⟨program, log⟩ =
      match symbols.register symbol with
      | .ok extended => .ok () ⟨program.modifyKind scope (.withSymbols extended),
          log ++ [.declaring symbol.identifier symbol.ty scope]⟩
      | .error issue => .error (.report ⟨issue, position⟩)
          ⟨program, log ++ [.declaring symbol.identifier symbol.ty scope]⟩ := by
  obtain ⟨node, found, hasSymbols⟩ := Option.bind_eq_some_iff.mp isTable
  rw [declareSymbol, Running.bind_of_outcome (lookingUp_apply _ _), isScope, Running.proceed_ok,
    report, Running.bind_of_ok (Running.modify_apply _ _),
    Running.bind_of_outcome (lookingUp_apply _ _), Program.declareIn, Program.node, found, ok_bind,
    hasSymbols]
  dsimp only
  cases symbols.register symbol <;> rfl

/-- Declarations shadow each other by code blocks.  In a program without cycles of parents, let
`scope` be the nearest code block of a node, the first one on its chain.  A symbol is refused at
the node exactly if this very code block has a symbol with the same name, with the line of that
symbol and without a change of the program.  Otherwise it is declared, and its name then means
this symbol at every node on whose chain no code block in front of `scope` has the name; every
other name, and the same name at every other node, means what it meant before. -/
theorem declareSymbol_shadows
    {program : Program} {start scope : NodeId} {symbols : SymbolTable} {inner outer : List NodeId}
    (climbable : program.Climbable)
    (isChain : program.Chain start (inner ++ scope :: outer))
    (isTable : program.symbolsAt? scope = some symbols)
    (isNearest : ∀ id ∈ inner, program.symbolsAt? id = none)
    (symbol : Symbol) (position : Position) (log : Log) :
    (∀ fault after, declareSymbol start symbol position ⟨program, log⟩ = .error fault after ↔
      ∃ first, program.symbolAt? scope symbol.identifier = some first ∧
        fault = .report ⟨.duplicate symbol.identifier first.line, position⟩ ∧
        after = ⟨program, log ++ [.declaring symbol.identifier symbol.ty scope]⟩) ∧
      ∀ after, declareSymbol start symbol position ⟨program, log⟩ = .ok () after ->
        ∀ other < program.size, ∀ name place,
          (name = symbol.identifier ∧ program.Visible name scope other ->
            after.program.lookup? other name = .ok (some (scope, symbol)) ∧
              after.program.resolve other name place = .ok (scope, symbol)) ∧
          (¬ (name = symbol.identifier ∧ program.Visible name scope other) ->
            after.program.lookup? other name = program.lookup? other name ∧
              after.program.resolve other name place = program.resolve other name place) := by
  have isScope := Program.enclosingScope_of_split isChain isTable isNearest
  rw [declareSymbol_of_enclosingScope isScope isTable, Program.symbolAt?, isTable,
    Option.bind_some]
  cases isHeld : symbols.get? symbol.identifier with
  | some held =>
      rw [SymbolTable.register_of_get?_eq_some isHeld]
      constructor
      · intro fault after
        constructor
        · intro isError
          cases isError
          exact ⟨held, rfl, rfl, rfl⟩
        · rintro ⟨_, ⟨⟩, rfl, rfl⟩
          rfl
      · intro after isOk
        cases isOk
  | none =>
      have gains := Program.gains_insert isTable isHeld
      rw [SymbolTable.register_of_get?_eq_none isHeld]
      constructor
      · intro fault after
        constructor
        · intro isError
          cases isError
        · rintro ⟨_, ⟨⟩, _⟩
      · intro after isOk other inRange name place
        cases isOk
        constructor
        · rintro ⟨rfl, visible⟩
          have found := gains.lookup?_of_visible visible
          refine ⟨found, ?_⟩
          rw [Program.resolve, found]
          rfl
        · intro hidden
          have same := gains.lookup?_of_not_visible climbable inRange hidden
          refine ⟨same, ?_⟩
          rw [Program.resolve, Program.resolve, same]

/-- In the middle one of three code blocks the name of the outer ones is declared.  The middle
block and the nodes in front of the inner one then see it, the inner one keeps its own, and a
second declaration of the name in the middle block would be refused. -/
theorem declareSymbol_shadows_of_interleaved_blocks :
    (∃ after, declareSymbol 4 ⟨"x", .bool, true, 9⟩ Source.nowhere
        ⟨Program.interleavedBlocks, []⟩ = .ok () after ∧
      after.program.lookup? 4 "x" = .ok (some (3, ⟨"x", .bool, true, 9⟩)) ∧
      after.program.lookup? 6 "x" = .ok (some (5, ⟨"x", .float, true, 5⟩)) ∧
      after.program.lookup? 2 "x" = .ok (some (0, ⟨"x", .int, true, 1⟩))) ∧
    ∃ after, declareSymbol 4 ⟨"y", .int, true, 9⟩ Source.nowhere
          ⟨Program.interleavedBlocks, []⟩ =
        .error (.report ⟨.duplicate "y" 3, Source.nowhere⟩) after ∧
      after.program = Program.interleavedBlocks := by
  have fromZero : Program.interleavedBlocks.Chain 0 [0, 1] := .step rfl rfl (.top rfl rfl)
  have isChain : Program.interleavedBlocks.Chain 4 ([4] ++ 3 :: [2, 0, 1]) :=
    .step rfl rfl (.step rfl rfl (.step rfl rfl fromZero))
  have law := declareSymbol_shadows Program.interleavedBlocks_climbable isChain rfl
    (by decide)
  have fresh := (law ⟨"x", .bool, true, 9⟩ Source.nowhere []).2 _ rfl
  have taken := (law ⟨"y", .int, true, 9⟩ Source.nowhere []).1
  refine ⟨⟨_, rfl, ?_, ?_, ?_⟩, ⟨_, _⟩, (taken _ _).mpr ⟨_, rfl, rfl, rfl⟩, rfl⟩
  · exact ((fresh 4 (by decide) "x" Source.nowhere).1
      ⟨rfl, [4], [2, 0, 1], isChain, by decide⟩).1
  · refine ((fresh 6 (by decide) "x" Source.nowhere).2 ?_).1
    rintro ⟨_, inner, outer, isOther, isFirst⟩
    have same := isOther.unique (.step rfl rfl (.step rfl rfl isChain))
    have innermost : (5 : NodeId) ∈ inner := by
      rcases inner with _ | ⟨first, _ | ⟨second, further⟩⟩
      · cases same
      · cases same
      · simp only [List.cons_append, List.cons.injEq] at same
        rw [same.2.1]
        exact List.mem_cons_of_mem _ List.mem_cons_self
    exact absurd (isFirst 5 innermost) (by decide)
  · refine ((fresh 2 (by decide) "x" Source.nowhere).2 ?_).1
    rintro ⟨_, inner, outer, isOther, _⟩
    have same := isOther.unique (.step rfl rfl fromZero)
    have member : 3 ∈ inner ++ 3 :: outer := List.mem_append_right _ List.mem_cons_self
    rw [same] at member
    exact absurd member (by decide)

end Typing
end ScriptLang
