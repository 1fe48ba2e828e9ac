import ScriptLang.Proofs.Typing.Footprint
import ScriptLang.Proofs.Typing.Runs

/-!
# Independent statements

Two statements next to each other of which neither declares, assigns or reads a name
that occurs in the other one may change places in the outermost code block.  The
analysis then comes to them in the other order, but it accepts the program as before
and leaves the same types and the same symbols.
-/

namespace ScriptLang

open Source (Position)
open Grammar (untaggedProgram)

namespace NodeKind

/-- A code block with the given statements; any other node stays as it is. -/
def reordered (statements : List NodeId) : NodeKind -> NodeKind
  | .codeBlock _ symbols => .codeBlock statements symbols
  | kind => kind

end NodeKind

namespace Program

/-- A program with the given statements in its outermost code block. -/
def reordered (program : Program) (statements : List NodeId) : Program :=
  program.modifyKind program.code (.reordered statements)

/-- The name that the statement at a node declares, assigns or reads. -/
def givenName? (program : Program) (id : NodeId) : Option String :=
  (program.declaredName? id).or (program.targetName? id)

/-- A name stands at a node or below it. -/
def Occurs (program : Program) (name : String) (id : NodeId) : Prop :=
  ∃ leaf, program.Under id leaf ∧ program.kind? leaf = some (.leaf (.identifier name))

/-- Neither of two statements declares, assigns or reads a name that occurs in the other one. -/
structure Independent (program : Program) (first second : NodeId) : Prop where
  givenFirst : ∀ name, program.givenName? first = some name -> ¬ program.Occurs name second
  givenSecond : ∀ name, program.givenName? second = some name -> ¬ program.Occurs name first

section

variable {program : Program} {tag : Tree.Tagging} {start : Nat} {parent? : Option NodeId}

/-- Every part of a tree has its nodes among those of the tree. -/
theorem exists_holds_of_part
    {part tree : Tree}
    (isPart : part.Part tree)
    (holds : program.Holds start (tree.layout tag start parent?)) :
    ∃ (first : Nat) (above? : Option NodeId),
      program.Holds first (part.layout tag first above?) ∧ start ≤ first ∧
        first + part.descendants ≤ start + tree.descendants := by
  induction isPart generalizing start parent? with
  | whole => exact ⟨start, parent?, holds, Nat.le_refl _, Nat.le_refl _⟩
  | operand operator position _ inductionHypothesis =>
      rw [Tree.layout_unary, holds_append] at holds
      obtain ⟨first, above?, here, least, greatest⟩ := inductionHypothesis holds.1
      refine ⟨first, above?, here, least, ?_⟩
      rw [Tree.descendants_unary]
      omega
  | left operator position right _ inductionHypothesis =>
      rw [Tree.layout_binary, holds_append, holds_append] at holds
      obtain ⟨first, above?, here, least, greatest⟩ := inductionHypothesis holds.1.1
      refine ⟨first, above?, here, least, ?_⟩
      rw [Tree.descendants_binary]
      omega
  | right operator position left _ inductionHypothesis =>
      rw [Tree.layout_binary, holds_append, holds_append, Tree.length_layout] at holds
      obtain ⟨first, above?, here, least, greatest⟩ := inductionHypothesis holds.1.2
      refine ⟨first, above?, here, by omega, ?_⟩
      rw [Tree.descendants_binary]
      omega

/-- A name in a tree stands at one of the nodes of its expression. -/
theorem exists_kind?_of_mentions
    {tree : Tree} {name : String}
    (mentions : tree.Mentions name)
    (holds : program.Holds start (tree.expressionLayout tag start parent?)) :
    ∃ id : Nat, start ≤ id ∧ id ≤ start + tree.expressionDescendants ∧
      program.kind? id = some (.leaf (.identifier name)) := by
  obtain ⟨position, isPart⟩ := mentions
  have inLayout : ∀ above? : Option NodeId, program.Holds start (tree.layout tag start above?) ->
      ∃ id : Nat, start ≤ id ∧ id ≤ start + tree.descendants ∧
        program.kind? id = some (.leaf (.identifier name)) := by
    intro above? treeHolds
    obtain ⟨first, _, here, least, greatest⟩ := exists_holds_of_part isPart treeHolds
    exact ⟨first, least, greatest, kind?_of_node? (node?_of_layout here)⟩
  cases tree with
  | unary operator place operand => exact inLayout _ holds
  | binary operator place left right => exact inLayout _ holds
  | leaf content place =>
      change program.Holds start ((Tree.leaf content place).layout tag start _ ++ [_]) at holds
      rw [holds_append] at holds
      obtain ⟨id, least, greatest, isName⟩ := inLayout _ holds.1
      exact ⟨id, least, Nat.le_succ_of_le greatest, isName⟩

variable {first second statement : StatementTree}

/-- The names that occur below the node of a statement are those in its tree. -/
theorem occurs_iff_mentions
    (holds : program.Holds start (statement.layout tag start parent?))
    (name : String) :
    program.Occurs name (start + statement.descendants) ↔ statement.Mentions name := by
  have subtree := subtree_of_statement holds
  constructor
  · rintro ⟨id, under, isName⟩
    obtain ⟨least, greatest⟩ := subtree.le_of_under subtree.ordered (Nat.le_refl _) under
    rcases node_of_statement holds least greatest with
      rfl | ⟨leaf, isLeaf, found⟩ | ⟨tree, isExpression, treeHolds, behindLeaves, inTree⟩
    · rw [kind?_of_node? (holds_statement holds).2.2] at isName
      cases isName
    · rw [kind?_of_node? found] at isName
      exact .inl ⟨leaf, isLeaf, NodeKind.leaf.inj (Option.some.inj isName)⟩
    · have underTop := (subtree_of_expressionLayout treeHolds).under behindLeaves inTree
      exact .inr ⟨tree, isExpression, mentions_of_expressionLayout treeHolds underTop isName⟩
  · obtain ⟨leavesHold, expressionHolds, _⟩ := holds_statement holds
    rintro (⟨leaf, isLeaf, isName⟩ | ⟨tree, isExpression, inTree⟩)
    · obtain ⟨index, inRange, rfl⟩ := List.mem_iff_getElem.mp isLeaf
      have found := leavesHold index (by rw [List.length_map]; exact inRange)
      rw [List.getElem?_map, List.getElem?_eq_getElem inRange] at found
      refine ⟨start + index, subtree.under (Nat.le_add_right _ _) ?_, ?_⟩
      · unfold StatementTree.descendants
        omega
      · rw [kind?_of_node? found]
        exact congrArg (some <| NodeKind.leaf ·) isName
    · rw [Option.mem_def.mp isExpression] at expressionHolds
      obtain ⟨id, least, greatest, isName⟩ := exists_kind?_of_mentions inTree expressionHolds
      refine ⟨id, subtree.under (by omega) ?_, isName⟩
      unfold StatementTree.descendants
      rw [Option.mem_def.mp isExpression, StatementTree.expressionSize]
      omega

theorem givenName?_of_holds
    (holds : program.Holds start (statement.layout tag start parent?)) :
    program.givenName? (start + statement.descendants) = statement.givenName? := by
  rw [givenName?, declaredName?_of_holds holds, targetName?_of_holds holds,
    StatementTree.givenName?]

/-- Nodes of statements are independent if their trees are. -/
theorem independent_iff
    {firstTag secondTag : Tree.Tagging} {place : Nat} {other? : Option NodeId}
    (firstHolds : program.Holds start (first.layout firstTag start parent?))
    (secondHolds : program.Holds place (second.layout secondTag place other?)) :
    program.Independent (start + first.descendants) (place + second.descendants) ↔
      first.Independent second := by
  have firstOccurs := occurs_iff_mentions firstHolds
  have secondOccurs := occurs_iff_mentions secondHolds
  have firstGives := givenName?_of_holds firstHolds
  have secondGives := givenName?_of_holds secondHolds
  constructor
  · rintro ⟨givenFirst, givenSecond⟩
    simp only [firstOccurs, secondOccurs, firstGives, secondGives] at givenFirst givenSecond
    exact ⟨givenFirst, givenSecond⟩
  · rintro ⟨givenFirst, givenSecond⟩
    simp only [← firstOccurs, ← secondOccurs, ← firstGives, ← secondGives] at givenFirst givenSecond
    exact ⟨givenFirst, givenSecond⟩

end
end Program

/-- The numbers of two statements that stand next to each other part the statements. -/
theorem Tagged.exists_pair_of_tops_eq_append
    {start : Nat} {statements : List StatementTree} {before after : List NodeId}
    {first second : NodeId}
    (tops : Tagged.tops start (statements.map Tagged.plain) = before ++ first :: second :: after) :
    ∃ (front rest : List StatementTree) (one other : StatementTree),
      statements = front ++ one :: other :: rest ∧
        before = Tagged.tops start (front.map Tagged.plain) ∧
        first :: second :: after =
          Tagged.tops (start + Tagged.extent (front.map Tagged.plain))
            ((one :: other :: rest).map Tagged.plain) := by
  obtain ⟨front, behind, rfl, isFront, isBehind⟩ := Tagged.exists_parts_of_tops_eq_append tops
  rcases behind with _ | ⟨one, _ | ⟨other, rest⟩⟩
  · cases isBehind
  · cases isBehind
  · exact ⟨front, rest, one, other, rfl, isFront, isBehind⟩

namespace Typing

section

variable {position : Position} {ids : List NodeId} {first second : StatementTree}
  {start place stop : Nat} {log : Log} {final : Program}

/-- Two statements are analyzed in the other order. -/
theorem exists_analyzeAll_swapped_iff
    (front rest : List StatementTree)
    (isStart : start = 2 + Tagged.extent (front.map Tagged.plain))
    (isPlace : place = start + first.descendants + 1)
    (isStop : stop = place + second.descendants + 1) :
    (∃ later, analyzeAll
        (Tagged.tops 2 (front.map Tagged.plain) ++
          ([place + second.descendants] ++
            ([start + first.descendants] ++ Tagged.tops stop (rest.map Tagged.plain))))
        ⟨(Program.frame position ids .empty).extend
          (Tagged.layouts 2 (front.map Tagged.plain) ++
            (first.layout Tree.untagged start (some 0) ++
              (second.layout Tree.untagged place (some 0) ++
                Tagged.layouts stop (rest.map Tagged.plain)))), log⟩ = .ok () ⟨final, later⟩) ↔
      ∃ symbols other both last,
        StatementTree.checkAll 2 .empty front = .ok symbols ∧
        second.check place symbols = .ok other ∧ first.check start other = .ok both ∧
        StatementTree.checkAll stop both rest = .ok last ∧
        final = (Program.frame position ids last).extend
          (Tagged.layouts 2 (StatementTree.typedAll 2 .empty front) ++
            (first.layout (Tree.typing other) start (some 0) ++
              (second.layout (Tree.typing symbols) place (some 0) ++
                Tagged.layouts stop (StatementTree.typedAll stop both rest)))) := by
  -- The nodes of the first statement stay in front of those of the second one.  Only the types of
  -- both are found in the other order.
  let firstNodes := fun tag : Tree.Tagging => first.layout tag start (some 0)
  let secondNodes := fun tag : Tree.Tagging => second.layout tag place (some 0)
  let frontNodes := Tagged.layouts 2 (StatementTree.typedAll 2 .empty front)
  let restNodes := Tagged.layouts stop (rest.map Tagged.plain)
  have startsFirst : start = 2 + frontNodes.length := by
    rw [isStart, Tagged.length_layouts, StatementTree.extent_typedAll]
  have startsSecond : ∀ tag, place = 2 + (frontNodes ++ firstNodes tag).length := by
    intro tag
    rw [List.length_append, StatementTree.length_layout]
    omega
  have startsRest : ∀ firstTag secondTag,
      stop = 2 + (frontNodes ++ firstNodes firstTag ++ secondNodes secondTag).length := by
    intro firstTag secondTag
    have startsHere := startsSecond firstTag
    rw [List.length_append, StatementTree.length_layout]
    omega
  have behindPair : ∀ firstTag secondTag,
      frontNodes ++ (firstNodes firstTag ++ (secondNodes secondTag ++ restNodes)) =
        frontNodes ++ firstNodes firstTag ++ secondNodes secondTag ++ (restNodes ++ []) := by
    intro firstTag secondTag
    simp only [List.append_assoc, List.append_nil]
  constructor
  · rintro ⟨later, done⟩
    obtain ⟨_, frontDone, done⟩ := (analyzeAll_append_eq_ok_iff _ _ _ _).mp done
    obtain ⟨symbols, frontChecked, rfl⟩ :=
      (analyzeAll_eq_ok_iff [] _ front rfl rfl).mp frontDone
    obtain ⟨_, secondDone, done⟩ := (analyzeAll_append_eq_ok_iff _ _ _ _).mp done
    obtain ⟨other, secondChecked, rfl⟩ :=
      (analyzeAll_singleton_eq_ok_iff (frontNodes ++ firstNodes Tree.untagged) restNodes second
        (startsSecond _) (List.append_assoc _ _ _).symm).mp secondDone
    obtain ⟨_, firstDone, restDone⟩ := (analyzeAll_append_eq_ok_iff _ _ _ _).mp done
    obtain ⟨both, firstChecked, rfl⟩ :=
      (analyzeAll_singleton_eq_ok_iff frontNodes (secondNodes (Tree.typing symbols) ++ restNodes)
        first startsFirst (List.append_assoc _ _ _)).mp firstDone
    obtain ⟨last, restChecked, isFinal⟩ :=
      (analyzeAll_eq_ok_iff
        (frontNodes ++ firstNodes (Tree.typing other) ++ secondNodes (Tree.typing symbols)) []
        rest (startsRest _ _) (behindPair _ _)).mp restDone
    refine ⟨symbols, other, both, last, frontChecked, secondChecked, firstChecked, restChecked, ?_⟩
    cases isFinal
    simp only [List.append_assoc, List.append_nil]
    rfl
  · rintro ⟨symbols, other, both, last, frontChecked, secondChecked, firstChecked, restChecked, rfl⟩
    have restDone : ∀ log, ∃ later, analyzeAll (Tagged.tops stop (rest.map Tagged.plain))
        ⟨(Program.frame position ids both).extend
          (frontNodes ++ (firstNodes (Tree.typing other) ++
            (secondNodes (Tree.typing symbols) ++ restNodes))), log⟩ =
        .ok () ⟨(Program.frame position ids last).extend
          (frontNodes ++ (firstNodes (Tree.typing other) ++
            (secondNodes (Tree.typing symbols) ++
              Tagged.layouts stop (StatementTree.typedAll stop both rest)))), later⟩ := by
      intro log
      refine ⟨log ++ StatementTree.eventsOfAll stop both rest,
        (analyzeAll_eq_ok_iff _ [] rest (startsRest _ _) (behindPair _ _)).mpr
          ⟨last, restChecked, ?_⟩⟩
      simp only [List.append_assoc, List.append_nil]
    exact ⟨_, (analyzeAll_append_eq_ok_iff _ _ _ _).mpr
      ⟨_, (analyzeAll_eq_ok_iff [] _ front rfl rfl).mpr ⟨symbols, frontChecked, rfl⟩,
        (analyzeAll_append_eq_ok_iff _ _ _ _).mpr
          ⟨_, (analyzeAll_singleton_eq_ok_iff (frontNodes ++ firstNodes Tree.untagged) restNodes
              second (startsSecond _) (List.append_assoc _ _ _).symm).mpr
                ⟨other, secondChecked, rfl⟩,
            (analyzeAll_append_eq_ok_iff _ _ _ _).mpr
              ⟨_, (analyzeAll_singleton_eq_ok_iff frontNodes
                  (secondNodes (Tree.typing symbols) ++ restNodes) first startsFirst
                  (List.append_assoc _ _ _)).mpr ⟨both, firstChecked, rfl⟩,
                (restDone _).choose_spec⟩⟩⟩⟩

/-- The nodes of accepted statements, two of them apart from the others. -/
theorem layouts_typedAll_pair
    {front : List StatementTree} {symbols middle both : SymbolTable}
    (rest : List StatementTree)
    (frontChecked : StatementTree.checkAll 2 .empty front = .ok symbols)
    (firstChecked : first.check start symbols = .ok middle)
    (secondChecked : second.check place middle = .ok both)
    (isStart : start = 2 + Tagged.extent (front.map Tagged.plain))
    (isPlace : place = start + first.descendants + 1)
    (isStop : stop = place + second.descendants + 1) :
    Tagged.layouts 2 (StatementTree.typedAll 2 .empty (front ++ first :: second :: rest)) =
      Tagged.layouts 2 (StatementTree.typedAll 2 .empty front) ++
        (first.layout (Tree.typing symbols) start (some 0) ++
          (second.layout (Tree.typing middle) place (some 0) ++
            Tagged.layouts stop (StatementTree.typedAll stop both rest))) := by
  rw [StatementTree.typedAll_append frontChecked, Tagged.layouts_append,
    StatementTree.extent_typedAll, ← isStart, StatementTree.typedAll, firstChecked, ← isPlace,
    StatementTree.typedAll]
  simp only [Except.toOption, Option.getD_some, secondChecked, ← isStop, Tagged.layouts, ← isPlace]

/-- Two independent statements may be analyzed in the other order. -/
theorem exists_analyzeAll_swapped_iff_checkAll
    (front rest : List StatementTree)
    (independent : first.Independent second)
    (isStart : start = 2 + Tagged.extent (front.map Tagged.plain))
    (isPlace : place = start + first.descendants + 1)
    (isStop : stop = place + second.descendants + 1) :
    (∃ later, analyzeAll
        (Tagged.tops 2 (front.map Tagged.plain) ++
          ([place + second.descendants] ++
            ([start + first.descendants] ++ Tagged.tops stop (rest.map Tagged.plain))))
        ⟨(Program.frame position ids .empty).extend
          (Tagged.layouts 2 (front.map Tagged.plain) ++
            (first.layout Tree.untagged start (some 0) ++
              (second.layout Tree.untagged place (some 0) ++
                Tagged.layouts stop (rest.map Tagged.plain)))), log⟩ = .ok () ⟨final, later⟩) ↔
      ∃ last, StatementTree.checkAll 2 .empty (front ++ first :: second :: rest) = .ok last ∧
        final = (Program.frame position ids last).extend
          (Tagged.layouts 2
            (StatementTree.typedAll 2 .empty (front ++ first :: second :: rest))) := by
  rw [exists_analyzeAll_swapped_iff front rest isStart isPlace isStop]
  simp only [StatementTree.checkAll_append_eq_ok_iff, StatementTree.checkAll_cons_eq_ok_iff,
    ← isStart, ← isPlace, ← isStop]
  constructor
  · rintro ⟨symbols, other, both, last, frontChecked, secondChecked, firstChecked, restChecked, rfl⟩
    obtain ⟨middle, firstBefore, secondBehind, firstAgrees, secondAgrees⟩ :=
      independent.symm.exists_check secondChecked firstChecked
    refine ⟨last, ⟨symbols, frontChecked, middle, firstBefore, both, secondBehind, restChecked⟩, ?_⟩
    rw [layouts_typedAll_pair rest frontChecked firstBefore secondBehind isStart isPlace isStop,
      StatementTree.layout_congr firstAgrees, StatementTree.layout_congr secondAgrees]
  · rintro ⟨last, ⟨symbols, frontChecked, middle, firstChecked, both, secondChecked, restChecked⟩,
      rfl⟩
    obtain ⟨other, secondBefore, firstBehind, secondAgrees, firstAgrees⟩ :=
      independent.exists_check firstChecked secondChecked
    refine ⟨symbols, other, both, last, frontChecked, secondBefore, firstBehind, restChecked, ?_⟩
    rw [layouts_typedAll_pair rest frontChecked firstChecked secondChecked isStart isPlace isStop,
      StatementTree.layout_congr firstAgrees, StatementTree.layout_congr secondAgrees]

end

end Typing

namespace Program

section

variable {position : Position} {symbols : SymbolTable} {nodes : List Node}
  (ids order : List NodeId)

theorem reordered_frame :
    ((frame position ids symbols).extend nodes).reordered order =
      (frame position order symbols).extend nodes :=
  modifyKind_frame _ _ _ _ _ _ _ rfl

/-- The order of the statements shows in no recorded type and in no symbol. -/
theorem sameTyping_frame :
    ((frame position ids symbols).extend nodes).SameTyping
      ((frame position order symbols).extend nodes) where
  recorded := by
    intro id
    rw [← reordered_frame ids order, reordered, modifyKind, recordedTy?,
      recordedTy?, kind?, kind?, node?_modifyNode]
    split
    · next isCode =>
        subst isCode
        cases ((frame position ids symbols).extend nodes).node? _ with
        | none => rfl
        | some node =>
            obtain ⟨kind, _, _⟩ := node
            cases kind <;> rfl
    · rfl
  symbols := by rw [symbols_frame, symbols_frame]

end
end Program

namespace Typing

section

variable (position : Position) (front rest : List StatementTree) (first second : StatementTree)

/-- The nodes of statements, two of them apart from the others. -/
theorem layouts_plain_pair :
    let start := 2 + Tagged.extent (front.map Tagged.plain)
    let place := start + first.descendants + 1
    let stop := place + second.descendants + 1
    Tagged.layouts 2 ((front ++ first :: second :: rest).map Tagged.plain) =
      Tagged.layouts 2 (front.map Tagged.plain) ++
        (first.layout Tree.untagged start (some 0) ++
          (second.layout Tree.untagged place (some 0) ++
            Tagged.layouts stop (rest.map Tagged.plain))) := by
  rw [List.map_append, Tagged.layouts_append]
  rfl

variable {first second} in
/-- The same holds of a program in which two independent statements stand in the other order. -/
theorem analyze_reordered_iff
    (independent : first.Independent second)
    (final : Program) :
    let start := 2 + Tagged.extent (front.map Tagged.plain)
    let place := start + first.descendants + 1
    let order := Tagged.tops 2 (front.map Tagged.plain) ++
      (place + second.descendants) :: (start + first.descendants) ::
        Tagged.tops (place + second.descendants + 1) (rest.map Tagged.plain)
    let swapped := (untaggedProgram position (front ++ first :: second :: rest)).reordered order
    (analyze swapped).result = .ok () ∧ (analyze swapped).program = final ↔
      ∃ last, StatementTree.checkAll 2 .empty (front ++ first :: second :: rest) = .ok last ∧
        final = (Program.frame position order last).extend
          (Tagged.layouts 2
            (StatementTree.typedAll 2 .empty (front ++ first :: second :: rest))) := by
  intro start place order swapped
  have isSwapped : swapped = (Program.frame position order .empty).extend
      (Tagged.layouts 2 ((front ++ first :: second :: rest).map Tagged.plain)) :=
    Program.reordered_frame _ order
  rw [exists_analyzeAll_iff, isSwapped, Program.statements_frame, layouts_plain_pair]
  exact exists_analyzeAll_swapped_iff_checkAll front rest independent rfl rfl rfl

end
end Typing

/-- Two statements next to each other are independent if their trees are. -/
theorem Program.independent_untaggedProgram_iff
    (position : Position) (front rest : List StatementTree) (first second : StatementTree) :
    let start := 2 + Tagged.extent (front.map Tagged.plain)
    let place := start + first.descendants + 1
    (untaggedProgram position (front ++ first :: second :: rest)).Independent
        (start + first.descendants) (place + second.descendants) ↔
      first.Independent second := by
  have holds := holds_assemble position .empty
    ((front ++ first :: second :: rest).map Tagged.plain)
  rw [Typing.layouts_plain_pair, holds_append, holds_append, holds_append,
    Tagged.length_layouts, StatementTree.length_layout] at holds
  exact independent_iff holds.2.1 holds.2.2.1

/-- Independent statements commute.  If of two statements of a parsed program that stand next to
each other neither declares, assigns or reads a name that occurs in the other one, then the
program is accepted exactly if it is accepted with these two in the other order, and then both
analyses leave the same types and the same symbols. -/
theorem analyze_swapped
    {tokens : List Token} {file : String} {program : Program}
    {before after : List NodeId} {first second : NodeId}
    (parsed : Grammar.parse tokens file = .ok program)
    (adjacent : program.statements = before ++ first :: second :: after)
    (independent : program.Independent first second) :
    let swapped := program.reordered (before ++ second :: first :: after)
    ((Typing.analyze program).result = .ok () ↔ (Typing.analyze swapped).result = .ok ()) ∧
      ((Typing.analyze program).result = .ok () ->
        (Typing.analyze program).program.SameTyping (Typing.analyze swapped).program) := by
  obtain ⟨statements, _, rfl⟩ := Grammar.exists_statements_of_parse parsed
  intro swapped
  let position := Grammar.Sentence.startOf tokens file
  let program := untaggedProgram position statements
  have order : program.statements = Tagged.tops 2 (statements.map Tagged.plain) :=
    Program.statements_assemble ..
  obtain ⟨front, rest, one, other, isParted, rfl, isRest⟩ :=
    Tagged.exists_pair_of_tops_eq_append (order.symm.trans adjacent)
  subst isParted
  cases isRest
  have treesIndependent : one.Independent other :=
    (Program.independent_untaggedProgram_iff position front rest one other).mp independent
  -- Both orders are accepted exactly if the check of the trees accepts these as they were written.
  have analyzed := Typing.analyze_untaggedProgram_iff position (front ++ one :: other :: rest)
  have analyzedSwapped := Typing.analyze_reordered_iff position front rest treesIndependent
  constructor
  · constructor
    · intro accepted
      obtain ⟨last, checked, _⟩ := (analyzed _).mp ⟨accepted, rfl⟩
      exact ((analyzedSwapped _).mpr ⟨last, checked, rfl⟩).1
    · intro accepted
      obtain ⟨last, checked, _⟩ := (analyzedSwapped _).mp ⟨accepted, rfl⟩
      exact ((analyzed _).mpr ⟨last, checked, rfl⟩).1
  · intro accepted
    obtain ⟨last, checked, left⟩ := (analyzed _).mp ⟨accepted, rfl⟩
    have leftSwapped : (Typing.analyze swapped).program = _ :=
      ((analyzedSwapped _).mpr ⟨last, checked, rfl⟩).2
    rw [left, leftSwapped]
    exact Program.sameTyping_frame _ _

/-- Two declarations of different variables with literals. -/
theorem analyze_swapped_of_declarations :
    ∃ tokens program,
      Token.tokenize "declare a = 1; declare b = true;" "" = .ok tokens ∧
      Grammar.parse tokens "" = .ok program ∧ program.statements = [] ++ 5 :: 9 :: [] ∧
      program.Independent 5 9 ∧
      ((Typing.analyze program).result = .ok () ↔
        (Typing.analyze (program.reordered [9, 5])).result = .ok ()) := by
  let place := fun column : Nat => (⟨1, column, ""⟩ : Position)
  let one := Tree.leaf (.literal (.int 1)) (place 12)
  let yes := Tree.leaf (.literal (.bool true)) (place 27)
  let first : StatementTree :=
    .declaration (place 0) ⟨.identifier "a", place 8⟩ none (some one)
  let second : StatementTree :=
    .declaration (place 15) ⟨.identifier "b", place 23⟩ none (some yes)
  have isRead : ((Token.tokenize "declare a = 1; declare b = true;" "").toOption.bind
      fun tokens => (Grammar.parse tokens "").toOption) =
        some (untaggedProgram (place 0) [first, second]) := by decide +kernel
  obtain ⟨tokens, program, tokenized, parsed⟩ := Grammar.exists_of_parses
    (by decide +kernel : Grammar.parses "declare a = 1; declare b = true;" "" = true)
  rw [tokenized] at isRead
  change (Grammar.parse tokens "").toOption = _ at isRead
  rw [parsed] at isRead
  obtain rfl : program = untaggedProgram (place 0) [first, second] := Option.some.inj isRead
  have literalOnly : ∀ (value : Literal) (position : Position) (name : String),
      ¬ (Tree.leaf (.literal value) position).Mentions name := by
    rintro value position name ⟨_, ⟨⟩⟩
  have trees : first.Independent second := by
    constructor
    · intro name isGiven mentions
      obtain rfl : "a" = name := Option.some.inj isGiven
      rcases mentions with ⟨leaf, member, isName⟩ | ⟨tree, isExpression, mentions⟩
      · obtain rfl := List.mem_singleton.mp member
        exact absurd (Leaf.identifier.inj isName) (by decide)
      · obtain rfl := Option.some.inj isExpression
        exact literalOnly _ _ _ mentions
    · intro name isGiven mentions
      obtain rfl : "b" = name := Option.some.inj isGiven
      rcases mentions with ⟨leaf, member, isName⟩ | ⟨tree, isExpression, mentions⟩
      · obtain rfl := List.mem_singleton.mp member
        exact absurd (Leaf.identifier.inj isName) (by decide)
      · obtain rfl := Option.some.inj isExpression
        exact literalOnly _ _ _ mentions
  have independent := (Program.independent_untaggedProgram_iff (place 0) [] [] first second).mpr
    trees
  have isParted : (untaggedProgram (place 0) [first, second]).statements = [] ++ 5 :: 9 :: [] := rfl
  exact ⟨tokens, _, tokenized, parsed, isParted, independent,
    (analyze_swapped parsed isParted independent).1⟩

end ScriptLang
