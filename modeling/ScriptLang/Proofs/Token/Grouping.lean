import ScriptLang.Proofs.Token.Respelling

/-!
# Groups of tokens that become one

Joining pairs cuts a list of tokens into groups: pairs that make one operator, and
tokens that are left alone because they make none with what follows them.  The main
statement says that there is only one way to cut a list like this, whatever its tokens
are, and that joining pairs follows it.
-/

namespace ScriptLang

namespace TokenKind

/-- The kinds that make one operator with an equals sign behind them, and these operators. -/
def pairings : List (TokenKind × TokenKind) :=
  [(.equal, .equals), (.less, .lessEquals), (.greater, .greaterEquals), (.not, .notEquals)]

/-- Two kinds make one operator if they stand next to each other. -/
def MakePair (first second : TokenKind) : Prop :=
  first ∈ pairings.map Prod.fst ∧ second = .equal

theorem joined?_eq_some_iff (first second kind : TokenKind) :
    joined? first second = some kind ↔ (first, kind) ∈ pairings ∧ second = .equal := by
  constructor
  · intro joined
    unfold joined? at joined
    split at joined <;> cases joined <;> decide
  · rintro ⟨member, rfl⟩
    simp only [pairings, List.mem_cons, Prod.mk.injEq, List.not_mem_nil, or_false] at member
    rcases member with ⟨rfl, rfl⟩ | ⟨rfl, rfl⟩ | ⟨rfl, rfl⟩ | ⟨rfl, rfl⟩ <;> rfl

theorem joined?_eq_none_iff (first second : TokenKind) :
    joined? first second = none ↔ ¬ MakePair first second := by
  rw [← not_iff_not, not_not, ← ne_eq, Option.ne_none_iff_exists']
  constructor
  · rintro ⟨kind, joined⟩
    obtain ⟨member, isEqual⟩ := (joined?_eq_some_iff first second kind).mp joined
    exact ⟨List.mem_map_of_mem member, isEqual⟩
  · rintro ⟨isFirst, isEqual⟩
    obtain ⟨⟨_, kind⟩, member, rfl⟩ := List.mem_map.mp isFirst
    exact ⟨kind, (joined?_eq_some_iff _ second kind).mpr ⟨member, isEqual⟩⟩

end TokenKind

namespace Token

open TokenKind (MakePair)

/-- Neighbouring tokens that become one. -/
inductive Group
  | single (token : Token)
  | pair (kind : TokenKind) (first second : Token)

namespace Group

/-- The tokens of a group. -/
def tokens : Group -> List Token
  | .single token => [token]
  | .pair _ first second => [first, second]

/-- The token that a group becomes.  A pair starts where its first token does and stops where its
second one does, and carries nothing. -/
def whole : Group -> Token
  | .single token => token
  | .pair kind first second =>
      ⟨kind, first.value ++ second.value, ⟨first.span.start, second.span.stop⟩, .empty⟩

/-- The group that the first tokens of a list call for. -/
def first? : List Token -> Option Group
  | first :: second :: _ =>
      match TokenKind.joined? first.kind second.kind with
      | some kind => some (.pair kind first second)
      | none => some (.single first)
  | [token] => some (.single token)
  | [] => none

/-- The text of a group is that of its tokens. -/
theorem value_whole (group : Group) :
    group.whole.value.toList = group.tokens.flatMap fun token => token.value.toList := by
  cases group <;> simp [whole, tokens]

end Group

/-- Groups follow each other without a gap, every pair makes the operator that it becomes, and no
token is left alone that makes an operator with the one behind it. -/
structure IsGrouping (groups : List Group) (tokens : List Token) : Prop where
  covers : groups.flatMap Group.tokens = tokens
  pair : ∀ kind first second, .pair kind first second ∈ groups ->
    (first.kind, kind) ∈ TokenKind.pairings ∧ second.kind = .equal
  single : ∀ before token behind, groups = before ++ .single token :: behind ->
    ∀ next ∈ (behind.flatMap Group.tokens).head?, ¬ MakePair token.kind next.kind

namespace IsGrouping

variable {groups : List Group} {tokens : List Token}

theorem nil : IsGrouping [] [] where
  covers := rfl
  pair _ _ _ member := absurd member List.not_mem_nil
  single before token behind isSplit := by simp at isSplit

/-- What is left of a grouping behind its first group. -/
theorem tail
    {group : Group}
    (isGrouping : IsGrouping (group :: groups) tokens) :
    IsGrouping groups (groups.flatMap Group.tokens) where
  covers := rfl
  pair kind first second member := isGrouping.pair kind first second (List.mem_cons_of_mem _ member)
  single before token behind isSplit :=
    isGrouping.single (group :: before) token behind (by rw [isSplit, List.cons_append])

/-- A pair in front of a grouping. -/
theorem cons_pair
    {kind : TokenKind} {first second : Token}
    (isGrouping : IsGrouping groups tokens)
    (member : (first.kind, kind) ∈ TokenKind.pairings)
    (isEqual : second.kind = .equal) :
    IsGrouping (.pair kind first second :: groups) (first :: second :: tokens) where
  covers := congrArg ([first, second] ++ ·) isGrouping.covers
  pair other left right isMember := by
    rcases List.mem_cons.mp isMember with isFirst | inGroups
    · cases isFirst
      exact ⟨member, isEqual⟩
    · exact isGrouping.pair other left right inGroups
  single before token behind isSplit := by
    cases before with
    | nil => cases isSplit
    | cons group before => exact isGrouping.single before token behind (List.cons.inj isSplit).2

/-- A single token in front of a grouping. -/
theorem cons_single
    {token : Token}
    (isGrouping : IsGrouping groups tokens)
    (alone : ∀ next ∈ tokens.head?, ¬ MakePair token.kind next.kind) :
    IsGrouping (.single token :: groups) (token :: tokens) where
  covers := congrArg ([token] ++ ·) isGrouping.covers
  pair kind first second member := by
    rcases List.mem_cons.mp member with isFirst | inGroups
    · cases isFirst
    · exact isGrouping.pair kind first second inGroups
  single before other behind isSplit := by
    cases before with
    | nil =>
        cases isSplit
        rw [isGrouping.covers]
        exact alone
    | cons group before => exact isGrouping.single before other behind (List.cons.inj isSplit).2

/-- Joining pairs makes the tokens of any grouping. -/
theorem joinPairs_eq
    (isGrouping : IsGrouping groups tokens) :
    joinPairs tokens = groups.map Group.whole := by
  induction groups generalizing tokens with
  | nil =>
      rw [← isGrouping.covers]
      exact joinPairs_nil
  | cons group groups inductionHypothesis =>
      have rest := inductionHypothesis isGrouping.tail
      rw [← isGrouping.covers, List.flatMap_cons, List.map_cons, ← rest]
      cases group with
      | pair kind first second =>
          have joined := (TokenKind.joined?_eq_some_iff _ _ _).mpr
            (isGrouping.pair kind first second List.mem_cons_self)
          rw [Group.tokens, List.cons_append, List.singleton_append, joinPairs, joined]
          rfl
      | single token =>
          rw [Group.tokens, List.singleton_append]
          cases behind : groups.flatMap Group.tokens with
          | nil => simp [Group.whole]
          | cons next others =>
              have alone := isGrouping.single [] token groups rfl next
              rw [behind] at alone
              rw [joinPairs, (TokenKind.joined?_eq_none_iff _ _).mpr (alone rfl)]
              rfl

/-- The first group is the one that the first tokens call for. -/
theorem head?_eq
    (isGrouping : IsGrouping groups tokens) :
    groups.head? = Group.first? tokens := by
  rw [← isGrouping.covers]
  cases groups with
  | nil => rfl
  | cons group groups =>
      rw [List.flatMap_cons, List.head?_cons]
      cases group with
      | pair kind first second =>
          have joined := (TokenKind.joined?_eq_some_iff _ _ _).mpr
            (isGrouping.pair kind first second List.mem_cons_self)
          rw [Group.tokens, List.cons_append, List.singleton_append, Group.first?, joined]
      | single token =>
          rw [Group.tokens, List.singleton_append]
          cases behind : groups.flatMap Group.tokens with
          | nil => rfl
          | cons next others =>
              have alone := isGrouping.single [] token groups rfl next
              rw [behind] at alone
              rw [Group.first?, (TokenKind.joined?_eq_none_iff _ _).mpr (alone rfl)]

/-- A list of tokens can be cut into groups in one way only. -/
theorem unique
    {others : List Group}
    (isGrouping : IsGrouping groups tokens)
    (isOther : IsGrouping others tokens) :
    others = groups := by
  induction groups generalizing others tokens with
  | nil => exact List.head?_eq_none_iff.mp (isOther.head?_eq.trans isGrouping.head?_eq.symm)
  | cons group groups inductionHypothesis =>
      have sameHead := isOther.head?_eq.trans isGrouping.head?_eq.symm
      cases others with
      | nil => cases sameHead
      | cons other others =>
          cases sameHead
          have same := isOther.covers.trans isGrouping.covers.symm
          rw [List.flatMap_cons, List.flatMap_cons] at same
          have isTail := isOther.tail
          rw [List.append_cancel_left same] at isTail
          rw [inductionHypothesis isGrouping.tail isTail]

end IsGrouping

/-- Every list of tokens can be cut into groups. -/
theorem exists_isGrouping (tokens : List Token) : ∃ groups, IsGrouping groups tokens := by
  fun_induction joinPairs tokens with
  | case1 first second rest kind joined inductionHypothesis =>
      obtain ⟨groups, isGrouping⟩ := inductionHypothesis
      obtain ⟨member, isEqual⟩ := (TokenKind.joined?_eq_some_iff _ _ _).mp joined
      exact ⟨_, isGrouping.cons_pair member isEqual⟩
  | case2 first second rest notJoined inductionHypothesis =>
      obtain ⟨groups, isGrouping⟩ := inductionHypothesis
      refine ⟨_, isGrouping.cons_single ?_⟩
      rintro _ ⟨⟩
      exact (TokenKind.joined?_eq_none_iff _ _).mp notJoined
  | case3 tokens fewer =>
      cases tokens with
      | nil => exact ⟨[], .nil⟩
      | cons first others =>
          cases others with
          | nil => exact ⟨[.single first], IsGrouping.nil.cons_single (by simp)⟩
          | cons second rest => exact absurd rfl (fewer first second rest)

/-! ## Bindings -/

/-- A binding is given once. -/
theorem withBinding_withBinding (token : Token) :
    token.withBinding.withBinding = token.withBinding := by
  cases found : token.kind.binding? with
  | none => simp only [withBinding, found]
  | some binding => simp only [withBinding, found]

/-- A pair forgets the bindings of its tokens. -/
theorem join_withBinding (kind : TokenKind) (first second : Token) :
    join kind first.withBinding second.withBinding = join kind first second := by
  simp only [join, value_withBinding, span_withBinding]

/-- It makes no difference whether tokens get their bindings before pairs are joined as well. -/
theorem finished_bindOperators (tokens : List Token) :
    finished (bindOperators tokens) = finished tokens := by
  fun_induction joinPairs tokens with
  | case1 first second rest kind joined inductionHypothesis =>
      have joinedToo :
          TokenKind.joined? first.withBinding.kind second.withBinding.kind = some kind := by
        rw [kind_withBinding, kind_withBinding, joined]
      have bound : bindOperators (first :: second :: rest) =
          first.withBinding :: second.withBinding :: bindOperators rest := rfl
      rw [bound, finished_cons_cons _ joinedToo, finished_cons_cons rest joined,
        join_withBinding, inductionHypothesis]
  | case2 first second rest notJoined inductionHypothesis =>
      have bound : bindOperators (first :: second :: rest) =
          first.withBinding :: bindOperators (second :: rest) := rfl
      have apart : ∀ other ∈ (bindOperators (second :: rest)).head?,
          TokenKind.joined? first.withBinding.kind other.kind = none := by
        rintro _ ⟨⟩
        rw [kind_withBinding, kind_withBinding, notJoined]
      rw [bound, finished_cons apart, withBinding_withBinding, inductionHypothesis]
      refine (finished_cons ?_).symm
      rintro _ ⟨⟩
      exact notJoined
  | case3 tokens fewer =>
      cases tokens with
      | nil => rfl
      | cons first others =>
          cases others with
          | nil => simp [finished, bindOperators, withBinding_withBinding]
          | cons second rest => exact absurd rfl (fewer first second rest)

/-- Joining pairs is the greedy pairing from left to right.  There is exactly one way to cut a list
of tokens into groups, and every group becomes one token.  The text stays the same, no two
neighbours are left that make a pair, joining pairs again changes nothing, and bindings that are
given before do not matter. -/
theorem joinPairs_greedy (tokens : List Token) :
    (∃ groups, IsGrouping groups tokens ∧
      (∀ others, IsGrouping others tokens -> others = groups) ∧
      joinPairs tokens = groups.map Group.whole) ∧
    ((joinPairs tokens).flatMap fun token => token.value.toList) =
      (tokens.flatMap fun token => token.value.toList) ∧
    ((joinPairs tokens).IsChain fun first second => ¬ MakePair first.kind second.kind) ∧
    joinPairs (joinPairs tokens) = joinPairs tokens ∧
    bindOperators (joinPairs (bindOperators tokens)) = bindOperators (joinPairs tokens) := by
  obtain ⟨groups, isGrouping⟩ := exists_isGrouping tokens
  refine ⟨⟨groups, isGrouping, fun others isOther => isGrouping.unique isOther,
    isGrouping.joinPairs_eq⟩, ?_, ?_, joinPairs_of_parted (parted_joinPairs tokens),
    finished_bindOperators tokens⟩
  · calc ((joinPairs tokens).flatMap fun token => token.value.toList)
      _ = groups.flatMap fun group => group.whole.value.toList := by
        rw [isGrouping.joinPairs_eq, List.flatMap_map]
      _ = groups.flatMap fun group => group.tokens.flatMap fun token => token.value.toList := by
        simp only [Group.value_whole]
      _ = tokens.flatMap fun token => token.value.toList := by
        rw [← isGrouping.covers, List.flatMap_assoc]
  · exact (parted_joinPairs tokens).imp fun first second apart =>
      (TokenKind.joined?_eq_none_iff _ _).mp apart

end Token
end ScriptLang
