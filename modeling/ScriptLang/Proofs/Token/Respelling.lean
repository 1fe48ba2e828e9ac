import ScriptLang.Proofs.Token.Spans
import ScriptLang.Proofs.Twin.Layout

/-!
# Tokens written one behind the other

The texts of tokens, each with a blank behind it, are cut into the same tokens again.
Blanks keep words and slashes apart, but an equals sign is joined with what stands
before it across any layout.  The tokens come back all the same: tokens that are
left apart make no pair, and the two characters of a pair are cut as before.
-/

namespace ScriptLang

open Source (Position)

namespace TokenKind

/-- The second part of a pair is no part of a pair in front of it. -/
theorem joined?_eq_none_of_isJoined
    {kind : TokenKind}
    (other : TokenKind)
    (isJoined : kind.IsJoined) :
    joined? other kind = none ∧ joined? kind other = none := by
  have member := mem_of_isJoined isJoined
  constructor
  · apply joined?_eq_none_of_second
    rintro rfl
    revert member
    decide
  · apply joined?_eq_none_of_first
    revert member
    cases kind <;> decide

end TokenKind

namespace Token

/-- The texts of tokens, separated by single blanks, with a blank at the end. -/
def spelled (tokens : List Token) : String :=
  " ".intercalate (tokens.map value) ++ " "

/-- No two neighbours make a pair. -/
def Parted (tokens : List Token) : Prop :=
  tokens.IsChain fun first second => TokenKind.joined? first.kind second.kind = none

theorem toList_spelled
    {tokens : List Token}
    (nonempty : tokens ≠ []) :
    (spelled tokens).toList = tokens.flatMap fun token => token.value.toList ++ [' '] := by
  unfold spelled
  rw [String.toList_append, String.toList_intercalate]
  induction tokens with
  | nil => exact absurd rfl nonempty
  | cons first rest inductionHypothesis =>
      cases rest with
      | nil => simp
      | cons second others =>
          rw [List.flatMap_cons, ← inductionHypothesis (List.cons_ne_nil _ _)]
          simp

/-! ## What is left apart -/

/-- Joining pairs makes no pair with what stands in front of the list. -/
theorem head?_joinPairs
    {kind : TokenKind} {tokens : List Token}
    (apart : ∀ second ∈ tokens.head?, TokenKind.joined? kind second.kind = none) :
    ∀ second ∈ (joinPairs tokens).head?, TokenKind.joined? kind second.kind = none := by
  fun_cases joinPairs tokens with
  | case1 first second rest joinedKind joined =>
      rintro _ ⟨⟩
      exact (TokenKind.joined?_eq_none_of_isJoined kind ⟨_, _, joined⟩).1
  | case2 first second rest notJoined =>
      rintro _ ⟨⟩
      exact apart first rfl
  | case3 tokens fewer => exact apart

/-- What is left apart by joining pairs makes no pair. -/
theorem parted_joinPairs (tokens : List Token) : Parted (joinPairs tokens) := by
  fun_induction joinPairs tokens with
  | case1 first second rest kind joined inductionHypothesis =>
      apply List.isChain_cons.mpr
      refine ⟨fun other _ => ?_, inductionHypothesis⟩
      exact (TokenKind.joined?_eq_none_of_isJoined other.kind ⟨_, _, joined⟩).2
  | case2 first second rest notJoined inductionHypothesis =>
      apply List.isChain_cons.mpr
      refine ⟨head?_joinPairs ?_, inductionHypothesis⟩
      rintro _ ⟨⟩
      exact notJoined
  | case3 tokens fewer =>
      cases tokens with
      | nil => exact .nil
      | cons first others =>
          cases others with
          | nil => exact .singleton first
          | cons second rest => exact absurd rfl (fewer first second rest)

/-- Nothing is joined where no neighbours make a pair. -/
theorem joinPairs_of_parted
    {tokens : List Token}
    (parted : Parted tokens) :
    joinPairs tokens = tokens := by
  fun_induction joinPairs tokens with
  | case1 first second rest kind joined =>
      have apart := (List.isChain_cons.mp parted).1 second rfl
      rw [joined] at apart
      cases apart
  | case2 first second rest notJoined inductionHypothesis =>
      rw [inductionHypothesis (List.isChain_cons.mp parted).2]
  | case3 tokens fewer => rfl

/-- Whether neighbours make a pair does not depend on bindings. -/
theorem parted_bindOperators
    {tokens : List Token}
    (parted : Parted tokens) :
    Parted (bindOperators tokens) := by
  unfold Parted bindOperators
  rw [List.isChain_map]
  simp only [kind_withBinding]
  exact parted

/-! ## The texts of scanned tokens -/

/-- Scanned tokens as they stand in the text of the tokens that they become: the two parts of a
pair without a blank between them. -/
def respelling : List Token -> List Piece
  | first :: second :: rest =>
      match TokenKind.joined? first.kind second.kind with
      | some _ => .written first :: .written second :: .blank :: respelling rest
      | none => .written first :: .blank :: respelling (second :: rest)
  | [token] => [.written token, .blank]
  | [] => []

/-- The text is that of the tokens that are made. -/
theorem texts_respelling (tokens : List Token) :
    Piece.texts (respelling tokens) =
      (finished tokens).flatMap fun token => token.value.toList ++ [' '] := by
  fun_induction respelling tokens with
  | case1 first second rest kind joined inductionHypothesis =>
      rw [finished_cons_cons rest joined, List.flatMap_cons, value_withBinding]
      simp [inductionHypothesis, Piece.text, join]
  | case2 first second rest notJoined inductionHypothesis =>
      rw [finished_cons (fun other isSecond => by cases isSecond; exact notJoined),
        List.flatMap_cons, value_withBinding]
      simp [inductionHypothesis, Piece.text]
  | case3 token =>
      rw [finished_cons (by simp), List.flatMap_cons, value_withBinding]
      simp [Piece.text, finished, bindOperators]
  | case4 => rfl

/-- A scanned token in front of a blank. -/
theorem separates_blank
    {token : Token}
    (scanned : token.IsWord ∨ token.IsPunctuation)
    (rest : List Piece) :
    Piece.Separates token (Piece.texts (.blank :: rest)) := by
  rcases scanned with isWord | isPunctuation
  · exact .inl ⟨isWord, ' ', _, rfl, rfl⟩
  · refine .inr ⟨isPunctuation, ?_⟩
    rintro ⟨_, isSlash⟩
    cases isSlash

/-- The first part of a pair in front of the second one, which is no slash. -/
theorem separates_pair
    {first second : Token} {kind : TokenKind}
    (joined : TokenKind.joined? first.kind second.kind = some kind)
    (firstScanned : first.IsWord ∨ first.IsPunctuation)
    (secondScanned : second.IsWord ∨ second.IsPunctuation)
    (rest : List Piece) :
    Piece.Separates first (Piece.texts (.written second :: rest)) := by
  have secondIsEqual := TokenKind.second_of_joined? joined
  obtain ⟨equal, isEqual, isText⟩ :=
    IsTextOf.exists_character ⟨secondScanned, rfl⟩ (by simp [secondIsEqual])
  rw [secondIsEqual] at isEqual
  obtain rfl := eq_of_punctuation?_eq_equal isEqual
  rcases firstScanned with isWord | isPunctuation
  · refine .inl ⟨isWord, '=', Piece.texts rest, rfl, ?_⟩
    rw [Piece.texts_cons, Piece.text, isText]
    rfl
  · refine .inr ⟨isPunctuation, ?_⟩
    rintro ⟨_, isSlash⟩
    rw [Piece.texts_cons, Piece.text, isText] at isSlash
    cases isSlash

section

variable {tokens : List Token}
  (scanned : ∀ token ∈ tokens, token.IsWord ∨ token.IsPunctuation)

include scanned

theorem separated_respelling : Piece.Separated (respelling tokens) := by
  fun_induction respelling tokens with
  | case1 first second rest kind joined inductionHypothesis =>
      obtain ⟨firstScanned, secondScanned, restScanned⟩ :=
        (List.forall_mem_cons.mp scanned).imp_right List.forall_mem_cons.mp
      exact ⟨separates_pair joined firstScanned secondScanned _,
        separates_blank secondScanned _, inductionHypothesis restScanned⟩
  | case2 first second rest notJoined inductionHypothesis =>
      obtain ⟨firstScanned, restScanned⟩ := List.forall_mem_cons.mp scanned
      exact ⟨separates_blank firstScanned _, inductionHypothesis restScanned⟩
  | case3 token =>
      exact ⟨separates_blank (scanned token List.mem_cons_self) _, trivial⟩
  | case4 => exact trivial

end

/-- Tokens that differ in their spans at most. -/
abbrev Alike : Token -> Token -> Prop := Token.Twin fun _ _ => True

theorem alike_placedAt (position : Position) (token : Token) :
    Alike (Piece.placedAt position token) token := .intro _ _ _ trivial trivial

/-- What is cut out of the text are the scanned tokens, at other places. -/
theorem placed_respelling (tokens : List Token) (position : Position) :
    List.Forall₂ Alike (Piece.placed position (respelling tokens)) tokens := by
  fun_induction respelling tokens generalizing position with
  | case1 first second rest kind joined inductionHypothesis =>
      exact .cons (alike_placedAt _ _) (.cons (alike_placedAt _ _) (inductionHypothesis _))
  | case2 first second rest notJoined inductionHypothesis =>
      exact .cons (alike_placedAt _ _) (inductionHypothesis _)
  | case3 token => exact .cons (alike_placedAt _ _) .nil
  | case4 => exact .nil

theorem map_unplaced_of_alike
    {tokens others : List Token}
    (alike : List.Forall₂ Alike tokens others) :
    tokens.map unplaced = others.map unplaced := by
  induction alike with
  | nil => rfl
  | cons firstAlike _ inductionHypothesis =>
      rw [List.map_cons, List.map_cons, inductionHypothesis]
      cases firstAlike
      rfl

/-- The text of scanned tokens is scanned as the same tokens, at other places. -/
theorem exists_scanSource_spelled
    {tokens : List Token}
    (scanned : ∀ token ∈ tokens, token.IsWord ∨ token.IsPunctuation)
    (file : String) :
    ∃ again, scanSource (spelled (finished tokens)) file = .ok again ∧
      List.Forall₂ Alike again tokens := by
  cases tokens with
  | nil =>
      refine ⟨[], ?_, .nil⟩
      change scan ⟨[' '], .start file⟩ = _
      rw [scan_blank]
      have nothing : Piece.Separated [] := trivial
      exact scan_texts _ nothing
  | cons first rest =>
      have text := toList_spelled (finished_ne_nil (List.cons_ne_nil first rest))
      rw [← texts_respelling] at text
      refine ⟨_, ?_, placed_respelling (first :: rest) (.start file)⟩
      rw [scanSource, Source.Cursor.ofSource, text]
      exact scan_texts _ (separated_respelling scanned)

/-- The tokens of a source, written with a blank behind each, are tokenized to the same tokens
apart from their spans.  So their texts determine them; and none of them makes a pair with
the next one. -/
theorem tokenize_spelled
    {source file : String} {tokens : List Token}
    (tokenized : tokenize source file = .ok tokens) :
    (∀ place, ∃ again, tokenize (spelled tokens) place = .ok again ∧
      again.map unplaced = tokens.map unplaced) ∧
    (∀ otherSource otherFile others, tokenize otherSource otherFile = .ok others ->
      others.map value = tokens.map value -> others.map unplaced = tokens.map unplaced) ∧
    joinPairs tokens = tokens := by
  have respelled : ∀ {source file : String} {tokens : List Token},
      tokenize source file = .ok tokens -> ∀ place, ∃ again,
        tokenize (spelled tokens) place = .ok again ∧
          again.map unplaced = tokens.map unplaced := by
    intro source file tokens tokenized place
    obtain ⟨scanned, scans, result⟩ := (bind_eq_ok_iff _ _ _).mp tokenized
    cases result
    obtain ⟨again, scansAgain, alike⟩ :=
      exists_scanSource_spelled (isWord_or_isPunctuation_of_scan scans) place
    exact ⟨finished again, tokenize_of_scanSource scansAgain,
      map_unplaced_of_alike (finished_twin alike)⟩
  refine ⟨respelled tokenized, ?_, ?_⟩
  · intro otherSource otherFile others othersTokenized sameValues
    obtain ⟨again, tokenizedAgain, same⟩ := respelled tokenized file
    obtain ⟨otherAgain, othersTokenizedAgain, otherSame⟩ := respelled othersTokenized file
    -- Tokens with the same texts are written alike, so that both come back from one text.
    have sameText : spelled others = spelled tokens := by rw [spelled, spelled, sameValues]
    rw [sameText, tokenizedAgain] at othersTokenizedAgain
    cases othersTokenizedAgain
    rw [← same, ← otherSame]
  · obtain ⟨scanned, _, result⟩ := (bind_eq_ok_iff _ _ _).mp tokenized
    cases result
    exact joinPairs_of_parted (parted_bindOperators (parted_joinPairs scanned))

/-- Equals signs in a row, some of which make pairs with what stands before them, and slashes that
make no comment. -/
theorem tokenize_spelled_of_signs :
    ∃ tokens again, tokenize "a = = =! = = / / // rest\n1.50;" "" = .ok tokens ∧
      tokens.map value = ["a", "==", "=", "!=", "=", "/", "/", "1.50", ";"] ∧
      tokenize (spelled tokens) "" = .ok again ∧ again.map unplaced = tokens.map unplaced ∧
      joinPairs tokens = tokens := by
  have succeeds : ((tokenize "a = = =! = = / / // rest\n1.50;" "").toOption.map fun tokens =>
      decide (tokens.map value = ["a", "==", "=", "!=", "=", "/", "/", "1.50", ";"])) =
      some true := by decide +kernel
  cases tokenized : tokenize "a = = =! = = / / // rest\n1.50;" "" with
  | error diagnostic =>
      rw [tokenized] at succeeds
      cases succeeds
  | ok tokens =>
      rw [tokenized] at succeeds
      obtain ⟨respelled, _, noPairs⟩ := tokenize_spelled tokenized
      obtain ⟨again, tokenizedAgain, same⟩ := respelled ""
      exact ⟨tokens, again, rfl, of_decide_eq_true (Option.some.inj succeeds), tokenizedAgain,
        same, noPairs⟩

end Token
end ScriptLang
