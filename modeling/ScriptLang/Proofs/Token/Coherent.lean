import ScriptLang.Proofs.Running
import ScriptLang.Token.Tokenize

/-!
# Coherent tokens

A token is coherent when its payload is the one that its kind calls for.  The
main statement says that all tokens of a source are coherent: words carry the
leaves that they are classified as, operators their bindings, and all other
tokens nothing.
-/

namespace ScriptLang
namespace Token

open Source (Cursor Position Span)

/-- A token carries what its kind calls for. -/
def Coherent (token : Token) : Prop :=
  match token.kind with
  | .identifier => token.payload = .leaf (.identifier token.value)
  | .literal => ∃ value, token.payload = .leaf (.literal value)
  | .typeKeyword => ∃ ty, token.payload = .leaf (.typeKeyword ty)
  | kind =>
      match kind.binding? with
      | some binding => token.payload = .operator binding
      | none => token.payload = .empty

/-- The token of a name. -/
def ofName (name : String) (start : Position) : Token :=
  ⟨.identifier, name, .onLine start name.length, .leaf (.identifier name)⟩

/-- The token of a kind that is no word, with the binding of the kind if it is an operator. -/
def ofSymbol (kind : TokenKind) (text : String) (start : Position) : Token :=
  withBinding ⟨kind, text, .onLine start text.length, .empty⟩

/-- A token that a word was classified as, where no character of the word ends a word. -/
structure IsWord (token : Token) : Prop where
  classified : classifyWord token.value = .ok (token.kind, token.payload)
  nonempty : token.value.toList ≠ []
  undelimited : ∀ character ∈ token.value.toList, isDelimiter character = false

/-- Whether a token is a word can be computed. -/
theorem IsWord.of_all
    {token : Token}
    (classified : classifyWord token.value = .ok (token.kind, token.payload))
    (nonempty : token.value.toList ≠ [])
    (undelimited : (token.value.toList.all fun character => !isDelimiter character) = true) :
    token.IsWord := by
  refine ⟨classified, nonempty, ?_⟩
  intro character inWord
  have continues := List.all_eq_true.mp undelimited character inWord
  rw [Bool.not_eq_true'] at continues
  exact continues

/-- A token of a single character of punctuation. -/
def IsPunctuation (token : Token) : Prop :=
  token.payload = .empty ∧
    ∃ character, punctuation? character = some token.kind ∧ token.value = character.toString

/-- Everything that a word can be classified as. -/
theorem classifyWord_eq_ok
    {word : String} {kind : TokenKind} {payload : Payload}
    (classified : classifyWord word = .ok (kind, payload)) :
    (kind = .identifier ∧ payload = .leaf (.identifier word)) ∨
    (kind = .literal ∧ ∃ value, payload = .leaf (.literal value)) ∨
    (kind = .typeKeyword ∧ ∃ ty, payload = .leaf (.typeKeyword ty)) ∨
    (kind ∈ [.declaration, .standardInput, .standardOutput] ∧ payload = .empty) := by
  have reservedCase : ∀ result, reserved? word = some result ->
      (result.1 = .literal ∧ ∃ value, result.2 = .leaf (.literal value)) ∨
      (result.1 = .typeKeyword ∧ ∃ ty, result.2 = .leaf (.typeKeyword ty)) ∨
      (result.1 ∈ [.declaration, .standardInput, .standardOutput] ∧ result.2 = .empty) := by
    intro result isReserved
    unfold reserved? at isReserved
    split at isReserved <;> cases isReserved <;> simp
  unfold classifyWord at classified
  split at classified
  · next result isReserved =>
      cases classified
      exact .inr (reservedCase _ isReserved)
  · dsimp only at classified
    split at classified
    · next decimal _ =>
        split at classified
        · cases classified
          exact .inr (.inl ⟨rfl, _, rfl⟩)
        · cases classified
    · split at classified
      · split at classified
        · cases classified
          exact .inr (.inl ⟨rfl, _, rfl⟩)
        · cases classified
      · split at classified
        · cases classified
          exact .inl ⟨rfl, rfl⟩
        · cases classified

/-- A word makes a token of what it is classified as. -/
theorem ofWord_eq_ok
    {word : String} {span : Span} {token : Token}
    (made : ofWord word span = .ok token) :
    classifyWord word = .ok (token.kind, token.payload) ∧
      token.value = word ∧ token.span = span := by
  unfold ofWord at made
  split at made
  · next kind payload classified =>
      cases made
      exact ⟨classified, rfl, rfl⟩
  · cases made

theorem kind_of_punctuation?
    {character : Char} {kind : TokenKind}
    (isPunctuation : punctuation? character = some kind) :
    kind ∉ [.identifier, .literal, .typeKeyword] := by
  unfold punctuation? at isPunctuation
  split at isPunctuation <;> cases isPunctuation <;> decide

/-- Every token that is scanned is a word or a character of punctuation. -/
theorem isWord_or_isPunctuation_of_scan
    {cursor : Cursor} {tokens : List Token}
    (scanned : scan cursor = .ok tokens) :
    ∀ token ∈ tokens, token.IsWord ∨ token.IsPunctuation := by
  fun_induction scan cursor generalizing tokens with
  | case1 position =>
      cases scanned
      simp
  | case2 current following position isBlank inductionHypothesis =>
      exact inductionHypothesis scanned
  | case3 current following position notBlank isPair inductionHypothesis =>
      exact inductionHypothesis scanned
  | case4 current following position notBlank notPair isBreak inductionHypothesis =>
      exact inductionHypothesis scanned
  | case5 => cases scanned
  | case6 current following position notBlank notPair notBreak isComment comment found
      inductionHypothesis =>
      exact inductionHypothesis scanned
  | case7 current following position notBlank notPair notBreak notComment kind isPunctuation
      inductionHypothesis =>
      obtain ⟨others, othersScanned, result⟩ := (bind_eq_ok_iff _ _ _).mp scanned
      cases result
      intro token member
      rcases List.mem_cons.mp member with rfl | member
      · exact .inr ⟨rfl, current, isPunctuation, rfl⟩
      · exact inductionHypothesis othersScanned token member
  | case8 => cases scanned
  | case9 current following position notBlank notPair notBreak notComment notPunctuation tail
      found word =>
      rename_i inductionHypothesis
      obtain ⟨first, firstRead, rest⟩ := (bind_eq_ok_iff _ _ _).mp scanned
      obtain ⟨others, othersScanned, result⟩ := (bind_eq_ok_iff _ _ _).mp rest
      cases result
      intro token member
      rcases List.mem_cons.mp member with rfl | member
      · obtain ⟨classified, value, _⟩ := ofWord_eq_ok firstRead
        obtain ⟨tailUndelimited, _⟩ := (before?_eq_some_iff _ _ _).mp found
        have currentUndelimited : isDelimiter current = false := by
          simp [isDelimiter, notBlank, notBreak, notPunctuation]
        refine .inl ⟨by rw [value]; exact classified, ?_, ?_⟩
        · simp [value, word]
        · rw [value, String.toList_ofList]
          intro character inWord
          rcases List.mem_cons.mp inWord with rfl | inTail
          · exact currentUndelimited
          · exact tailUndelimited character inTail
      · exact inductionHypothesis othersScanned token member

/-- The tokens before operators get their bindings: a leaf for words that have one, and nothing
for all others. -/
def Unbound (token : Token) : Prop :=
  match token.kind with
  | .identifier => token.payload = .leaf (.identifier token.value)
  | .literal => ∃ value, token.payload = .leaf (.literal value)
  | .typeKeyword => ∃ ty, token.payload = .leaf (.typeKeyword ty)
  | _ => token.payload = .empty

theorem IsWord.unbound
    {token : Token}
    (isWord : token.IsWord) :
    token.Unbound := by
  rcases classifyWord_eq_ok isWord.classified with
    ⟨kind, payload⟩ | ⟨kind, payload⟩ | ⟨kind, payload⟩ | ⟨kinds, payload⟩
  · simpa [Unbound, kind] using payload
  · simpa [Unbound, kind] using payload
  · simpa [Unbound, kind] using payload
  · simp only [List.mem_cons, List.not_mem_nil, or_false] at kinds
    rcases kinds with kind | kind | kind <;> simpa [Unbound, kind] using payload

theorem IsPunctuation.unbound
    {token : Token}
    (isPunctuation : token.IsPunctuation) :
    token.Unbound := by
  obtain ⟨payload, character, found, _⟩ := isPunctuation
  have notWord := kind_of_punctuation? found
  unfold Unbound
  split
  · next kind => simp [kind] at notWord
  · next kind => simp [kind] at notWord
  · next kind => simp [kind] at notWord
  · exact payload

theorem unbound_join
    {kind first second : TokenKind} (left right : Token)
    (joined : TokenKind.joined? first second = some kind) :
    (join kind left right).Unbound := by
  unfold TokenKind.joined? at joined
  split at joined <;> cases joined <;> rfl

/-- A token is one of the given tokens, or two of them make it. -/
inductive MadeFrom (tokens : List Token) : Token -> Prop
  | kept {token : Token} (member : token ∈ tokens) : MadeFrom tokens token
  | joined {first second : Token} {kind : TokenKind}
      (isFirst : first ∈ tokens)
      (isSecond : second ∈ tokens)
      (joined : TokenKind.joined? first.kind second.kind = some kind) :
      MadeFrom tokens (join kind first second)

theorem MadeFrom.mono
    {tokens others : List Token} {token : Token}
    (subset : tokens ⊆ others)
    (made : MadeFrom tokens token) :
    MadeFrom others token := by
  cases made with
  | kept member => exact .kept (subset member)
  | joined isFirst isSecond joined => exact .joined (subset isFirst) (subset isSecond) joined

/-- Joining pairs keeps tokens or makes one of two. -/
theorem madeFrom_of_mem_joinPairs
    {tokens : List Token} {token : Token}
    (member : token ∈ joinPairs tokens) :
    MadeFrom tokens token := by
  fun_induction joinPairs tokens with
  | case1 first second rest kind joined inductionHypothesis =>
      rcases List.mem_cons.mp member with rfl | member
      · exact .joined (by simp) (by simp) joined
      · exact (inductionHypothesis member).mono (by simp)
  | case2 first second rest notJoined inductionHypothesis =>
      rcases List.mem_cons.mp member with rfl | member
      · exact .kept List.mem_cons_self
      · exact (inductionHypothesis member).mono (List.subset_cons_self ..)
  | case3 tokens notTwo => exact .kept member

/-- Joining pairs keeps the payloads that kinds call for. -/
theorem unbound_of_joinPairs
    {tokens : List Token}
    (unbound : ∀ token ∈ tokens, token.Unbound) :
    ∀ token ∈ joinPairs tokens, token.Unbound := by
  intro token member
  cases madeFrom_of_mem_joinPairs member with
  | kept isOld => exact unbound token isOld
  | joined _ _ joined => exact unbound_join _ _ joined

/-- Binding makes a token coherent. -/
theorem coherent_withBinding
    {token : Token}
    (unbound : token.Unbound) :
    token.withBinding.Coherent := by
  unfold Coherent
  rw [kind_withBinding, value_withBinding]
  unfold Unbound at unbound
  unfold withBinding
  cases kind : token.kind <;> simp_all [TokenKind.binding?]

theorem coherent_ofName (name : String) (start : Position) : (ofName name start).Coherent := rfl

theorem coherent_ofSymbol
    {kind : TokenKind}
    (text : String) (start : Position)
    (notWord : kind ∉ [.identifier, .literal, .typeKeyword]) :
    (ofSymbol kind text start).Coherent := by
  refine coherent_withBinding ?_
  unfold Unbound
  cases kind <;> simp at notWord <;> rfl

/-- All tokens of a source are coherent. -/
theorem coherent_of_tokenize
    {source file : String} {tokens : List Token}
    (tokenized : tokenize source file = .ok tokens) :
    ∀ token ∈ tokens, token.Coherent := by
  obtain ⟨scanned, scanning, result⟩ := (bind_eq_ok_iff _ _ _).mp tokenized
  cases result
  have unbound : ∀ token ∈ scanned, token.Unbound := by
    intro token member
    rcases isWord_or_isPunctuation_of_scan scanning token member with isWord | isPunctuation
    · exact isWord.unbound
    · exact isPunctuation.unbound
  intro token member
  obtain ⟨joined, inJoined, rfl⟩ := List.mem_map.mp member
  exact coherent_withBinding (unbound_of_joinPairs unbound joined inJoined)

end Token
end ScriptLang
