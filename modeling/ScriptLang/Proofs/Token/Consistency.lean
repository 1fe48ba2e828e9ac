import ScriptLang.Proofs.Token.Grouping
import ScriptLang.Proofs.Token.Words

/-!
# Consistent tokens

The kind, the text and the payload of a token go together.  Words carry what they are
classified as, operators the binding of their kind, and every other kind has one text
and carries nothing.  The main statement says that this holds of all tokens of a source,
so that the text of a token determines its kind and its payload, and these determine the
text again unless the token is a literal.
-/

namespace ScriptLang

namespace TokenKind

/-- The text of a kind that is no word. -/
def symbol? : TokenKind -> Option String
  | .openParenthesis => some "("
  | .closeParenthesis => some ")"
  | .equal => some "="
  | .equals => some "=="
  | .not => some "!"
  | .notEquals => some "!="
  | .less => some "<"
  | .lessEquals => some "<="
  | .greater => some ">"
  | .greaterEquals => some ">="
  | .or => some "|"
  | .and => some "&"
  | .semicolon => some ";"
  | .colon => some ":"
  | .plus => some "+"
  | .minus => some "-"
  | .asterisk => some "*"
  | .slash => some "/"
  | .tilde => some "~"
  | .identifier | .literal | .typeKeyword => none
  | .declaration | .standardInput | .standardOutput => none

/-- The symbol of a character of punctuation is this character. -/
theorem symbol?_of_punctuation?
    {character : Char} {kind : TokenKind}
    (isPunctuation : Token.punctuation? character = some kind) :
    kind.symbol? = some character.toString := by
  unfold Token.punctuation? at isPunctuation
  split at isPunctuation <;> cases isPunctuation <;> rfl

/-- The symbol of an operator that is joined has the symbols of its parts. -/
theorem symbol?_of_joined?
    {first second kind : TokenKind} {left right : String}
    (joined : joined? first second = some kind)
    (firstSymbol : first.symbol? = some left)
    (secondSymbol : second.symbol? = some right) :
    kind.symbol? = some (left ++ right) := by
  unfold joined? at joined
  split at joined <;> cases joined <;> cases firstSymbol <;> cases secondSymbol <;> rfl

/-- The parts of an operator that is joined are symbols. -/
theorem exists_symbol?_of_joined?
    {first second kind : TokenKind}
    (joined : joined? first second = some kind) :
    (∃ left, first.symbol? = some left) ∧ ∃ right, second.symbol? = some right := by
  unfold joined? at joined
  split at joined <;> cases joined <;> exact ⟨⟨_, rfl⟩, _, rfl⟩

/-- An operator has two operands or one, and its kind stands for such an operator. -/
theorem exists_operator_of_binding?
    {kind : TokenKind} {binding : Binding}
    (isOperator : kind.binding? = some binding) :
    binding.arity = 2 ∧ (∃ operator, kind.binaryOperator? = some operator) ∨
      binding.arity = 1 ∧ ∃ operator, kind.unaryOperator? = some operator := by
  cases kind <;> cases isOperator <;>
    first
      | exact .inl ⟨rfl, _, rfl⟩
      | exact .inr ⟨rfl, _, rfl⟩

/-- No two kinds have the same symbol. -/
theorem eq_of_symbol?_eq
    {first second : TokenKind} {text : String}
    (firstSymbol : first.symbol? = some text)
    (secondSymbol : second.symbol? = some text) :
    first = second := by
  have different : ∀ first ∈ all, ∀ second ∈ all, first.symbol?.isSome = true ->
      first.symbol? = second.symbol? -> first = second := by decide +kernel
  apply different first (mem_all first) second (mem_all second)
  · rw [firstSymbol, Option.isSome_some]
  · rw [firstSymbol, secondSymbol]

/-- A symbol starts with a character that ends words. -/
theorem exists_delimiter_of_symbol?
    {kind : TokenKind} {text : String}
    (isSymbol : kind.symbol? = some text) :
    ∃ character ∈ text.toList, Token.isDelimiter character = true := by
  cases kind <;> cases isSymbol <;> exact ⟨_, List.mem_cons_self, rfl⟩

end TokenKind

namespace Token

/-- The kind, the text and the payload of a token go together. -/
structure Consistent (token : Token) : Prop where
  /-- An operator carries the binding of its kind, and its kind stands for an operator of as many
  operands. -/
  operator : ∀ binding, token.kind.binding? = some binding ->
    token.payload = .operator binding ∧
      (binding.arity = 2 ∧ (∃ operator, token.kind.binaryOperator? = some operator) ∨
        binding.arity = 1 ∧ ∃ operator, token.kind.unaryOperator? = some operator)
  /-- A name carries its text. -/
  identifier : token.kind = .identifier -> token.payload = .leaf (.identifier token.value)
  /-- A literal carries a value, which is what its text is classified as. -/
  literal : token.kind = .literal -> (∃ value, token.payload = .leaf (.literal value)) ∧
    classifyWord token.value = .ok (token.kind, token.payload)
  /-- A type keyword carries a type, which is what its text is classified as. -/
  typeKeyword : token.kind = .typeKeyword -> (∃ ty, token.payload = .leaf (.typeKeyword ty)) ∧
    classifyWord token.value = .ok (token.kind, token.payload)
  /-- All other tokens carry nothing. -/
  empty : token.kind.binding? = none ->
    token.kind ∉ [.identifier, .literal, .typeKeyword] -> token.payload = .empty
  /-- The text of a character of punctuation, or of two that were joined, is the symbol of the
  kind. -/
  symbol : ∀ text, token.kind.symbol? = some text -> token.value = text

/-- A token as it is before operators get their bindings, whose text is the symbol of its kind. -/
structure IsSymbol (token : Token) : Prop where
  symbol : token.kind.symbol? = some token.value
  payload : token.payload = .empty

theorem IsPunctuation.isSymbol
    {token : Token}
    (isPunctuation : token.IsPunctuation) :
    token.IsSymbol := by
  obtain ⟨payload, character, found, value⟩ := isPunctuation
  refine ⟨?_, payload⟩
  rw [value]
  exact TokenKind.symbol?_of_punctuation? found

/-- The kind of a word has no symbol. -/
theorem IsWord.symbol?_eq_none
    {token : Token}
    (isWord : token.IsWord) :
    token.kind.symbol? = none := by
  have member := isWord.kind_mem
  revert member
  cases token.kind <;> decide

theorem IsWord.binding?_eq_none
    {token : Token}
    (isWord : token.IsWord) :
    token.kind.binding? = none := by
  have member := isWord.kind_mem
  revert member
  cases token.kind <;> decide

/-- Words get no binding. -/
theorem IsWord.withBinding_eq
    {token : Token}
    (isWord : token.IsWord) :
    token.withBinding = token := by
  rw [withBinding, isWord.binding?_eq_none]

/-- Two symbols are joined to a symbol. -/
theorem IsSymbol.join
    {first second : Token} {kind : TokenKind}
    (joined : TokenKind.joined? first.kind second.kind = some kind)
    (firstIsSymbol : first.IsSymbol)
    (secondIsSymbol : second.IsSymbol) :
    (join kind first second).IsSymbol where
  symbol := TokenKind.symbol?_of_joined? joined firstIsSymbol.symbol secondIsSymbol.symbol
  payload := rfl

/-- Behind the second pass, all tokens are words and symbols. -/
theorem isWord_or_isSymbol_of_joinPairs
    {scanned : List Token}
    (wordsAndSymbols : ∀ token ∈ scanned, token.IsWord ∨ token.IsSymbol) :
    ∀ token ∈ joinPairs scanned, token.IsWord ∨ token.IsSymbol := by
  intro token member
  cases madeFrom_of_mem_joinPairs member with
  | kept isOld => exact wordsAndSymbols token isOld
  | joined isFirst isSecond joined =>
      obtain ⟨⟨left, leftSymbol⟩, right, rightSymbol⟩ :=
        TokenKind.exists_symbol?_of_joined? joined
      -- No word is a part of a pair, because it is no symbol.
      have isSymbol : ∀ {part : Token} {text : String}, part ∈ scanned ->
          part.kind.symbol? = some text -> part.IsSymbol := by
        intro part text isPart partSymbol
        refine (wordsAndSymbols part isPart).resolve_left fun isWord => ?_
        rw [isWord.symbol?_eq_none] at partSymbol
        cases partSymbol
      exact .inr (.join joined (isSymbol isFirst leftSymbol) (isSymbol isSecond rightSymbol))

/-- Every token of a source is a word or a symbol with the binding of its kind. -/
theorem exists_of_tokenize
    {source file : String} {tokens : List Token}
    (tokenized : tokenize source file = .ok tokens) :
    ∀ token ∈ tokens, ∃ plain : Token,
      (plain.IsWord ∨ plain.IsSymbol) ∧ token = plain.withBinding := by
  obtain ⟨scanned, scans, result⟩ := (bind_eq_ok_iff _ _ _).mp tokenized
  cases result
  intro token member
  obtain ⟨plain, isPlain, rfl⟩ := List.mem_map.mp member
  refine ⟨plain, isWord_or_isSymbol_of_joinPairs ?_ plain isPlain, rfl⟩
  intro other isOther
  exact (isWord_or_isPunctuation_of_scan scans other isOther).imp_right IsPunctuation.isSymbol

/-! ## What goes together -/

/-- A word goes together with what it is classified as. -/
theorem IsWord.consistent
    {token : Token}
    (isWord : token.IsWord) :
    token.Consistent where
  operator binding isOperator := by
    rw [isWord.binding?_eq_none] at isOperator
    cases isOperator
  identifier kind := by simpa [Unbound, kind] using isWord.unbound
  literal kind := ⟨by simpa [Unbound, kind] using isWord.unbound, isWord.classified⟩
  typeKeyword kind := ⟨by simpa [Unbound, kind] using isWord.unbound, isWord.classified⟩
  empty _ noLeaf := by
    rcases classifyWord_eq_ok isWord.classified with
      ⟨kind, _⟩ | ⟨kind, _⟩ | ⟨kind, _⟩ | ⟨_, payload⟩
    · simp [kind] at noLeaf
    · simp [kind] at noLeaf
    · simp [kind] at noLeaf
    · exact payload
  symbol text isText := by
    rw [isWord.symbol?_eq_none] at isText
    cases isText

/-- A symbol goes together with the binding of its kind. -/
theorem IsSymbol.consistent_withBinding
    {token : Token}
    (isSymbol : token.IsSymbol) :
    token.withBinding.Consistent := by
  have notWord : ∀ kind : TokenKind, kind.symbol? = none -> token.withBinding.kind ≠ kind := by
    rintro _ isWord rfl
    rw [kind_withBinding, isSymbol.symbol] at isWord
    cases isWord
  exact {
    operator := by
      intro binding isOperator
      refine ⟨?_, TokenKind.exists_operator_of_binding? isOperator⟩
      rw [kind_withBinding] at isOperator
      rw [withBinding, isOperator]
    identifier := fun kind => absurd kind (notWord _ rfl)
    literal := fun kind => absurd kind (notWord _ rfl)
    typeKeyword := fun kind => absurd kind (notWord _ rfl)
    empty := by
      intro noOperator _
      rw [kind_withBinding] at noOperator
      rw [withBinding, noOperator]
      exact isSymbol.payload
    symbol := by
      intro text isText
      rw [kind_withBinding, isSymbol.symbol] at isText
      rw [value_withBinding]
      exact Option.some.inj isText }

/-- No word is written like a symbol, because a symbol has a character that ends words. -/
theorem IsWord.value_ne
    {word symbol : Token}
    (isWord : word.IsWord)
    (isSymbol : symbol.IsSymbol) :
    word.value ≠ symbol.value := by
  intro same
  obtain ⟨character, inText, isDelimiter⟩ :=
    TokenKind.exists_delimiter_of_symbol? isSymbol.symbol
  rw [← same] at inText
  rw [isWord.undelimited character inText] at isDelimiter
  cases isDelimiter

section

variable {first second : Token}

/-- The binding that a token gets depends on its kind only. -/
theorem payload_withBinding_congr
    (sameKind : first.kind = second.kind)
    (samePayload : first.payload = second.payload) :
    first.withBinding.payload = second.withBinding.payload := by
  unfold withBinding
  rw [sameKind]
  split
  · rfl
  · exact samePayload

/-- The text of a token determines its kind and its payload. -/
theorem kind_eq_and_payload_eq_of_value_eq
    (isFirst : first.IsWord ∨ first.IsSymbol)
    (isSecond : second.IsWord ∨ second.IsSymbol)
    (sameValue : first.value = second.value) :
    first.kind = second.kind ∧ first.payload = second.payload := by
  rcases isFirst with firstIsWord | firstIsSymbol <;>
    rcases isSecond with secondIsWord | secondIsSymbol
  · have same := firstIsWord.classified
    rw [sameValue, secondIsWord.classified, Except.ok.injEq, Prod.mk.injEq] at same
    exact ⟨same.1.symm, same.2.symm⟩
  · exact absurd sameValue (firstIsWord.value_ne secondIsSymbol)
  · exact absurd sameValue.symm (secondIsWord.value_ne firstIsSymbol)
  · have firstSymbol := firstIsSymbol.symbol
    rw [sameValue] at firstSymbol
    exact ⟨TokenKind.eq_of_symbol?_eq firstSymbol secondIsSymbol.symbol,
      firstIsSymbol.payload.trans secondIsSymbol.payload.symm⟩

/-- A word that is no literal is a keyword or a name. -/
theorem IsWord.listed_or_payload_eq
    (isWord : first.IsWord)
    (noLiteral : first.kind ≠ .literal) :
    (first.value, first.kind, first.payload) ∈ keywords ∨
      first.kind = .identifier ∧ first.payload = .leaf (.identifier first.value) := by
  obtain ⟨meaning, means, kind, payload⟩ := exists_means_of_classifyWord isWord.classified
  cases means with
  | keyword listed =>
      rw [kind, payload]
      exact .inl listed
  | float text wholeDigits fractionDigits rounds => exact absurd kind noLiteral
  | integer digits inRange exact => exact absurd kind noLiteral
  | name text isLetter continues notListed => exact .inr ⟨kind, payload⟩

/-- A keyword is determined by its kind and its payload. -/
theorem eq_of_mem_keywords
    {text other : String} {kind : TokenKind} {payload : Payload}
    (listed : (text, kind, payload) ∈ keywords)
    (otherListed : (other, kind, payload) ∈ keywords) :
    text = other := by
  have different : ∀ left ∈ keywords, ∀ right ∈ keywords, left.2 = right.2 -> left.1 = right.1 := by
    decide
  exact different _ listed _ otherListed rfl

/-- A keyword is no name. -/
theorem kind_ne_identifier_of_mem_keywords
    {text : String} {kind : TokenKind} {payload : Payload}
    (listed : (text, kind, payload) ∈ keywords) :
    kind ≠ .identifier := by
  have noName : ∀ keyword ∈ keywords, keyword.2.1 ≠ .identifier := by decide
  exact noName _ listed

/-- Words of the same kind that carry the same have the same text, unless they are literals. -/
theorem IsWord.value_eq_of_kind_eq
    (firstIsWord : first.IsWord)
    (secondIsWord : second.IsWord)
    (sameKind : first.kind = second.kind)
    (samePayload : first.payload = second.payload)
    (noLiteral : first.kind ≠ .literal) :
    first.value = second.value := by
  have secondNoLiteral : second.kind ≠ .literal := by
    rw [← sameKind]
    exact noLiteral
  rcases firstIsWord.listed_or_payload_eq noLiteral with firstListed | ⟨firstKind, firstPayload⟩ <;>
    rcases secondIsWord.listed_or_payload_eq secondNoLiteral with
      secondListed | ⟨secondKind, secondPayload⟩
  · rw [sameKind, samePayload] at firstListed
    exact eq_of_mem_keywords firstListed secondListed
  · exact absurd (sameKind.trans secondKind) (kind_ne_identifier_of_mem_keywords firstListed)
  · exact absurd (sameKind.symm.trans firstKind) (kind_ne_identifier_of_mem_keywords secondListed)
  · rw [firstPayload, secondPayload, Payload.leaf.injEq, Leaf.identifier.injEq] at samePayload
    exact samePayload

/-- The kind and the payload of a token that is no literal determine its text. -/
theorem value_eq_of_kind_eq_and_payload_eq
    (isFirst : first.IsWord ∨ first.IsSymbol)
    (isSecond : second.IsWord ∨ second.IsSymbol)
    (sameKind : first.kind = second.kind)
    (samePayload : first.withBinding.payload = second.withBinding.payload)
    (noLiteral : first.kind ≠ .literal) :
    first.value = second.value := by
  -- The kind alone tells words from symbols, and tells the text of a symbol.
  rcases isFirst with firstIsWord | firstIsSymbol <;>
    rcases isSecond with secondIsWord | secondIsSymbol
  · rw [firstIsWord.withBinding_eq, secondIsWord.withBinding_eq] at samePayload
    exact firstIsWord.value_eq_of_kind_eq secondIsWord sameKind samePayload noLiteral
  · have noSymbol := firstIsWord.symbol?_eq_none
    rw [sameKind, secondIsSymbol.symbol] at noSymbol
    cases noSymbol
  · have noSymbol := secondIsWord.symbol?_eq_none
    rw [← sameKind, firstIsSymbol.symbol] at noSymbol
    cases noSymbol
  · have sameSymbol := firstIsSymbol.symbol
    rw [sameKind, secondIsSymbol.symbol] at sameSymbol
    exact (Option.some.inj sameSymbol).symm

end

/-- A source whose tokens have computed texts has tokens. -/
theorem exists_of_map_value
    {source file : String} {values : List String}
    (computed : (tokenize source file).toOption.map (fun tokens => tokens.map value) =
      some values) :
    ∃ tokens, tokenize source file = .ok tokens ∧ tokens.map value = values := by
  cases tokenized : tokenize source file with
  | error diagnostic =>
      rw [tokenized] at computed
      cases computed
  | ok tokens =>
      rw [tokenized] at computed
      exact ⟨tokens, rfl, Option.some.inj computed⟩

/-- The tokens of a source are consistent.  Tokens with the same text, also of different sources,
have the same kind and the same payload, and tokens with the same kind and the same payload have
the same text, unless they are literals, of which several may have the same value. -/
theorem consistent_of_tokenize
    {source file : String} {tokens : List Token}
    (tokenized : tokenize source file = .ok tokens) :
    (∀ token ∈ tokens, token.Consistent) ∧
    ∀ otherSource otherFile others, tokenize otherSource otherFile = .ok others ->
      ∀ first ∈ tokens, ∀ second ∈ others,
        (first.value = second.value ->
          first.kind = second.kind ∧ first.payload = second.payload) ∧
        (first.kind = second.kind -> first.payload = second.payload ->
          first.kind ≠ .literal -> first.value = second.value) := by
  constructor
  · intro token member
    obtain ⟨plain, isWord | isSymbol, rfl⟩ := exists_of_tokenize tokenized token member
    · rw [isWord.withBinding_eq]
      exact isWord.consistent
    · exact isSymbol.consistent_withBinding
  · intro otherSource otherFile others othersTokenized first isFirst second isSecond
    obtain ⟨plain, isPlain, rfl⟩ := exists_of_tokenize tokenized first isFirst
    obtain ⟨other, isOther, rfl⟩ := exists_of_tokenize othersTokenized second isSecond
    simp only [kind_withBinding, value_withBinding]
    refine ⟨fun sameValue => ?_, value_eq_of_kind_eq_and_payload_eq isPlain isOther⟩
    obtain ⟨sameKind, samePayload⟩ :=
      kind_eq_and_payload_eq_of_value_eq isPlain isOther sameValue
    exact ⟨sameKind, payload_withBinding_congr sameKind samePayload⟩

/-- A source with words of all sorts and operators of one and of two characters, and another one
where a number is written in another way. -/
theorem consistent_of_split_operator :
    ∃ tokens others,
      tokenize "declare a_1: int = ~(7 < = 2.50) & !true;" "" = .ok tokens ∧
      tokenize "a_1 <= 007;" "" = .ok others ∧
      tokens.map value = ["declare", "a_1", ":", "int", "=", "~", "(", "7", "<=", "2.50", ")",
        "&", "!", "true", ";"] ∧
      others.map value = ["a_1", "<=", "007", ";"] ∧
      (∀ token ∈ tokens, token.Consistent) ∧
      ∀ first ∈ tokens, ∀ second ∈ others,
        (first.value = second.value ->
          first.kind = second.kind ∧ first.payload = second.payload) ∧
        (first.kind = second.kind -> first.payload = second.payload ->
          first.kind ≠ .literal -> first.value = second.value) := by
  have computed : (tokenize "declare a_1: int = ~(7 < = 2.50) & !true;" "").toOption.map
      (fun tokens => tokens.map value) = some ["declare", "a_1", ":", "int", "=", "~", "(", "7",
        "<=", "2.50", ")", "&", "!", "true", ";"] := by decide +kernel
  have othersComputed : (tokenize "a_1 <= 007;" "").toOption.map
      (fun tokens => tokens.map value) = some ["a_1", "<=", "007", ";"] := by decide +kernel
  obtain ⟨tokens, tokenized, values⟩ := exists_of_map_value computed
  obtain ⟨others, othersTokenized, otherValues⟩ := exists_of_map_value othersComputed
  obtain ⟨consistent, determined⟩ := consistent_of_tokenize tokenized
  exact ⟨tokens, others, tokenized, othersTokenized, values, otherValues, consistent,
    determined _ _ others othersTokenized⟩

end Token
end ScriptLang
