import ScriptLang.Diagnostic.Render
import ScriptLang.Proofs.Source.Bytes
import ScriptLang.Proofs.Token.Joining
import ScriptLang.Proofs.Token.Laid

/-!
# Spans of tokens

The spans of the tokens of a source lead back to their texts: the line that a
diagnostic shows for the start of a token has the text of the token between the
columns of its span.  The spans follow each other, and all that they leave out is
layout.  An operator that is joined from two characters reaches from the first of
them to an equals sign, with layout between both.
-/

namespace ScriptLang

open Source (Position Uncut lines placeBehind)

namespace TokenKind

/-- A kind of operators that are joined from two characters. -/
def IsJoined (kind : TokenKind) : Prop := ∃ first second, joined? first second = some kind

theorem second_of_joined?
    {first second kind : TokenKind}
    (joined : joined? first second = some kind) :
    second = .equal := by
  by_contra notEqual
  rw [joined?_eq_none_of_second first notEqual] at joined
  cases joined

theorem mem_of_isJoined
    {kind : TokenKind}
    (isJoined : kind.IsJoined) :
    kind ∈ [.equals, .lessEquals, .greaterEquals, .notEquals] := by
  obtain ⟨first, second, joined⟩ := isJoined
  unfold joined? at joined
  split at joined <;> cases joined <;> decide

end TokenKind

namespace Token

section

variable {file : String} {covers : Token -> List Char -> Prop}
variable {before rest : List Char} {tokens : List Token}

/-- The text of every token stands at the span of the token. -/
theorem Laid.exists_text
    (laid : Laid file covers before rest tokens) :
    ∀ token ∈ tokens, ∃ front text after, before ++ rest = front ++ (text ++ after) ∧
      covers token text ∧ StartsWritten text ∧
        token.span = ⟨placeBehind file front, placeBehind file (front ++ text)⟩ := by
  induction laid with
  | nil before isLayout => exact List.forall_mem_nil _
  | @cons before gap text rest token tokens isLayout covered starts spans laid
      inductionHypothesis =>
      refine List.forall_mem_cons.mpr ⟨?_, ?_⟩
      · exact ⟨before ++ gap, text, rest, (List.append_assoc ..).symm, covered, starts, spans⟩
      · intro other member
        obtain ⟨front, otherText, after, isPart, found⟩ := inductionHypothesis other member
        refine ⟨front, otherText, after, ?_, found⟩
        rw [← isPart]
        simp

/-- Nothing starts in front of the place where the tokens are laid. -/
theorem Laid.not_before
    (laid : Laid file covers before rest tokens) :
    ∀ token ∈ tokens, ¬ token.span.start.Before (placeBehind file before) := by
  induction laid with
  | nil before isLayout => exact List.forall_mem_nil _
  | @cons before gap text rest token tokens isLayout covered starts spans laid
      inductionHypothesis =>
      have gapBehind := Source.not_before_placeBehind_append file before gap
      have textBehind := Source.not_before_placeBehind_append file (before ++ gap) text
      refine List.forall_mem_cons.mpr ⟨?_, ?_⟩
      · rw [spans]
        exact gapBehind
      · intro other member
        exact Position.not_before_trans (Position.not_before_trans gapBehind textBehind)
          (inductionHypothesis other member)

end

/-- A text that does not start with a break ends behind its start. -/
theorem before_placeBehind_append
    {first : Char}
    (file : String) (before others : List Char)
    (unbroken : Source.isLineBreak first = false) :
    (placeBehind file before).Before (placeBehind file (before ++ first :: others)) := by
  have firstBehind : (placeBehind file before).Before (placeBehind file (before ++ [first])) := by
    rw [Source.placeBehind_append_of_unbroken file (List.forall_mem_singleton.mpr unbroken)]
    exact Position.before_right _ Nat.zero_lt_one
  have othersBehind := Source.not_before_placeBehind_append file (before ++ [first]) others
  rw [List.append_assoc, List.singleton_append] at othersBehind
  exact firstBehind.of_before_of_not_before othersBehind

/-- Tokens follow each other: none of them is empty, and none starts before the end of an earlier
one. -/
structure InOrder (tokens : List Token) : Prop where
  nonempty : ∀ token ∈ tokens, token.span.start.Before token.span.stop
  apart : tokens.Pairwise fun first second => ¬ second.span.start.Before first.span.stop

theorem Laid.inOrder
    {file : String} {covers : Token -> List Char -> Prop}
    {before rest : List Char} {tokens : List Token}
    (laid : Laid file covers before rest tokens) :
    InOrder tokens where
  nonempty := by
    intro token member
    obtain ⟨front, text, _, _, _, ⟨first, others, rfl, _, unbroken⟩, spans⟩ :=
      laid.exists_text token member
    rw [spans]
    exact before_placeBehind_append file front others unbroken
  apart := by
    induction laid with
    | nil before isLayout => exact .nil
    | cons isLayout covered starts spans laid inductionHypothesis =>
        refine .cons ?_ inductionHypothesis
        intro other member
        rw [spans]
        exact laid.not_before other member

/-! ## What spans leave out -/

/-- A place lies in the comment of its line. -/
def InComment (source : String) (place : Position) : Prop :=
  ∃ line, Diagnostic.lineAt? source place = some line ∧ isCommented line = true ∧
    (code line).length ≤ place.column

/-- A place lies in a span. -/
def InSpan (token : Token) (place : Position) : Prop :=
  ¬ place.Before token.span.start ∧ place.Before token.span.stop

/-- Every character of a source lies in the span of a token, or is a blank or a part of a line
break, or lies in a comment. -/
def Covers (source file : String) (tokens : List Token) : Prop :=
  ∀ before character after, source.toList = before ++ character :: after ->
    (∃ token ∈ tokens, token.InSpan (placeBehind file before)) ∨
      Source.isBlank character = true ∨ Source.isLineBreak character = true ∨
        InComment source (placeBehind file before)

/-- A character of two texts that are put together belongs to one of them. -/
theorem append_eq_append_cons
    {first second before after : List Char} {character : Char}
    (same : first ++ second = before ++ character :: after) :
    (∃ left, first = before ++ character :: left ∧ after = left ++ second) ∨
      ∃ passed, before = first ++ passed ∧ second = passed ++ character :: after := by
  rcases List.append_eq_append_iff.mp same with ⟨passed, rfl, rfl⟩ | ⟨left, rfl, behind⟩
  · exact .inr ⟨passed, rfl, rfl⟩
  · cases left with
    | nil => exact .inr ⟨[], by simp, behind.symm⟩
    | cons other left =>
        obtain ⟨rfl, rfl⟩ := List.cons.inj behind
        exact .inl ⟨left, rfl, rfl⟩

/-- A character belongs to a text of one line that starts with two slashes. -/
def IsCommentCharacter (before : List Char) (character : Char) (after : List Char) : Prop :=
  ∃ front passed left text behind, before = front ++ passed ∧ after = left ++ behind ∧
    passed ++ character :: left = '/' :: '/' :: text ∧
      ∀ other ∈ text, Source.isLineBreak other = false

section

variable {before after : List Char} {character : Char}

theorem IsCommentCharacter.append
    (inComment : IsCommentCharacter before character after)
    (earlier later : List Char) :
    IsCommentCharacter (earlier ++ before) character (after ++ later) := by
  obtain ⟨front, passed, left, text, behind, rfl, rfl, isText, unbroken⟩ := inComment
  exact ⟨earlier ++ front, passed, left, text, behind ++ later, (List.append_assoc ..).symm,
    List.append_assoc .., isText, unbroken⟩

theorem IsCommentCharacter.behind
    (inComment : IsCommentCharacter before character after)
    (earlier : List Char) :
    IsCommentCharacter (earlier ++ before) character after := by
  have whole := inComment.append earlier []
  rw [List.append_nil] at whole
  exact whole

/-- A character of layout is a blank or a part of a line break, or belongs to a comment. -/
theorem IsLayout.cases_character
    {gap : List Char}
    (isLayout : IsLayout gap)
    (isPart : gap = before ++ character :: after) :
    Source.isBlank character = true ∨ Source.isLineBreak character = true ∨
      IsCommentCharacter before character after := by
  induction isLayout generalizing before with
  | nil => simp at isPart
  | @blank first rest isBlank isLayout inductionHypothesis =>
      cases before with
      | nil =>
          obtain ⟨rfl, _⟩ := List.cons.inj isPart
          exact .inl isBlank
      | cons other before =>
          obtain ⟨rfl, restPart⟩ := List.cons.inj isPart
          exact (inductionHypothesis restPart).imp_right
            (Or.imp_right fun inComment => inComment.behind [first])
  | @lineBreak first rest isBreak isLayout inductionHypothesis =>
      cases before with
      | nil =>
          obtain ⟨rfl, _⟩ := List.cons.inj isPart
          exact .inr (.inl isBreak)
      | cons other before =>
          obtain ⟨rfl, restPart⟩ := List.cons.inj isPart
          exact (inductionHypothesis restPart).imp_right
            (Or.imp_right fun inComment => inComment.behind [first])
  | @comment text rest stop unbroken isStop isLayout inductionHypothesis =>
      have whole : ('/' :: '/' :: text) ++ stop :: rest = before ++ character :: after := isPart
      rcases append_eq_append_cons whole with ⟨left, isText, rfl⟩ | ⟨passed, rfl, restPart⟩
      · exact .inr (.inr ⟨[], before, left, text, _, rfl, rfl, isText.symm, unbroken⟩)
      · exact (inductionHypothesis restPart).imp_right
          (Or.imp_right fun inComment => inComment.behind ('/' :: '/' :: text))

/-- Two slashes end what is outside of a comment. -/
theorem length_code_le (front rest : List Char) :
    (code (front ++ '/' :: '/' :: rest)).length ≤ front.length := by
  fun_induction code front with
  | case1 => rw [List.nil_append, code_comment]
  | case2 tail => simp
  | case3 first others noComment inductionHypothesis =>
      by_cases isComment : first = '/' ∧ (others ++ '/' :: '/' :: rest).head? = some '/'
      · obtain ⟨tail, isTail⟩ := List.head?_eq_some_iff.mp isComment.2
        rw [List.cons_append, isComment.1, isTail, code_comment]
        exact Nat.zero_le _
      · rw [List.cons_append, code_cons isComment]
        exact Nat.succ_le_succ inductionHypothesis

/-- The line of a character of a comment has a comment there. -/
theorem IsCommentCharacter.inComment
    {source : String}
    (inComment : IsCommentCharacter before character after)
    (file : String)
    (isSource : source.toList = before ++ character :: after) :
    InComment source (placeBehind file before) := by
  obtain ⟨front, passed, left, text, behind, rfl, rfl, isText, unbroken⟩ := inComment
  have wholeUnbroken : ∀ other ∈ '/' :: '/' :: text, Source.isLineBreak other = false :=
    List.forall_mem_cons.mpr ⟨rfl, List.forall_mem_cons.mpr ⟨rfl, unbroken⟩⟩
  have passedUnbroken : ∀ other ∈ passed, Source.isLineBreak other = false := by
    intro other member
    refine wholeUnbroken other ?_
    rw [← isText]
    exact List.mem_append_left _ member
  have again : source.toList = front ++ ('/' :: '/' :: text ++ behind) := by
    rw [isSource, ← isText]
    simp
  obtain ⟨head, others, cut⟩ := List.exists_cons_of_ne_nil (Source.lines_ne_nil behind)
  obtain ⟨last, isLine, column⟩ := Source.exists_line?_placeBehind file
    (Source.uncut_of_head front (by simp)) (lines_append wholeUnbroken cut)
  have codeBound := length_code_le last (text ++ head)
  rw [← again] at isLine
  rw [Source.placeBehind_append_of_unbroken file passedUnbroken]
  refine ⟨_, isLine, ?_, ?_⟩
  · rw [isCommented, decide_eq_true_iff]
    intro same
    have sameLength := congrArg List.length same
    simp only [List.cons_append, List.length_append, List.length_cons] at sameLength codeBound
    omega
  · change _ ≤ (placeBehind file front).column + passed.length
    rw [column]
    exact codeBound.trans (Nat.le_add_right _ _)

end

/-- Every character of the text of laid tokens lies in a span or is layout. -/
theorem Laid.cases_character
    {file : String} {covers : Token -> List Char -> Prop}
    {before rest : List Char} {tokens : List Token}
    {skipped after : List Char} {character : Char}
    (laid : Laid file covers before rest tokens)
    (isPart : rest = skipped ++ character :: after) :
    (∃ token ∈ tokens, token.InSpan (placeBehind file (before ++ skipped))) ∨
      Source.isBlank character = true ∨ Source.isLineBreak character = true ∨
        IsCommentCharacter skipped character after := by
  induction laid generalizing skipped with
  | nil before isLayout => exact .inr (isLayout.cases_character isPart)
  | @cons before gap text rest token tokens isLayout covered starts spans laid
      inductionHypothesis =>
      rcases append_eq_append_cons isPart with ⟨left, isGap, rfl⟩ | ⟨passed, rfl, behindGap⟩
      · exact .inr ((isLayout.cases_character isGap).imp_right
          (Or.imp_right fun inComment => inComment.append [] _))
      rcases append_eq_append_cons behindGap with ⟨left, rfl, rfl⟩ | ⟨more, rfl, restPart⟩
      · cases isBreak : Source.isLineBreak character with
        | true => exact .inr (.inr (.inl rfl))
        | false =>
            refine .inl ⟨token, List.mem_cons_self, ?_⟩
            rw [InSpan, spans, ← List.append_assoc before, ← List.append_assoc (before ++ gap)]
            exact ⟨Source.not_before_placeBehind_append file (before ++ gap) passed,
              before_placeBehind_append file (before ++ gap ++ passed) left isBreak⟩
      · rcases inductionHypothesis restPart with ⟨other, member, inSpan⟩ | isLayoutCharacter
        · refine .inl ⟨other, List.mem_cons_of_mem _ member, ?_⟩
          rw [← List.append_assoc gap, ← List.append_assoc before, ← List.append_assoc before]
          exact inSpan
        · refine .inr (isLayoutCharacter.imp_right (Or.imp_right fun inComment => ?_))
          rw [← List.append_assoc gap]
          exact inComment.behind (gap ++ text)

/-- What the spans of laid tokens leave out is layout. -/
theorem Laid.covers
    {source file : String} {covers : Token -> List Char -> Prop} {tokens : List Token}
    (laid : Laid file covers [] source.toList tokens) :
    Covers source file tokens := by
  intro before character after isSource
  exact (laid.cases_character isSource).imp_right (Or.imp_right (Or.imp_right
    fun inComment => inComment.inComment file isSource))

/-! ## Joined operators -/

/-- The text of a token that was not joined, on one line. -/
def IsPlainTextOf (token : Token) (text : List Char) : Prop :=
  ¬ token.kind.IsJoined ∧ text = token.value.toList ∧
    ∀ character ∈ text, Source.isLineBreak character = false

/-- The text of an operator that was joined: its first character, layout and an equals sign. -/
def IsJoinedTextOf (token : Token) (text : List Char) : Prop :=
  ∃ first kind gap, text = first :: (gap ++ ['=']) ∧ IsLayout gap ∧
    punctuation? first = some kind ∧ TokenKind.joined? kind .equal = some token.kind ∧
      token.value.toList = [first, '=']

/-- No kind of words has a part in a pair. -/
theorem IsWord.kind_mem
    {token : Token}
    (isWord : token.IsWord) :
    token.kind ∈ [.identifier, .literal, .typeKeyword, .declaration, .standardInput,
      .standardOutput] := by
  rcases classifyWord_eq_ok isWord.classified with
    ⟨kind, _⟩ | ⟨kind, _⟩ | ⟨kind, _⟩ | ⟨kinds, _⟩
  · simp [kind]
  · simp [kind]
  · simp [kind]
  · exact List.mem_append_right [.identifier, .literal, .typeKeyword] kinds

theorem not_isJoined_of_punctuation?
    {character : Char} {kind : TokenKind}
    (isPunctuation : punctuation? character = some kind) :
    ¬ kind.IsJoined := by
  intro isJoined
  have member := TokenKind.mem_of_isJoined isJoined
  unfold punctuation? at isPunctuation
  split at isPunctuation <;> cases isPunctuation <;> simp at member

section

variable {token : Token} {text : List Char}

/-- A token that is scanned is not joined, and its text stands on one line. -/
theorem IsTextOf.isPlainTextOf
    (isText : IsTextOf token text) :
    IsPlainTextOf token text := by
  obtain ⟨isWord | ⟨_, character, isPunctuation, value⟩, rfl⟩ := isText
  · refine ⟨fun isJoined => ?_, rfl, unbroken_of_undelimited isWord.undelimited⟩
    have joinedKind := TokenKind.mem_of_isJoined isJoined
    have wordKind := isWord.kind_mem
    revert joinedKind wordKind
    cases token.kind <;> decide
  · refine ⟨not_isJoined_of_punctuation? isPunctuation, rfl, ?_⟩
    have one : token.value.toList = [character] := by
      rw [value]
      exact String.toList_singleton character
    rw [one]
    exact List.forall_mem_singleton.mpr (not_layout_of_punctuation? isPunctuation).2

/-- A token that is not the token of a word is a character of punctuation. -/
theorem IsTextOf.exists_character
    (isText : IsTextOf token text)
    (isPart : token.kind ∈ [.equal, .less, .greater, .not]) :
    ∃ character, punctuation? character = some token.kind ∧ text = [character] := by
  obtain ⟨isWord | ⟨_, character, isPunctuation, value⟩, rfl⟩ := isText
  · exfalso
    have wordKind := isWord.kind_mem
    revert isPart wordKind
    cases token.kind <;> decide
  · refine ⟨character, isPunctuation, ?_⟩
    rw [value]
    exact String.toList_singleton character

end

theorem eq_of_punctuation?_eq_equal
    {character : Char}
    (isPunctuation : punctuation? character = some .equal) :
    character = '=' := by
  unfold punctuation? at isPunctuation
  split at isPunctuation <;> first | rfl | cases isPunctuation

/-- Two tokens that make a pair are laid as the operator that they make. -/
theorem isJoinedTextOf_join
    {first second : Token} {kind : TokenKind} {firstText secondText gap : List Char}
    (joined : TokenKind.joined? first.kind second.kind = some kind)
    (firstIsText : IsTextOf first firstText)
    (secondIsText : IsTextOf second secondText)
    (isLayout : IsLayout gap) :
    IsJoinedTextOf (join kind first second) (firstText ++ (gap ++ secondText)) := by
  have firstIsPart : first.kind ∈ [.equal, .less, .greater, .not] := by
    by_contra alone
    rw [TokenKind.joined?_eq_none_of_first second.kind alone] at joined
    cases joined
  have secondIsEqual := TokenKind.second_of_joined? joined
  obtain ⟨character, isPunctuation, rfl⟩ := firstIsText.exists_character firstIsPart
  obtain ⟨equal, isEqual, rfl⟩ := secondIsText.exists_character (by simp [secondIsEqual])
  rw [secondIsEqual] at joined isEqual
  obtain rfl := eq_of_punctuation?_eq_equal isEqual
  refine ⟨character, first.kind, gap, rfl, isLayout, isPunctuation, joined, ?_⟩
  rw [join, String.toList_append, ← firstIsText.2, ← secondIsText.2]
  rfl

/-- The text of a token behind all passes. -/
def IsFinishedTextOf (token : Token) (text : List Char) : Prop :=
  IsPlainTextOf token text ∨ IsJoinedTextOf token text

section

variable {file : String} {before rest : List Char} {tokens : List Token}

theorem Laid.map
    {covers covered : Token -> List Char -> Prop}
    (change : Token -> Token)
    (sameSpan : ∀ token, (change token).span = token.span)
    (covering : ∀ token text, covers token text -> covered (change token) text)
    (laid : Laid file covers before rest tokens) :
    Laid file covered before rest (tokens.map change) := by
  induction laid with
  | nil before isLayout => exact .nil before isLayout
  | cons isLayout isCovered starts spans laid inductionHypothesis =>
      exact .cons isLayout (covering _ _ isCovered) starts ((sameSpan _).trans spans)
        inductionHypothesis

/-- Joining keeps tokens laid in the text. -/
theorem Laid.joinPairs
    (laid : Laid file IsTextOf before rest tokens) :
    Laid file IsFinishedTextOf before rest (joinPairs tokens) := by
  fun_induction Token.joinPairs tokens generalizing before rest with
  | case1 first second others kind joined inductionHypothesis =>
      cases laid with
      | @cons _ gap text _ _ _ isLayout isText starts spans laid =>
          cases laid with
          | @cons _ between secondText others _ _ betweenIsLayout secondIsText secondStarts
              secondSpans laid =>
              obtain ⟨start, more, rfl, isWritten⟩ := starts
              have isJoined := isJoinedTextOf_join joined isText secondIsText betweenIsLayout
              have whole : before ++ gap ++ (start :: more) ++ between ++ secondText =
                  before ++ gap ++ ((start :: more) ++ (between ++ secondText)) := by
                simp only [List.append_assoc]
              have regrouped : start :: more ++ (between ++ (secondText ++ others)) =
                  (start :: more ++ (between ++ secondText)) ++ others := by
                simp only [List.append_assoc]
              rw [regrouped]
              rw [whole] at laid secondSpans
              refine .cons isLayout (.inr isJoined) ⟨start, _, rfl, isWritten⟩ ?_
                (inductionHypothesis laid)
              rw [join, spans, secondSpans]
  | case2 first second others notJoined inductionHypothesis =>
      cases laid with
      | cons isLayout isText starts spans laid =>
          exact .cons isLayout (.inl isText.isPlainTextOf) starts spans (inductionHypothesis laid)
  | case3 tokens notTwo =>
      have same : Laid file IsFinishedTextOf before rest (tokens.map id) :=
        laid.map id (fun _ => rfl) fun _ _ isText => .inl isText.isPlainTextOf
      rw [List.map_id] at same
      exact same

/-- Tokens behind all passes are laid in the text. -/
theorem Laid.finished
    (laid : Laid file IsTextOf before rest tokens) :
    Laid file IsFinishedTextOf before rest (finished tokens) := by
  refine laid.joinPairs.map withBinding span_withBinding ?_
  intro token text isText
  rw [IsFinishedTextOf, IsPlainTextOf, IsJoinedTextOf, kind_withBinding, value_withBinding]
  exact isText

end

/-! ## Back into the source -/

/-- A token stands on one line of a source: between the columns of its span, the line that is
shown for its start has its text. -/
structure Marks (source file : String) (token : Token) : Prop where
  startFile : token.span.start.file = file
  stopFile : token.span.stop.file = file
  sameLine : token.span.stop.line = token.span.start.line
  found : ∃ line, Diagnostic.lineAt? source token.span.start = some line ∧
    token.span.start.column < token.span.stop.column ∧
    token.span.stop.column ≤ line.length ∧
    line.extract token.span.start.column token.span.stop.column = token.value.toList

/-- An operator is joined from a character of a source and an equals sign behind it, with layout
between both.  Its span starts at the one and ends behind the other. -/
def Joins (source file : String) (token : Token) : Prop :=
  ∃ before first kind gap after,
    source.toList = before ++ first :: (gap ++ '=' :: after) ∧ IsLayout gap ∧
      punctuation? first = some kind ∧ TokenKind.joined? kind .equal = some token.kind ∧
        token.value.toList = [first, '='] ∧
          token.span =
            ⟨placeBehind file before, (placeBehind file (before ++ first :: gap)).right 1⟩

/-- A character is found in its column of the line that is shown for its place. -/
def IsAt (source : String) (place : Position) (character : Char) : Prop :=
  ∃ row, Diagnostic.lineAt? source place = some row ∧ row[place.column]? = some character

theorem isAt_placeBehind
    {source : String} {before after : List Char} {character : Char}
    (file : String)
    (isSource : source.toList = before ++ character :: after)
    (unbroken : Source.isLineBreak character = false) :
    IsAt source (placeBehind file before) character := by
  obtain ⟨row, isLine, found⟩ := Source.exists_line?_of_not_isLineBreak file unbroken
  rw [← isSource] at isLine
  exact ⟨row, isLine, found⟩

section

variable {source file : String} {token : Token} {before text after : List Char}

/-- The line of a written text that stands on one line of a source. -/
theorem exists_lineAt?_of_text
    (file : String)
    (isSource : source.toList = before ++ (text ++ after))
    (starts : StartsWritten text)
    (unbroken : ∀ character ∈ text, Source.isLineBreak character = false) :
    ∃ last head,
      Diagnostic.lineAt? source (placeBehind file before) = some (last ++ (text ++ head)) ∧
        (placeBehind file before).column = last.length := by
  obtain ⟨first, others, rfl, _, firstUnbroken⟩ := starts
  obtain ⟨head, rest, cut⟩ := List.exists_cons_of_ne_nil (Source.lines_ne_nil after)
  have uncut : Uncut before (first :: others ++ after) :=
    Source.uncut_of_not_isLineBreak firstUnbroken before (others ++ after)
  obtain ⟨last, isLine, column⟩ :=
    Source.exists_line?_placeBehind file uncut (lines_append unbroken cut)
  rw [← isSource] at isLine
  exact ⟨last, head, isLine, column⟩

/-- A token whose text stands on one line of the source marks this text. -/
theorem marks_of_plain
    (isSource : source.toList = before ++ (text ++ after))
    (isPlain : IsPlainTextOf token text)
    (starts : StartsWritten text)
    (spans : token.span = ⟨placeBehind file before, placeBehind file (before ++ text)⟩) :
    token.Marks source file := by
  obtain ⟨_, isText, unbroken⟩ := isPlain
  obtain ⟨last, head, isLine, column⟩ := exists_lineAt?_of_text file isSource starts unbroken
  obtain ⟨first, others, rfl, _⟩ := starts
  rw [Source.placeBehind_append_of_unbroken file unbroken] at spans
  constructor <;> rw [spans]
  · rfl
  · rfl
  · rfl
  · refine ⟨_, isLine, ?_, ?_, ?_⟩
    · exact Nat.lt_add_of_pos_right (Nat.zero_lt_succ _)
    · change (placeBehind file before).column + (first :: others).length ≤ _
      rw [column, List.length_append, List.length_append]
      omega
    · change List.extract _ (placeBehind file before).column
        ((placeBehind file before).column + (first :: others).length) = _
      rw [column, List.extract_eq_take_drop, Nat.add_sub_cancel_left, List.drop_left,
        List.take_left, isText]

theorem joins_of_isJoined
    (isSource : source.toList = before ++ (text ++ after))
    (isJoined : IsJoinedTextOf token text)
    (spans : token.span = ⟨placeBehind file before, placeBehind file (before ++ text)⟩) :
    token.Joins source file := by
  obtain ⟨first, kind, gap, rfl, isLayout, isPunctuation, joined, value⟩ := isJoined
  have unbroken : ∀ character ∈ ['='], Source.isLineBreak character = false :=
    List.forall_mem_singleton.mpr rfl
  have atEnd : before ++ first :: (gap ++ ['=']) = (before ++ first :: gap) ++ ['='] := by simp
  rw [atEnd, Source.placeBehind_append_of_unbroken file unbroken] at spans
  refine ⟨before, first, kind, gap, after, ?_, isLayout, isPunctuation, joined, value, spans⟩
  rw [isSource]
  simp

end

section

variable {source file : String} {scanned : List Token}

/-- The spans of the tokens of a source lead back into it.  Every token that is scanned stands on
one line and has the text that this line has between the columns of its span; the tokens follow
each other, and every character outside of their spans is a blank, a part of a line break or in
the comment of its line.  The same holds for the tokens behind all passes, where an operator that
was joined reaches from its first character to an equals sign, with layout between both.  The
place behind a text is where the line that is shown has the next character, unless this is a
break, and the lines are cut at the same places as the bytes of the source. -/
theorem spans_of_scanSource
    (scans : scanSource source file = .ok scanned) :
    ((∀ token ∈ scanned, ¬ token.kind.IsJoined ∧ token.Marks source file) ∧
      InOrder scanned ∧ Covers source file scanned) ∧
    (∃ final, tokenize source file = .ok final ∧
      (∀ token ∈ final,
        (¬ token.kind.IsJoined -> token.Marks source file) ∧
          (token.kind.IsJoined -> token.Joins source file)) ∧
      InOrder final ∧ Covers source file final) ∧
    (∀ before character after, source.toList = before ++ character :: after ->
      Source.isLineBreak character = false ->
        IsAt source (placeBehind file before) character) ∧
    List.Forall₂ (Source.IsRangeOf source.toList)
      (Source.byteRanges 0 0 source.toUTF8.data.toList) (lines source.toList) := by
  have laid := laid_of_scanSource scans
  have laidFinished := laid.finished
  refine ⟨⟨?_, laid.inOrder, laid.covers⟩, ⟨finished scanned, tokenize_of_scanSource scans, ?_,
    laidFinished.inOrder, laidFinished.covers⟩, ?_, ?_⟩
  · intro token member
    obtain ⟨before, text, after, isSource, isText, starts, spans⟩ := laid.exists_text token member
    have isPlain := isText.isPlainTextOf
    exact ⟨isPlain.1, marks_of_plain isSource isPlain starts spans⟩
  · intro token member
    obtain ⟨before, text, after, isSource, isText, starts, spans⟩ :=
      laidFinished.exists_text token member
    rcases isText with isPlain | isJoined
    · exact ⟨fun _ => marks_of_plain isSource isPlain starts spans,
        fun isJoined => absurd isJoined isPlain.1⟩
    · refine ⟨fun notJoined => ?_, fun _ => joins_of_isJoined isSource isJoined spans⟩
      obtain ⟨first, kind, gap, _, _, _, joined, _⟩ := isJoined
      exact absurd ⟨kind, .equal, joined⟩ notJoined
  · intro before character after isSource unbroken
    exact isAt_placeBehind file isSource unbroken
  · rw [Source.toList_toUTF8]
    exact Source.byteRanges_eq_lines source.toList

/-- A source with characters of several bytes, all three breaks, and an operator whose two
characters stand on different lines with a comment between them. -/
theorem spans_of_split_operator :
    ∃ scanned final,
      scanSource "// ø😀\r\n\tx <//y\r=\n12;" "f" = .ok scanned ∧
      tokenize "// ø😀\r\n\tx <//y\r=\n12;" "f" = .ok final ∧
      scanned.length = 5 ∧
      (∀ token ∈ scanned, token.Marks "// ø😀\r\n\tx <//y\r=\n12;" "f") ∧
      (∃ token ∈ final, token.kind = .lessEquals ∧ token.span = ⟨⟨2, 3, "f"⟩, ⟨3, 1, "f"⟩⟩ ∧
        token.Joins "// ø😀\r\n\tx <//y\r=\n12;" "f") ∧
      InOrder final ∧ Covers "// ø😀\r\n\tx <//y\r=\n12;" "f" final := by
  have scans : scanSource "// ø😀\r\n\tx <//y\r=\n12;" "f" = .ok
      [⟨.identifier, "x", .onLine ⟨2, 1, "f"⟩ 1, .leaf (.identifier "x")⟩,
        ⟨.less, "<", .onLine ⟨2, 3, "f"⟩ 1, .empty⟩,
        ⟨.equal, "=", .onLine ⟨3, 0, "f"⟩ 1, .empty⟩,
        ⟨.literal, "12", .onLine ⟨4, 0, "f"⟩ 2, .leaf (.literal (.int 12))⟩,
        ⟨.semicolon, ";", .onLine ⟨4, 2, "f"⟩ 1, .empty⟩] := by decide +kernel
  obtain ⟨⟨marks, _, _⟩, ⟨final, tokenizes, joins, inOrder, covers⟩, _⟩ := spans_of_scanSource scans
  have isFinal := Except.ok.inj ((tokenize_of_scanSource scans).symm.trans tokenizes)
  refine ⟨_, final, scans, tokenizes, rfl, fun token member => (marks token member).2, ?_,
    inOrder, covers⟩
  have isOperator : (join .lessEquals ⟨.less, "<", .onLine ⟨2, 3, "f"⟩ 1, .empty⟩
      ⟨.equal, "=", .onLine ⟨3, 0, "f"⟩ 1, .empty⟩).withBinding ∈ final := by
    rw [← isFinal]
    exact List.mem_cons_of_mem _ List.mem_cons_self
  exact ⟨_, isOperator, rfl, rfl, (joins _ isOperator).2 ⟨.less, .equal, rfl⟩⟩

end

end Token
end ScriptLang
