import ScriptLang.Proofs.Source.Place
import ScriptLang.Proofs.Token.LineWise

/-!
# Tokens laid in a text

A text is its tokens with layout around them: blanks, line breaks and comments.
Scanning finds such a division of the source, and the span of a token is the
place behind what stands in front of it together with the place behind its text.
A scan that stops has only passed layout and tokens up to the place that it
reports.
-/

namespace ScriptLang
namespace Token

open Source (Cursor Position Uncut lines placeBehind)

/-- A text of blanks, line breaks and comments, where a comment ends in front of a line break. -/
inductive IsLayout : List Char -> Prop
  | nil : IsLayout []
  | blank
      {character : Char} {rest : List Char}
      (isBlank : Source.isBlank character = true)
      (isLayout : IsLayout rest) :
      IsLayout (character :: rest)
  | lineBreak
      {character : Char} {rest : List Char}
      (isBreak : Source.isLineBreak character = true)
      (isLayout : IsLayout rest) :
      IsLayout (character :: rest)
  | comment
      {text rest : List Char} {stop : Char}
      (unbroken : ∀ character ∈ text, Source.isLineBreak character = false)
      (isStop : Source.isLineBreak stop = true)
      (isLayout : IsLayout (stop :: rest)) :
      IsLayout ('/' :: '/' :: (text ++ stop :: rest))

/-- A text starts with a character that is no layout by itself. -/
def StartsWritten (text : List Char) : Prop :=
  ∃ first rest, text = first :: rest ∧ Source.isBlank first = false ∧
    Source.isLineBreak first = false

/-- Behind the text `before`, the text `rest` is the texts of tokens with layout around them, and
the spans of the tokens are the places of their texts.  What the text of a token may be is left
open. -/
inductive Laid (file : String) (covers : Token -> List Char -> Prop) :
    List Char -> List Char -> List Token -> Prop
  | nil
      {gap : List Char}
      (before : List Char)
      (isLayout : IsLayout gap) :
      Laid file covers before gap []
  | cons
      {before gap text rest : List Char} {token : Token} {tokens : List Token}
      (isLayout : IsLayout gap)
      (covered : covers token text)
      (starts : StartsWritten text)
      (spans : token.span =
        ⟨placeBehind file (before ++ gap), placeBehind file (before ++ gap ++ text)⟩)
      (laid : Laid file covers (before ++ gap ++ text) rest tokens) :
      Laid file covers before (gap ++ (text ++ rest)) (token :: tokens)

/-- What a scan makes a token of: the text of a word or of a character of punctuation. -/
def IsTextOf (token : Token) (text : List Char) : Prop :=
  (token.IsWord ∨ token.IsPunctuation) ∧ text = token.value.toList

section

variable {file : String} {covers : Token -> List Char -> Prop}
variable {before rest : List Char} {tokens : List Token}

/-- Layout in front of tokens belongs to the gap in front of the first of them. -/
theorem Laid.behind
    (front : List Char)
    (growing : ∀ gap tail, rest = gap ++ tail -> IsLayout gap ->
      (tail = [] ∨ StartsWritten tail) -> IsLayout (front ++ gap))
    (laid : Laid file covers (before ++ front) rest tokens) :
    Laid file covers before (front ++ rest) tokens := by
  cases laid with
  | nil _ isLayout =>
      exact .nil before (growing rest [] (List.append_nil rest).symm isLayout (.inl rfl))
  | @cons _ gap text rest token tokens isLayout covered starts spans laid =>
      have startsTail : StartsWritten (text ++ rest) := by
        obtain ⟨first, others, rfl, notBlank, notBreak⟩ := starts
        exact ⟨first, others ++ rest, rfl, notBlank, notBreak⟩
      rw [← List.append_assoc front]
      rw [List.append_assoc before] at spans laid
      exact .cons (growing gap _ rfl isLayout (.inr startsTail)) covered starts spans laid

theorem Laid.behind_blank
    {character : Char}
    (isBlank : Source.isBlank character = true)
    (laid : Laid file covers (before ++ [character]) rest tokens) :
    Laid file covers before (character :: rest) tokens :=
  laid.behind [character] fun _ _ _ isLayout _ => .blank isBlank isLayout

theorem Laid.behind_lineBreak
    {character : Char}
    (isBreak : Source.isLineBreak character = true)
    (laid : Laid file covers (before ++ [character]) rest tokens) :
    Laid file covers before (character :: rest) tokens :=
  laid.behind [character] fun _ _ _ isLayout _ => .lineBreak isBreak isLayout

/-- A comment in front of tokens is layout, since the break behind it is layout as well. -/
theorem Laid.behind_comment
    {text : List Char} {stop : Char}
    (unbroken : ∀ character ∈ text, Source.isLineBreak character = false)
    (isStop : Source.isLineBreak stop = true)
    (laid : Laid file covers (before ++ '/' :: '/' :: text) (stop :: rest) tokens) :
    Laid file covers before ('/' :: '/' :: (text ++ stop :: rest)) tokens := by
  refine laid.behind ('/' :: '/' :: text) ?_
  intro gap tail cut isLayout ends
  cases gap with
  | nil =>
      rcases ends with rfl | ⟨first, others, rfl, _, notBreak⟩
      · cases cut
      · cases cut
        rw [isStop] at notBreak
        cases notBreak
  | cons first gap =>
      obtain ⟨rfl, _⟩ := List.cons.inj cut
      exact .comment unbroken isStop isLayout

end

/-- A scan of the rest of a text stops at a place that is reported, in front of a character that
is no layout by itself. -/
def Stuck (file : String) (before rest : List Char) (diagnostic : Diagnostic) : Prop :=
  ∃ passed ahead, rest = passed ++ ahead ∧ StartsWritten ahead ∧
    diagnostic.position = placeBehind file (before ++ passed)

theorem Stuck.behind
    {file : String} {before rest : List Char} {diagnostic : Diagnostic}
    (front : List Char)
    (stuck : Stuck file (before ++ front) rest diagnostic) :
    Stuck file before (front ++ rest) diagnostic := by
  obtain ⟨passed, ahead, rfl, starts, isPlace⟩ := stuck
  refine ⟨front ++ passed, ahead, (List.append_assoc ..).symm, starts, ?_⟩
  rw [isPlace, List.append_assoc]

/-- A cursor stands behind a text, and not between the two halves of a break. -/
structure Stands (file : String) (before : List Char) (cursor : Cursor) : Prop where
  uncut : Uncut before cursor.rest
  position : cursor.position = placeBehind file before

namespace Stands

variable {file : String} {before behind : List Char} {position : Position}

theorem ofSource (source file : String) : Stands file [] (.ofSource source file) where
  uncut := by
    rintro ⟨endsWithReturn, _⟩
    cases endsWithReturn
  position := rfl

/-- The cursor moves over characters of one line. -/
theorem advance
    (passed : List Char)
    (stands : Stands file before ⟨passed ++ behind, position⟩)
    (nonempty : passed ≠ [])
    (unbroken : ∀ character ∈ passed, Source.isLineBreak character = false) :
    Stands file (before ++ passed)
      ((⟨passed ++ behind, position⟩ : Cursor).advance passed.length) := by
  constructor
  · rintro ⟨endsWithReturn, starts⟩
    rw [List.getLast?_append_of_ne_nil _ nonempty] at endsWithReturn
    have notBreak := unbroken '\r' (List.mem_of_getLast? endsWithReturn)
    cases notBreak
  · rw [Source.placeBehind_append_of_unbroken file unbroken, ← stands.position]
    rfl

/-- The cursor moves over a break. -/
theorem newLine
    (passed : List Char)
    (stands : Stands file before ⟨passed ++ behind, position⟩)
    (uncut : Uncut before passed)
    (nonempty : passed ≠ [])
    (isBreak : lines passed = [[], []])
    (apart : Uncut passed behind) :
    Stands file (before ++ passed)
      ((⟨passed ++ behind, position⟩ : Cursor).newLine passed.length) := by
  constructor
  · rw [Cursor.rest_newLine, List.drop_left]
    rintro ⟨endsWithReturn, starts⟩
    rw [List.getLast?_append_of_ne_nil _ nonempty] at endsWithReturn
    exact apart ⟨endsWithReturn, starts⟩
  · rw [Source.placeBehind_append_of_break file uncut isBreak, ← stands.position]
    rfl

end Stands

/-- What a scan finds behind a text. -/
def Finds (file : String) (before rest : List Char) : Except Diagnostic (List Token) -> Prop
  | .ok tokens => Laid file IsTextOf before rest tokens
  | .error diagnostic => Stuck file before rest diagnostic

section

variable {file : String} {before rest : List Char}
variable {result : Except Diagnostic (List Token)}

theorem finds_of_layout
    (front : List Char)
    (isLayout : ∀ tokens, Laid file IsTextOf (before ++ front) rest tokens ->
      Laid file IsTextOf before (front ++ rest) tokens)
    (finds : Finds file (before ++ front) rest result) :
    Finds file before (front ++ rest) result := by
  cases result with
  | ok tokens => exact isLayout tokens finds
  | error diagnostic => exact Stuck.behind front finds

theorem finds_of_token
    {token : Token}
    (front : List Char)
    (isText : IsTextOf token front)
    (starts : StartsWritten front)
    (spans : token.span = ⟨placeBehind file before, placeBehind file (before ++ front)⟩)
    (finds : Finds file (before ++ front) rest result) :
    Finds file before (front ++ rest) (do
      let others ← result
      return token :: others) := by
  cases result with
  | ok tokens =>
      have noGap : before ++ [] = before := List.append_nil before
      rw [← noGap] at spans finds
      exact Laid.cons .nil isText starts spans finds
  | error diagnostic => exact Stuck.behind front finds

/-- What is wrong is reported where the scan stands. -/
theorem finds_error
    {diagnostic : Diagnostic}
    (starts : StartsWritten rest)
    (isPlace : diagnostic.position = placeBehind file before) :
    Finds file before rest (.error diagnostic) :=
  ⟨[], rest, rfl, starts, by rw [isPlace, List.append_nil]⟩

end

/-- A span on one line, from the place behind one text to the place behind a longer one. -/
theorem onLine_placeBehind
    {text : List Char}
    (file : String) (before : List Char)
    (unbroken : ∀ character ∈ text, Source.isLineBreak character = false) :
    Source.Span.onLine (placeBehind file before) text.length =
      ⟨placeBehind file before, placeBehind file (before ++ text)⟩ := by
  rw [Source.placeBehind_append_of_unbroken file unbroken]
  rfl

/-- A word that is no token is reported where it starts. -/
theorem position_of_ofWord
    {word : String} {span : Source.Span} {diagnostic : Diagnostic}
    (refused : ofWord word span = .error diagnostic) :
    diagnostic.position = span.start := by
  unfold ofWord at refused
  split at refused
  · cases refused
  · cases refused
    rfl

/-- A word in front of the rest is one token, or is refused where it starts. -/
theorem finds_of_word
    {file : String} {before rest word : List Char}
    {result : Except Diagnostic (List Token)}
    (starts : StartsWritten word)
    (undelimited : ∀ character ∈ word, isDelimiter character = false)
    (finds : Finds file (before ++ word) rest result) :
    Finds file before (word ++ rest) (do
      let token ← ofWord (String.ofList word) (.onLine (placeBehind file before) word.length)
      let others ← result
      return token :: others) := by
  cases made : ofWord (String.ofList word) (.onLine (placeBehind file before) word.length) with
  | error diagnostic =>
      obtain ⟨first, others, rfl, written⟩ := starts
      exact finds_error ⟨first, _, rfl, written⟩ (position_of_ofWord made)
  | ok token =>
      obtain ⟨classified, value, spans⟩ := ofWord_eq_ok made
      have isText : IsTextOf token word := by
        rw [IsTextOf, value, String.toList_ofList]
        refine ⟨.inl ⟨?_, ?_, ?_⟩, rfl⟩
        · rw [value]
          exact classified
        · rw [value, String.toList_ofList]
          obtain ⟨first, others, rfl, _⟩ := starts
          exact List.cons_ne_nil _ _
        · rw [value, String.toList_ofList]
          exact undelimited
      refine finds_of_token word isText starts ?_ finds
      rw [spans, onLine_placeBehind file before (unbroken_of_undelimited undelimited)]

/-- What is read of a comment in front of its line break starts with the second slash, since no
line break follows the first one. -/
theorem exists_comment
    {following comment : List Char}
    (isHead : following.head? = some '/')
    (found : before? Source.isLineBreak following = some comment) :
    ∃ text stop rest,
      comment = '/' :: text ∧
      following = '/' :: text ++ stop :: rest ∧
      (∀ character ∈ text, Source.isLineBreak character = false) ∧
      Source.isLineBreak stop = true := by
  obtain ⟨unbroken, stop, rest, isStop, rfl⟩ := (before?_eq_some_iff _ _ _).mp found
  cases comment with
  | nil =>
      cases isHead
      cases isStop
  | cons first text =>
      cases isHead
      exact ⟨text, stop, rest, rfl, rfl, (List.forall_mem_cons.mp unbroken).2, isStop⟩

theorem unbroken_of_isBlank
    {character : Char}
    (isBlank : Source.isBlank character = true) :
    Source.isLineBreak character = false := by
  simp only [Source.isBlank, Bool.or_eq_true, decide_eq_true_eq] at isBlank
  rcases isBlank with rfl | rfl <;> rfl

/-- The scan of the rest of a text, from where the cursor stands. -/
theorem finds_scan
    {file : String} {before : List Char} {cursor : Cursor}
    (stands : Stands file before cursor) :
    Finds file before cursor.rest (scan cursor) := by
  fun_induction scan cursor generalizing before with
  | case1 position => exact .nil before .nil
  | case2 current following position isBlank inductionHypothesis =>
      have next := stands.advance [current] (List.cons_ne_nil _ _)
        (List.forall_mem_singleton.mpr (unbroken_of_isBlank isBlank))
      exact finds_of_layout [current] (fun _ => Laid.behind_blank isBlank)
        (inductionHypothesis next)
  | case3 current following position notBlank isPair inductionHypothesis =>
      obtain ⟨rfl, isHead⟩ := isPair
      obtain ⟨rest, rfl⟩ := List.head?_eq_some_iff.mp isHead
      have next := stands.newLine ['\r', '\n']
        (Source.uncut_of_head before (by simp)) (List.cons_ne_nil _ _) rfl
        (fun cut => by cases cut.1)
      exact finds_of_layout ['\r', '\n']
        (fun _ => Laid.behind ['\r', '\n'] fun _ _ _ isLayout _ =>
          .lineBreak rfl (.lineBreak rfl isLayout))
        (inductionHypothesis next)
  | case4 current following position notBlank notPair isBreak inductionHypothesis =>
      have next := stands.newLine [current] stands.uncut (List.cons_ne_nil _ _)
        (Source.lines_cons_of_isLineBreak isBreak (by simp))
        (fun cut => notPair ⟨Option.some.inj cut.1, cut.2⟩)
      exact finds_of_layout [current] (fun _ => Laid.behind_lineBreak isBreak)
        (inductionHypothesis next)
  | case5 current following position notBlank notPair notBreak isComment found =>
      exact finds_error
        ⟨current, following, rfl, Bool.eq_false_iff.mpr notBlank, Bool.eq_false_iff.mpr notBreak⟩
        stands.position
  | case6 current following position notBlank notPair notBreak isComment comment found
      inductionHypothesis =>
      obtain ⟨rfl, isHead⟩ := isComment
      obtain ⟨text, stop, rest, rfl, rfl, textUnbroken, isStop⟩ := exists_comment isHead found
      have next := stands.advance ('/' :: '/' :: text) (List.cons_ne_nil _ _)
        (List.forall_mem_cons.mpr ⟨rfl, List.forall_mem_cons.mpr ⟨rfl, textUnbroken⟩⟩)
      have finds := inductionHypothesis next
      have behind : ('/' :: ('/' :: text ++ stop :: rest)).drop (('/' :: text).length + 1) =
          stop :: rest := List.drop_left
      rw [Cursor.rest_advance, behind] at finds
      exact finds_of_layout ('/' :: '/' :: text)
        (fun _ => Laid.behind_comment textUnbroken isStop) finds
  | case7 current following position notBlank notPair notBreak notComment kind isPunctuation
      inductionHypothesis =>
      have unbroken : ∀ character ∈ [current], Source.isLineBreak character = false :=
        List.forall_mem_singleton.mpr (Bool.eq_false_iff.mpr notBreak)
      have next := stands.advance [current] (List.cons_ne_nil _ _) unbroken
      refine finds_of_token [current] ⟨.inr ⟨rfl, current, isPunctuation, rfl⟩, ?_⟩
        ⟨current, [], rfl, Bool.eq_false_iff.mpr notBlank, Bool.eq_false_iff.mpr notBreak⟩ ?_
        (inductionHypothesis next)
      · exact (String.toList_singleton current).symm
      · rw [← onLine_placeBehind file before unbroken, ← stands.position]
        rfl
  | case8 current following position notBlank notPair notBreak notComment notPunctuation found =>
      exact finds_error
        ⟨current, following, rfl, Bool.eq_false_iff.mpr notBlank, Bool.eq_false_iff.mpr notBreak⟩
        stands.position
  | case9 current following position notBlank notPair notBreak notComment notPunctuation tail
      found word =>
      rename_i inductionHypothesis
      obtain ⟨tailUndelimited, stop, rest, isStop, rfl⟩ := (before?_eq_some_iff _ _ _).mp found
      have startsWord : StartsWritten word :=
        ⟨current, tail, rfl, Bool.eq_false_iff.mpr notBlank, Bool.eq_false_iff.mpr notBreak⟩
      have currentUndelimited := (not_delimiter_iff current).mpr
        ⟨Bool.eq_false_iff.mpr notBlank, Bool.eq_false_iff.mpr notBreak, notPunctuation⟩
      have undelimited : ∀ character ∈ word, isDelimiter character = false :=
        List.forall_mem_cons.mpr ⟨currentUndelimited, tailUndelimited⟩
      have next := stands.advance word (List.cons_ne_nil _ _)
        (unbroken_of_undelimited undelimited)
      have behind : (word ++ stop :: rest).drop word.length = stop :: rest := List.drop_left
      have finds := inductionHypothesis next
      change Finds file (before ++ word) ((word ++ stop :: rest).drop word.length) _ at finds
      rw [behind] at finds
      obtain rfl : position = placeBehind file before := stands.position
      exact finds_of_word startsWord undelimited finds

section

variable {source file : String}

/-- A source that is scanned is its tokens with layout around them. -/
theorem laid_of_scanSource
    {tokens : List Token}
    (scans : scanSource source file = .ok tokens) :
    Laid file IsTextOf [] source.toList tokens := by
  have finds := finds_scan (Stands.ofSource source file)
  rw [← scanSource, scans] at finds
  exact finds

/-- What is wrong with a source that is not scanned is reported where the scan stops. -/
theorem stuck_of_scanSource
    {diagnostic : Diagnostic}
    (refused : scanSource source file = .error diagnostic) :
    Stuck file [] source.toList diagnostic := by
  have finds := finds_scan (Stands.ofSource source file)
  rw [← scanSource, refused] at finds
  exact finds

end

end Token
end ScriptLang
