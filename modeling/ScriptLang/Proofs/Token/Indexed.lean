import ScriptLang.Proofs.Token.Pieces
import ScriptLang.Token.Tokenize

/-!
# Scanning with indices

The scan once more as a loop over a text that stays whole and an index into it.
Such a loop may cut stretches out of the text that do not exist, find an empty
word, or never end.  It does none of this: it takes a step for every item, each
step moves the index, and it has the result of the scan.
-/

namespace ScriptLang
namespace Token

open Source (Cursor Position)

/-- Why a loop stops in front of the end of its text. -/
inductive Halt
  | refused (diagnostic : Diagnostic)
  | outOfRange (start stop size : Nat)
  | emptyWord (position : Position)
  | outOfSteps
  deriving DecidableEq, Repr

/-- A loop over a text: the tokens found so far, the whole text, the index of the next character
and its place. -/
structure Scanner where
  tokens : List Token
  source : List Char
  index : Nat
  line : Nat
  column : Nat
  file : String
  deriving DecidableEq, Repr

namespace Scanner

/-- The loop at the start of a source. -/
def ofSource (source file : String) : Scanner := ⟨[], source.toList, 0, 1, 0, file⟩

/-- The place of the next character. -/
def position (scanner : Scanner) : Position := ⟨scanner.line, scanner.column, scanner.file⟩

/-- The next character. -/
def current? (scanner : Scanner) : Option Char := scanner.source[scanner.index]?

/-- The character behind the next one. -/
def peek? (scanner : Scanner) : Option Char := scanner.source[scanner.index + 1]?

/-- Move over some characters of a line. -/
def advance (scanner : Scanner) (count : Nat) : Scanner :=
  { scanner with index := scanner.index + count, column := scanner.column + count }

/-- Move over a line break. -/
def newLine (scanner : Scanner) (width : Nat) : Scanner :=
  { scanner with index := scanner.index + width, line := scanner.line + 1, column := 0 }

/-- One more token. -/
def push (scanner : Scanner) (token : Token) : Scanner :=
  { scanner with tokens := scanner.tokens ++ [token] }

/-- A stretch of the text, which must exist. -/
def slice (scanner : Scanner) (start stop : Nat) : Except Halt (List Char) :=
  if start ≤ stop ∧ stop ≤ scanner.source.length then
    .ok ((scanner.source.take stop).drop start)
  else .error (.outOfRange start stop scanner.source.length)

/-- The rest of the text. -/
def remainder (scanner : Scanner) : Except Halt (List Char) :=
  scanner.slice scanner.index scanner.source.length

/-- The index of the first of the next characters that satisfies a condition. -/
def findFrom (scanner : Scanner) (stops : Char -> Bool) : Except Halt (Option Nat) := do
  let rest ← scanner.remainder
  return (rest.findIdx? stops).map (scanner.index + ·)

/-- The number of characters up to an index, which must not lie behind. -/
def distance (scanner : Scanner) (stop : Nat) : Except Halt Nat :=
  if scanner.index ≤ stop then .ok (stop - scanner.index)
  else .error (.outOfRange scanner.index stop scanner.source.length)

/-- Move over a comment. -/
def skipComment (scanner : Scanner) : Except Halt Scanner := do
  match ← scanner.findFrom Source.isLineBreak with
  | some stop => return scanner.advance (← scanner.distance stop)
  | none => throw (.refused (.ofSyntax .unterminatedComment scanner.position))

/-- Read a word. -/
def readWord (scanner : Scanner) : Except Halt Scanner := do
  match ← scanner.findFrom isDelimiter with
  | none =>
      let word := String.ofList (Source.trimEnd (← scanner.remainder))
      throw (.refused (.ofSyntax (.unterminatedWord word) scanner.position))
  | some stop =>
      let length ← scanner.distance stop
      if length = 0 then throw (.emptyWord scanner.position)
      else
        let word ← scanner.slice scanner.index stop
        let token ← (ofWord (String.ofList word) (.onLine scanner.position length)).mapError
          Halt.refused
        return (scanner.push token).advance length

/-- Read what starts with the next character. -/
def step (scanner : Scanner) (current : Char) : Except Halt Scanner :=
  if Source.isBlank current then .ok (scanner.advance 1)
  else if current = '\r' then .ok (scanner.newLine (if scanner.peek? = some '\n' then 2 else 1))
  else if current = '\n' then .ok (scanner.newLine 1)
  else if current = '/' ∧ scanner.peek? = some '/' then scanner.skipComment
  else
    match punctuation? current with
    | some kind => .ok ((scanner.push (ofPunctuation kind current scanner.position)).advance 1)
    | none => scanner.readWord

/-- Go on to the end of the text, in a limited number of steps. -/
def run (scanner : Scanner) : Nat -> Except Halt (List Token)
  | 0 => .error .outOfSteps
  | steps + 1 =>
      match scanner.current? with
      | none => .ok scanner.tokens
      | some current => do
          let next ← scanner.step current
          next.run steps

/-- A loop is where a cursor is. -/
structure Follows (scanner : Scanner) (cursor : Cursor) : Prop where
  inRange : scanner.index ≤ scanner.source.length
  rest : cursor.rest = scanner.source.drop scanner.index
  position : cursor.position = scanner.position

namespace Follows

variable {scanner : Scanner} {cursor : Cursor}

theorem ofSource (source file : String) :
    (Scanner.ofSource source file).Follows (.ofSource source file) where
  inRange := Nat.zero_le _
  rest := rfl
  position := rfl

theorem length_rest (follows : scanner.Follows cursor) :
    cursor.rest.length = scanner.source.length - scanner.index := by
  rw [follows.rest, List.length_drop]

theorem advance
    (follows : scanner.Follows cursor)
    {count : Nat}
    (inRange : count ≤ cursor.rest.length) :
    (scanner.advance count).Follows (cursor.advance count) where
  inRange := by
    rw [follows.length_rest] at inRange
    have bound := follows.inRange
    change scanner.index + count ≤ scanner.source.length
    omega
  rest := by
    rw [Cursor.rest_advance, follows.rest, List.drop_drop]
    rfl
  position := by
    rw [Cursor.position_advance, follows.position]
    rfl

theorem newLine
    (follows : scanner.Follows cursor)
    {width : Nat}
    (inRange : width ≤ cursor.rest.length) :
    (scanner.newLine width).Follows (cursor.newLine width) where
  inRange := by
    rw [follows.length_rest] at inRange
    have bound := follows.inRange
    change scanner.index + width ≤ scanner.source.length
    omega
  rest := by
    rw [Cursor.rest_newLine, follows.rest, List.drop_drop]
    rfl
  position := by
    rw [Cursor.position_newLine, follows.position]
    rfl

theorem push (follows : scanner.Follows cursor) (token : Token) :
    (scanner.push token).Follows cursor where
  inRange := follows.inRange
  rest := follows.rest
  position := follows.position

theorem current?_eq (follows : scanner.Follows cursor) :
    scanner.current? = cursor.rest.head? := by
  rw [follows.rest, List.head?_drop]
  rfl

theorem peek?_eq (follows : scanner.Follows cursor) :
    scanner.peek? = cursor.rest.tail.head? := by
  rw [follows.rest, List.tail_drop, List.head?_drop]
  rfl

theorem slice_eq
    (follows : scanner.Follows cursor)
    {count : Nat}
    (inRange : count ≤ cursor.rest.length) :
    scanner.slice scanner.index (scanner.index + count) = .ok (cursor.rest.take count) := by
  rw [follows.length_rest] at inRange
  have bound := follows.inRange
  rw [slice, if_pos ⟨Nat.le_add_right _ _, by omega⟩, follows.rest, List.drop_take,
    Nat.add_sub_cancel_left]

theorem remainder_eq (follows : scanner.Follows cursor) :
    scanner.remainder = .ok cursor.rest := by
  have whole := follows.slice_eq (Nat.le_refl _)
  rw [follows.length_rest, Nat.add_sub_cancel' follows.inRange] at whole
  rw [remainder, whole, ← follows.length_rest, List.take_length]

/-- What is found is the end of what is read up to a stop. -/
theorem findFrom_eq (follows : scanner.Follows cursor) (stops : Char -> Bool) :
    scanner.findFrom stops =
      .ok ((before? stops cursor.rest).map fun text => scanner.index + text.length) := by
  have found : ∀ text, text.findIdx? stops = (before? stops text).map List.length := by
    intro text
    induction text with
    | nil => rfl
    | cons first rest inductionHypothesis =>
        rw [List.findIdx?_cons, before?]
        split
        · rfl
        · rw [inductionHypothesis, Option.map_map, Option.map_map]
          rfl
  rw [findFrom, follows.remainder_eq, ok_bind, found, Option.map_map]
  rfl

theorem distance_eq (scanner : Scanner) (count : Nat) :
    scanner.distance (scanner.index + count) = .ok count := by
  rw [distance, if_pos (Nat.le_add_right _ _), Nat.add_sub_cancel_left]

/-- A comment is moved over up to the line break that ends it. -/
theorem skipComment_eq (follows : scanner.Follows cursor) :
    scanner.skipComment =
      match before? Source.isLineBreak cursor.rest with
      | some comment => .ok (scanner.advance comment.length)
      | none => .error (.refused (.ofSyntax .unterminatedComment scanner.position)) := by
  rw [skipComment, follows.findFrom_eq, ok_bind]
  cases before? Source.isLineBreak cursor.rest with
  | none => rfl
  | some comment => simp only [Option.map_some, distance_eq, ok_bind, pure_eq_ok]

/-- A word at the end of the text is refused. -/
theorem readWord_of_none
    (follows : scanner.Follows cursor)
    (found : before? isDelimiter cursor.rest = none) :
    scanner.readWord =
      .error (.refused (.ofSyntax
        (.unterminatedWord (String.ofList (Source.trimEnd cursor.rest))) scanner.position)) := by
  rw [readWord, follows.findFrom_eq, ok_bind, found, follows.remainder_eq]
  rfl

/-- A word is never empty, and it is a stretch of the text. -/
theorem readWord_of_some
    (follows : scanner.Follows cursor)
    {word : List Char}
    (found : before? isDelimiter cursor.rest = some word)
    (nonempty : word ≠ []) :
    scanner.readWord =
      (ofWord (String.ofList word) (.onLine scanner.position word.length)).mapError Halt.refused >>=
        fun token => .ok ((scanner.push token).advance word.length) := by
  obtain ⟨_, stop, rest, _, text⟩ := (before?_eq_some_iff _ _ _).mp found
  have inRange : word.length ≤ cursor.rest.length := by
    rw [text, List.length_append]
    exact Nat.le_add_right _ _
  have taken : cursor.rest.take word.length = word := by
    rw [text, List.take_left]
  have notEmpty : word.length ≠ 0 := fun isZero => nonempty (List.eq_nil_of_length_eq_zero isZero)
  rw [readWord, follows.findFrom_eq, ok_bind, found]
  simp only [Option.map_some, distance_eq, ok_bind, if_neg notEmpty, follows.slice_eq inRange,
    taken, pure_eq_ok]

end Follows

/-- What starts with a character that is no layout. -/
theorem step_of_not_layout
    {scanner : Scanner} {current : Char}
    (notBlank : ¬ Source.isBlank current = true)
    (notBreak : ¬ Source.isLineBreak current = true) :
    scanner.step current =
      if current = '/' ∧ scanner.peek? = some '/' then scanner.skipComment
      else
        match punctuation? current with
        | some kind => .ok ((scanner.push (ofPunctuation kind current scanner.position)).advance 1)
        | none => scanner.readWord := by
  have notReturn : current ≠ '\r' := by
    rintro rfl
    exact notBreak rfl
  have notFeed : current ≠ '\n' := by
    rintro rfl
    exact notBreak rfl
  rw [step, if_neg notBlank, if_neg notReturn, if_neg notFeed]

namespace Follows

variable {scanner : Scanner} {current : Char} {following : List Char} {position : Position}

theorem step_pair
    (follows : scanner.Follows ⟨'\r' :: following, position⟩)
    (isHead : following.head? = some '\n') :
    scanner.step '\r' = .ok (scanner.newLine 2) := by
  have peeked : scanner.peek? = some '\n' := follows.peek?_eq.trans isHead
  rw [step, if_neg (by decide), if_pos rfl, if_pos peeked]

theorem step_lineBreak
    (follows : scanner.Follows ⟨current :: following, position⟩)
    (notBlank : ¬ Source.isBlank current = true)
    (notPair : ¬ (current = '\r' ∧ following.head? = some '\n'))
    (isBreak : Source.isLineBreak current = true) :
    scanner.step current = .ok (scanner.newLine 1) := by
  rw [step, if_neg notBlank]
  by_cases isReturn : current = '\r'
  · have peeked : scanner.peek? ≠ some '\n' := fun isFeed =>
      notPair ⟨isReturn, follows.peek?_eq.symm.trans isFeed⟩
    rw [if_pos isReturn, if_neg peeked]
  · have isFeed : current = '\n' := by
      simpa [Source.isLineBreak, isReturn] using isBreak
    rw [if_neg isReturn, if_pos isFeed]

/-- A second slash starts a comment, which goes up to the end of the line. -/
theorem step_comment
    (follows : scanner.Follows ⟨'/' :: following, position⟩)
    (isHead : following.head? = some '/') :
    scanner.step '/' =
      match before? Source.isLineBreak following with
      | some comment => .ok (scanner.advance (comment.length + 1))
      | none => .error (.refused (.ofSyntax .unterminatedComment position)) := by
  have peeked : scanner.peek? = some '/' := follows.peek?_eq.trans isHead
  have noBreak : ¬ Source.isLineBreak '/' = true := by decide
  rw [step_of_not_layout (by decide) noBreak, if_pos ⟨rfl, peeked⟩, follows.skipComment_eq,
    before?, if_neg noBreak, ← follows.position]
  cases before? Source.isLineBreak following <;> rfl

/-- What starts with a character that is neither layout nor the start of a comment. -/
theorem step_of_not_comment
    (follows : scanner.Follows ⟨current :: following, position⟩)
    (notBlank : ¬ Source.isBlank current = true)
    (notBreak : ¬ Source.isLineBreak current = true)
    (notComment : ¬ (current = '/' ∧ following.head? = some '/')) :
    scanner.step current =
      match punctuation? current with
      | some kind => .ok ((scanner.push (ofPunctuation kind current position)).advance 1)
      | none => scanner.readWord := by
  have noComment : ¬ (current = '/' ∧ scanner.peek? = some '/') := by
    rw [follows.peek?_eq]
    exact notComment
  rw [step_of_not_layout notBlank notBreak, if_neg noComment, ← follows.position]

/-- A word goes up to the next delimiter. -/
theorem step_word
    (follows : scanner.Follows ⟨current :: following, position⟩)
    (undelimited : isDelimiter current = false) :
    scanner.step current =
      match before? isDelimiter following with
      | some tail =>
          (ofWord (String.ofList (current :: tail))
            (.onLine position (tail.length + 1))).mapError Halt.refused >>=
              fun token => .ok ((scanner.push token).advance (tail.length + 1))
      | none =>
          .error (.refused (.ofSyntax
            (.unterminatedWord (String.ofList (Source.trimEnd (current :: following))))
            position)) := by
  obtain ⟨notBlank, notBreak, notPunctuation⟩ := (not_delimiter_iff current).mp undelimited
  have noComment : ¬ (current = '/' ∧ following.head? = some '/') := by
    rintro ⟨rfl, _⟩
    cases undelimited
  rw [follows.step_of_not_comment (Bool.eq_false_iff.mp notBlank) (Bool.eq_false_iff.mp notBreak)
    noComment, notPunctuation]
  have whole : before? isDelimiter (current :: following) =
      (before? isDelimiter following).map (current :: ·) := by
    rw [before?, undelimited]
    rfl
  cases found : before? isDelimiter following with
  | none =>
      rw [found] at whole
      simp only [follows.readWord_of_none whole, ← follows.position]
  | some tail =>
      rw [found] at whole
      simp only [follows.readWord_of_some whole (List.cons_ne_nil _ _), ← follows.position]
      rfl

end Follows

/-- A result that goes on with one more token. -/
theorem map_append_cons
    (before : List Token) (token : Token) (result : Except Diagnostic (List Token)) :
    ((result >>= fun others => .ok (token :: others)).mapError Halt.refused).map (before ++ ·) =
      (result.mapError Halt.refused).map ((before ++ [token]) ++ ·) := by
  cases result with
  | error diagnostic => rfl
  | ok others => exact congrArg Except.ok (List.append_cons before token others)

/-- A step of a loop that has enough of them. -/
theorem run_of_step
    {scanner : Scanner} {current : Char} {following : List Char} {position : Position}
    {steps : Nat}
    (follows : scanner.Follows ⟨current :: following, position⟩)
    (enough : following.length + 1 < steps) :
    ∃ fewer, following.length < fewer ∧
      scanner.run steps = scanner.step current >>= fun next => next.run fewer := by
  obtain ⟨fewer, rfl⟩ : ∃ fewer, steps = fewer + 1 := ⟨steps - 1, by omega⟩
  refine ⟨fewer, Nat.lt_of_succ_lt_succ enough, ?_⟩
  rw [run, follows.current?_eq]
  rfl

/-- The loop has the result of the scan. -/
theorem run_eq_scan
    {scanner : Scanner} {cursor : Cursor} {steps : Nat}
    (follows : scanner.Follows cursor)
    (enough : cursor.rest.length < steps) :
    scanner.run steps = ((scan cursor).mapError Halt.refused).map (scanner.tokens ++ ·) := by
  fun_induction scan cursor generalizing scanner steps with
  | case1 =>
      obtain ⟨fewer, rfl⟩ : ∃ fewer, steps = fewer + 1 := ⟨steps - 1, by omega⟩
      rw [run, follows.current?_eq]
      exact congrArg Except.ok (List.append_nil _).symm
  | case2 current following position isBlank inductionHypothesis =>
      obtain ⟨fewer, less, run⟩ := run_of_step follows enough
      rw [run, step, if_pos isBlank, ok_bind]
      exact inductionHypothesis (follows.advance (Nat.le_add_left 1 following.length)) less
  | case3 current following position notBlank isPair inductionHypothesis =>
      obtain ⟨fewer, less, run⟩ := run_of_step follows enough
      obtain ⟨rfl, isHead⟩ := isPair
      have width : 2 ≤ ('\r' :: following).length := by
        obtain ⟨rest, rfl⟩ := List.head?_eq_some_iff.mp isHead
        exact Nat.le_add_left 2 rest.length
      rw [run, follows.step_pair isHead, ok_bind]
      refine inductionHypothesis (follows.newLine width) ?_
      rw [Cursor.rest_newLine, List.length_drop]
      exact Nat.lt_of_le_of_lt (Nat.sub_le_sub_left (Nat.le_succ 1) _) less
  | case4 current following position notBlank notPair isBreak inductionHypothesis =>
      obtain ⟨fewer, less, run⟩ := run_of_step follows enough
      rw [run, follows.step_lineBreak notBlank notPair isBreak, ok_bind]
      exact inductionHypothesis (follows.newLine (Nat.le_add_left 1 following.length)) less
  | case5 current following position notBlank notPair notBreak isComment found =>
      obtain ⟨fewer, _, run⟩ := run_of_step follows enough
      obtain ⟨rfl, isHead⟩ := isComment
      rw [run, follows.step_comment isHead, found]
      rfl
  | case6 current following position notBlank notPair notBreak isComment comment found
      inductionHypothesis =>
      obtain ⟨fewer, less, run⟩ := run_of_step follows enough
      obtain ⟨rfl, isHead⟩ := isComment
      rw [run, follows.step_comment isHead, found]
      obtain ⟨_, stop, rest, _, rfl⟩ := (before?_eq_some_iff _ _ _).mp found
      have next := follows.advance
        (by simp : comment.length + 1 ≤ ('/' :: (comment ++ stop :: rest)).length)
      refine inductionHypothesis next (Nat.lt_of_le_of_lt ?_ less)
      simp
  | case7 current following position notBlank notPair notBreak notComment kind isPunctuation
      inductionHypothesis =>
      obtain ⟨fewer, less, run⟩ := run_of_step follows enough
      have next := (follows.push (ofPunctuation kind current position)).advance
        (Nat.le_add_left 1 following.length)
      rw [run, follows.step_of_not_comment notBlank notBreak notComment, isPunctuation]
      exact (inductionHypothesis next less).trans (map_append_cons _ _ _).symm
  | case8 current following position notBlank notPair notBreak notComment notPunctuation found =>
      obtain ⟨fewer, _, run⟩ := run_of_step follows enough
      have undelimited := (not_delimiter_iff current).mpr
        ⟨Bool.eq_false_iff.mpr notBlank, Bool.eq_false_iff.mpr notBreak, notPunctuation⟩
      rw [run, follows.step_word undelimited, found]
      rfl
  | case9 current following position notBlank notPair notBreak notComment notPunctuation tail
      found word =>
      rename_i inductionHypothesis
      obtain ⟨fewer, less, run⟩ := run_of_step follows enough
      have undelimited := (not_delimiter_iff current).mpr
        ⟨Bool.eq_false_iff.mpr notBlank, Bool.eq_false_iff.mpr notBreak, notPunctuation⟩
      rw [run, follows.step_word undelimited, found]
      change (((ofWord (String.ofList word) (.onLine position word.length)).mapError
        Halt.refused >>= fun token => .ok ((scanner.push token).advance word.length)) >>= _) = _
      cases ofWord (String.ofList word) (.onLine position word.length) with
      | error diagnostic => rfl
      | ok token =>
          obtain ⟨_, stop, rest, _, rfl⟩ := (before?_eq_some_iff _ _ _).mp found
          have next := (follows.push token).advance
            (by simp [word] : word.length ≤ (current :: (tail ++ stop :: rest)).length)
          refine (inductionHypothesis next (Nat.lt_of_le_of_lt ?_ less)).trans
            (map_append_cons _ _ _).symm
          simp [word]

/-- The loop over a source ends with the tokens of the source or with what is wrong with it, in
no more steps than the source has characters and one to find its end. -/
theorem run_ofSource (source file : String) :
    (ofSource source file).run (source.length + 1) =
      (scanSource source file).mapError Halt.refused := by
  have run := run_eq_scan (Follows.ofSource source file) (Nat.lt_succ_self _)
  rw [Cursor.rest_ofSource, String.length_toList] at run
  rw [run, scanSource]
  cases scan (.ofSource source file) <;> rfl

end Scanner

end Token
end ScriptLang
