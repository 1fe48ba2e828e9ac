import ScriptLang.Source.Line
import ScriptLang.Source.Position

/-!
# Places in a text

The place behind a text, found by cutting the text into its lines.  The place grows
with the text, and it leads back to the character that stands there: the line with
its number, counted over the whole source, has that character in its column.
-/

namespace ScriptLang
namespace Source

namespace Position

/-- One place of a file stands in front of another one. -/
def Before (first second : Position) : Prop :=
  first.line < second.line ∨ first.line = second.line ∧ first.column < second.column

theorem not_before_self (position : Position) : ¬ position.Before position := by
  unfold Before
  omega

theorem before_right
    {count : Nat}
    (position : Position)
    (positive : 0 < count) :
    position.Before (position.right count) := by
  unfold Before right
  dsimp only
  omega

theorem before_nextLine (position : Position) : position.Before position.nextLine := by
  unfold Before nextLine
  dsimp only
  omega

/-- The order of places is total. -/
theorem not_before_trans
    {first second third : Position}
    (secondFirst : ¬ second.Before first)
    (thirdSecond : ¬ third.Before second) :
    ¬ third.Before first := by
  unfold Before at *
  omega

theorem Before.of_before_of_not_before
    {first second third : Position}
    (before : first.Before second)
    (notBefore : ¬ third.Before second) :
    first.Before third := by
  unfold Before at *
  omega

theorem Before.not_before
    {first second : Position}
    (before : first.Before second) :
    ¬ second.Before first := by
  unfold Before at *
  omega

end Position

/-- The place behind a text that stands at the start of a file. -/
def placeBehind (file : String) (text : List Char) : Position where
  line := (lines text).length
  column := ((lines text).getLastD []).length
  file := file

/-- Two texts put together do not make a pair of line break characters. -/
def Uncut (first second : List Char) : Prop :=
  ¬ (first.getLast? = some '\r' ∧ second.head? = some '\n')

theorem Uncut.of_cons
    {character : Char} {first second : List Char}
    (uncut : Uncut (character :: first) second) :
    Uncut first second := by
  rintro ⟨ends, starts⟩
  refine uncut ⟨?_, starts⟩
  rw [List.getLast?_cons, ends]
  rfl

theorem uncut_of_unbroken
    {first second : List Char}
    (unbroken : ∀ character ∈ first, isLineBreak character = false) :
    Uncut first second := by
  rintro ⟨endsWithReturn, _⟩
  have inFirst := List.mem_of_getLast? endsWithReturn
  have notBreak := unbroken '\r' inFirst
  cases notBreak

theorem uncut_of_head
    {second : List Char}
    (first : List Char)
    (notFeed : second.head? ≠ some '\n') :
    Uncut first second :=
  fun cut => notFeed cut.2

theorem uncut_of_not_isLineBreak
    {character : Char}
    (notBreak : isLineBreak character = false)
    (first rest : List Char) :
    Uncut first (character :: rest) := by
  refine uncut_of_head first fun startsWithFeed => ?_
  cases startsWithFeed
  cases notBreak

/-- Every text has a last line. -/
theorem exists_lines_eq_concat (text : List Char) :
    ∃ earlier last, lines text = earlier ++ [last] :=
  ⟨_, _, (List.dropLast_concat_getLast (lines_ne_nil text)).symm⟩

theorem placeBehind_of_lines
    {text : List Char} {earlier : List (List Char)} {last : List Char}
    (file : String)
    (cut : lines text = earlier ++ [last]) :
    placeBehind file text = ⟨earlier.length + 1, last.length, file⟩ := by
  simp [placeBehind, cut]

/-- A character that is no break stands on the first line of a text. -/
theorem lines_cons_of_not_isLineBreak
    {character : Char}
    (notBreak : isLineBreak character = false)
    (rest : List Char) :
    lines (character :: rest) = prependToFirst character (lines rest) := by
  rw [lines, notBreak]
  · rfl
  · rintro other rfl _
    cases notBreak

/-- A break that is not the first half of a pair ends an empty first line. -/
theorem lines_cons_of_isLineBreak
    {character : Char} {rest : List Char}
    (isBreak : isLineBreak character = true)
    (notPair : ¬ (character = '\r' ∧ rest.head? = some '\n')) :
    lines (character :: rest) = [] :: lines rest := by
  rw [lines, isBreak]
  · rfl
  · rintro other rfl rfl
    exact notPair ⟨rfl, rfl⟩

/-- An empty line that is ended is not the last line of a text. -/
theorem exists_lines_of_nil_cons
    {rest : List Char} {earlier : List (List Char)} {last : List Char}
    (cut : [] :: lines rest = earlier ++ [last]) :
    ∃ others, earlier = [] :: others ∧ lines rest = others ++ [last] := by
  cases earlier with
  | nil =>
      obtain ⟨_, nothing⟩ := List.cons.inj cut
      exact absurd nothing (lines_ne_nil rest)
  | cons line others =>
      obtain ⟨rfl, restLines⟩ := List.cons.inj cut
      exact ⟨others, rfl, restLines⟩

/-- Whether the last line goes on does not matter for a character in front of the first line. -/
theorem prependToFirst_append_cons
    {character : Char}
    {start earlier : List (List Char)} {last wholeLast : List Char}
    (cut : prependToFirst character (start ++ [last]) = earlier ++ [wholeLast])
    (head : List Char) (others : List (List Char)) :
    prependToFirst character (start ++ (last ++ head) :: others) =
      earlier ++ (wholeLast ++ head) :: others := by
  cases start with
  | nil =>
      have one : [] ++ [character :: last] = earlier ++ [wholeLast] := cut
      obtain ⟨rfl, same⟩ := List.append_inj' one rfl
      obtain ⟨rfl, _⟩ := List.cons.inj same
      rfl
  | cons line start =>
      have more : ((character :: line) :: start) ++ [last] = earlier ++ [wholeLast] := cut
      obtain ⟨rfl, same⟩ := List.append_inj' more rfl
      obtain ⟨rfl, _⟩ := List.cons.inj same
      rfl

/-- When texts are put together, the last line of the first one goes on with the first line of
the second one. -/
theorem lines_append_of_uncut
    {first second : List Char}
    {earlier : List (List Char)} {last head : List Char} {others : List (List Char)}
    (uncut : Uncut first second)
    (firstLines : lines first = earlier ++ [last])
    (secondLines : lines second = head :: others) :
    lines (first ++ second) = earlier ++ (last ++ head) :: others := by
  fun_induction lines first generalizing earlier last with
  | case1 =>
      have one : [] ++ [[]] = earlier ++ [last] := firstLines
      obtain ⟨rfl, same⟩ := List.append_inj' one rfl
      obtain ⟨rfl, _⟩ := List.cons.inj same
      exact secondLines
  | case2 rest inductionHypothesis =>
      obtain ⟨earlier, rfl, restLines⟩ := exists_lines_of_nil_cons firstLines
      have whole := inductionHypothesis uncut.of_cons.of_cons restLines
      rw [List.cons_append, List.cons_append, lines_pair, whole]
      rfl
  | case3 character rest notPair isBreak inductionHypothesis =>
      have stillNotPair : ¬ (character = '\r' ∧ (rest ++ second).head? = some '\n') := by
        rintro ⟨rfl, starts⟩
        cases rest with
        | nil => exact uncut ⟨rfl, starts⟩
        | cons other rest =>
            cases starts
            exact notPair rest rfl rfl
      obtain ⟨earlier, rfl, restLines⟩ := exists_lines_of_nil_cons firstLines
      have whole := inductionHypothesis uncut.of_cons restLines
      rw [List.cons_append, lines_cons_of_isLineBreak isBreak stillNotPair, whole]
      rfl
  | case4 character rest notPair notBreak inductionHypothesis =>
      obtain ⟨restEarlier, restLast, restLines⟩ := exists_lines_eq_concat rest
      have whole := inductionHypothesis uncut.of_cons restLines
      rw [restLines] at firstLines
      rw [List.cons_append, lines_cons_of_not_isLineBreak (Bool.eq_false_iff.mpr notBreak), whole]
      exact prependToFirst_append_cons firstLines head others

/-- No line has a line break in it. -/
theorem unbroken_of_mem_lines
    {text line : List Char}
    (member : line ∈ lines text) :
    ∀ character ∈ line, isLineBreak character = false := by
  fun_induction lines text generalizing line with
  | case1 =>
      rw [List.mem_singleton.mp member]
      exact List.forall_mem_nil _
  | case2 rest inductionHypothesis =>
      obtain rfl | member := List.mem_cons.mp member
      · exact List.forall_mem_nil _
      · exact inductionHypothesis member
  | case3 character rest notPair isBreak inductionHypothesis =>
      obtain rfl | member := List.mem_cons.mp member
      · exact List.forall_mem_nil _
      · exact inductionHypothesis member
  | case4 character rest notPair notBreak inductionHypothesis =>
      obtain ⟨first, others, cut⟩ := List.exists_cons_of_ne_nil (lines_ne_nil rest)
      rw [cut] at inductionHypothesis member
      obtain rfl | member := List.mem_cons.mp member
      · exact List.forall_mem_cons.mpr
          ⟨Bool.eq_false_iff.mpr notBreak, inductionHypothesis List.mem_cons_self⟩
      · exact inductionHypothesis (List.mem_cons_of_mem _ member)

/-- The line with a number is one of the lines. -/
theorem mem_lines_of_line?
    {text line : List Char} {number : Nat}
    (isLine : line? text number = some line) :
    line ∈ lines text := by
  unfold line? at isLine
  split at isLine
  · cases isLine
  · exact List.mem_of_getElem? isLine

/-- A text without breaks is one line. -/
theorem lines_of_unbroken
    {text : List Char}
    (unbroken : ∀ character ∈ text, isLineBreak character = false) :
    lines text = [text] := by
  induction text with
  | nil => rfl
  | cons first rest inductionHypothesis =>
      obtain ⟨firstUnbroken, restUnbroken⟩ := List.forall_mem_cons.mp unbroken
      rw [lines_cons_of_not_isLineBreak firstUnbroken, inductionHypothesis restUnbroken]
      rfl

theorem lines_feed (rest : List Char) : lines ('\n' :: rest) = [] :: lines rest :=
  lines_cons_of_isLineBreak rfl fun isPair => by cases isPair.1

/-- A line feed ends a text without breaks as a line. -/
theorem lines_append_feed
    {text : List Char}
    (unbroken : ∀ character ∈ text, isLineBreak character = false)
    (rest : List Char) :
    lines (text ++ '\n' :: rest) = text :: lines rest := by
  have one : lines text = [] ++ [text] := lines_of_unbroken unbroken
  have whole := lines_append_of_uncut (uncut_of_unbroken unbroken) one (lines_feed rest)
  rw [List.append_nil] at whole
  exact whole

/-- Behind a line feed the lines of a text are those of the rest. -/
theorem exists_lines_append_feed (text rest : List Char) :
    ∃ above, lines (text ++ '\n' :: rest) = above ++ lines rest := by
  by_cases ends : text.getLast? = some '\r'
  · obtain ⟨start, rfl⟩ := List.getLast?_eq_some_iff.mp ends
    obtain ⟨earlier, last, cut⟩ := exists_lines_eq_concat start
    have whole := lines_append_of_uncut (uncut_of_head start (by simp)) cut (lines_pair rest)
    refine ⟨earlier ++ [last ++ []], ?_⟩
    rw [List.append_assoc, List.append_assoc]
    exact whole
  · obtain ⟨earlier, last, cut⟩ := exists_lines_eq_concat text
    have whole := lines_append_of_uncut (fun isCut => ends isCut.1) cut (lines_feed rest)
    refine ⟨earlier ++ [last ++ []], ?_⟩
    rw [List.append_assoc]
    exact whole

section

variable {before text : List Char} (file : String)

/-- A text without breaks keeps the line. -/
theorem placeBehind_append_of_unbroken
    (unbroken : ∀ character ∈ text, isLineBreak character = false) :
    placeBehind file (before ++ text) = (placeBehind file before).right text.length := by
  obtain ⟨earlier, last, cut⟩ := exists_lines_eq_concat before
  have uncut : Uncut before text := by
    refine uncut_of_head before fun startsWithFeed => ?_
    have notBreak := unbroken '\n' (List.mem_of_mem_head? startsWithFeed)
    cases notBreak
  have whole := lines_append_of_uncut uncut cut (lines_of_unbroken unbroken)
  rw [placeBehind_of_lines file whole, placeBehind_of_lines file cut, List.length_append]
  rfl

/-- A break leads to the next line. -/
theorem placeBehind_append_of_break
    (uncut : Uncut before text)
    (isBreak : lines text = [[], []]) :
    placeBehind file (before ++ text) = (placeBehind file before).nextLine := by
  obtain ⟨earlier, last, cut⟩ := exists_lines_eq_concat before
  have whole := lines_append_of_uncut uncut cut isBreak
  have again : lines (before ++ text) = (earlier ++ [last ++ []]) ++ [[]] := by
    rw [whole, List.append_assoc]
    rfl
  rw [placeBehind_of_lines file again, placeBehind_of_lines file cut, List.length_append]
  rfl

/-- The second half of a pair belongs to the break in front of it. -/
theorem placeBehind_append_of_cut
    (ends : before.getLast? = some '\r') :
    placeBehind file (before ++ ['\n']) = placeBehind file before := by
  obtain ⟨start, rfl⟩ := List.getLast?_eq_some_iff.mp ends
  rw [List.append_assoc, List.singleton_append,
    placeBehind_append_of_break file (uncut_of_head start (by simp)) rfl,
    placeBehind_append_of_break file (uncut_of_head start (by simp)) rfl]

/-- The place grows with the text. -/
theorem not_before_placeBehind_append (before text : List Char) :
    ¬ (placeBehind file (before ++ text)).Before (placeBehind file before) := by
  induction text generalizing before with
  | nil =>
      rw [List.append_nil]
      exact Position.not_before_self _
  | cons character rest inductionHypothesis =>
      have later := inductionHypothesis (before ++ [character])
      rw [List.append_assoc, List.singleton_append] at later
      refine Position.not_before_trans ?_ later
      cases isBreak : isLineBreak character with
      | false =>
          rw [placeBehind_append_of_unbroken file (List.forall_mem_singleton.mpr isBreak)]
          exact (Position.before_right _ Nat.zero_lt_one).not_before
      | true =>
          by_cases cut : before.getLast? = some '\r' ∧ character = '\n'
          · rw [cut.2, placeBehind_append_of_cut file cut.1]
            exact Position.not_before_self _
          · have uncut : Uncut before [character] := fun isCut =>
              cut ⟨isCut.1, Option.some.inj isCut.2⟩
            have oneBreak : lines [character] = [[], []] :=
              lines_cons_of_isLineBreak isBreak (by simp)
            rw [placeBehind_append_of_break file uncut oneBreak]
            exact (Position.before_nextLine _).not_before

end

/-- The line at the place behind the first of two texts: what the first text has of it, and what
the second text has of it. -/
theorem exists_line?_placeBehind
    {before rest head : List Char} {others : List (List Char)}
    (file : String)
    (uncut : Uncut before rest)
    (cut : lines rest = head :: others) :
    ∃ last, line? (before ++ rest) (placeBehind file before).line = some (last ++ head) ∧
      (placeBehind file before).column = last.length := by
  obtain ⟨earlier, last, beforeCut⟩ := exists_lines_eq_concat before
  have whole := lines_append_of_uncut uncut beforeCut cut
  refine ⟨last, ?_, ?_⟩
  · rw [placeBehind_of_lines file beforeCut, line?, if_neg (Nat.succ_ne_zero _), whole]
    simp
  · rw [placeBehind_of_lines file beforeCut]

/-- A character that is no break is found at its place. -/
theorem exists_line?_of_not_isLineBreak
    {before after : List Char} {character : Char}
    (file : String)
    (notBreak : isLineBreak character = false) :
    ∃ row, line? (before ++ character :: after) (placeBehind file before).line = some row ∧
      row[(placeBehind file before).column]? = some character := by
  obtain ⟨head, others, cut⟩ := List.exists_cons_of_ne_nil (lines_ne_nil after)
  have wholeCut : lines (character :: after) = (character :: head) :: others := by
    rw [lines_cons_of_not_isLineBreak notBreak, cut]
    rfl
  obtain ⟨last, isLine, column⟩ :=
    exists_line?_placeBehind file (uncut_of_not_isLineBreak notBreak before after) wholeCut
  refine ⟨_, isLine, ?_⟩
  rw [column, List.getElem?_append_right (Nat.le_refl _), Nat.sub_self]
  rfl

end Source
end ScriptLang
