import ScriptLang.Check
import ScriptLang.Diagnostic.Render
import ScriptLang.Proofs.Source.Bytes
import ScriptLang.Proofs.Token.LineWise

/-!
# Kinds of line breaks

A text in which every line break is a line feed.  It has the lines of the text that
it is made from, whatever breaks follow each other there.  Every stage of the front
end knows a source by its lines alone, so both texts are checked alike, and every
diagnostic is shown alike.
-/

namespace ScriptLang
namespace Source

/-- A text with a line feed for every carriage return and for every pair of both. -/
def withFeeds : List Char -> List Char
  | [] => []
  | '\r' :: '\n' :: rest => '\n' :: withFeeds rest
  | character :: rest => (if character = '\r' then '\n' else character) :: withFeeds rest

/-- A source with a line feed for every line break. -/
def feedsOnly (source : String) : String := String.ofList (withFeeds source.toList)

@[simp] theorem toList_feedsOnly (source : String) :
    (feedsOnly source).toList = withFeeds source.toList :=
  String.toList_ofList

/-- No carriage return is left. -/
theorem not_mem_withFeeds (text : List Char) : '\r' ∉ withFeeds text := by
  fun_induction withFeeds text with
  | case1 => exact List.not_mem_nil
  | case2 rest inductionHypothesis => simpa using inductionHypothesis
  | case3 character rest notPair inductionHypothesis =>
      apply List.not_mem_cons_of_ne_of_not_mem _ inductionHypothesis
      split
      · decide
      · exact fun isReturn => absurd isReturn.symm ‹character ≠ '\r'›

/-- A text without carriage returns stays as it is. -/
theorem withFeeds_eq_self
    {text : List Char}
    (noReturn : '\r' ∉ text) :
    withFeeds text = text := by
  fun_induction withFeeds text with
  | case1 => rfl
  | case2 rest inductionHypothesis => exact absurd List.mem_cons_self noReturn
  | case3 character rest notPair inductionHypothesis =>
      obtain ⟨notReturn, restNoReturn⟩ := List.ne_and_not_mem_of_not_mem_cons noReturn
      rw [inductionHypothesis restNoReturn, if_neg notReturn.symm]

/-- The kinds of line breaks do not matter for the lines of a text. -/
theorem lines_withFeeds (text : List Char) : lines (withFeeds text) = lines text := by
  fun_induction withFeeds text with
  | case1 => rfl
  | case2 rest inductionHypothesis => rw [lines_feed, lines_pair, inductionHypothesis]
  | case3 character rest notPair inductionHypothesis =>
      have isNoPair : ¬ (character = '\r' ∧ rest.head? = some '\n') := by
        rintro ⟨rfl, startsWithFeed⟩
        obtain ⟨others, rfl⟩ := List.head?_eq_some_iff.mp startsWithFeed
        exact notPair others rfl rfl
      cases isBreak : isLineBreak character with
      | true =>
          have becomesFeed : (if character = '\r' then '\n' else character) = '\n' := by
            simp only [isLineBreak, Bool.or_eq_true, decide_eq_true_eq] at isBreak
            split
            · rfl
            · exact isBreak.resolve_right ‹character ≠ '\r'›
          rw [becomesFeed, lines_feed, lines_cons_of_isLineBreak isBreak isNoPair,
            inductionHypothesis]
      | false =>
          have notReturn : character ≠ '\r' := by
            rintro rfl
            cases isBreak
          rw [if_neg notReturn, lines_cons_of_not_isLineBreak isBreak,
            lines_cons_of_not_isLineBreak isBreak, inductionHypothesis]

/-- The loop over bytes finds the same lines in two texts that have the same lines. -/
theorem byteRanges_of_lines_eq
    {first second : List Char}
    (same : lines first = lines second) :
    List.Forall₂
      (fun range other => ∃ line, IsRangeOf first range line ∧ IsRangeOf second other line)
      (byteRanges 0 0 (utf8 first)) (byteRanges 0 0 (utf8 second)) := by
  have firstRanges := byteRanges_eq_lines first
  have secondRanges := byteRanges_eq_lines second
  rw [same] at firstRanges
  revert firstRanges secondRanges
  generalize lines second = cut, byteRanges 0 0 (utf8 first) = ranges,
    byteRanges 0 0 (utf8 second) = others
  intro firstRanges secondRanges
  induction firstRanges generalizing others with
  | nil =>
      cases secondRanges
      exact .nil
  | cons isRange laterRanges inductionHypothesis =>
      cases secondRanges with
      | cons isOther laterOthers =>
          exact .cons ⟨_, isRange, isOther⟩ (inductionHypothesis _ laterOthers)

end Source

section

variable {first second : String}
variable (same : Source.lines first.toList = Source.lines second.toList)

include same

/-- The tokens of a source are determined by its lines. -/
theorem Token.tokenize_congr_lines (file : String) :
    tokenize first file = tokenize second file := by
  unfold tokenize
  rw [scanSource_eq_mapM, scanSource_eq_mapM, items, items, same]

/-- A run of the front end is determined by the lines of its source. -/
theorem check_congr_lines (file? : Option String) : check first file? = check second file? := by
  have sameTokens := Token.tokenize_congr_lines same (Run.fileName file?)
  simp only [check, Run.ofSource, sameTokens]

/-- A diagnostic is shown as the lines of its source determine. -/
theorem Diagnostic.render_congr_lines (diagnostic : Diagnostic) :
    diagnostic.render first = diagnostic.render second := by
  unfold render rows lineAt? Source.line?
  rw [same]

end

/-- A source is checked, and its diagnostics are shown, as if all its line breaks were line feeds,
and the loop over its bytes finds the same lines. -/
theorem check_feedsOnly (source : String) :
    (∀ file?, check (Source.feedsOnly source) file? = check source file?) ∧
      (∀ diagnostic : Diagnostic,
        diagnostic.render (Source.feedsOnly source) = diagnostic.render source) ∧
      List.Forall₂
        (fun range other => ∃ line,
          Source.IsRangeOf source.toList range line ∧
            Source.IsRangeOf (Source.feedsOnly source).toList other line)
        (Source.byteRanges 0 0 source.toUTF8.data.toList)
        (Source.byteRanges 0 0 (Source.feedsOnly source).toUTF8.data.toList) := by
  have same : Source.lines (Source.feedsOnly source).toList = Source.lines source.toList := by
    rw [Source.toList_feedsOnly, Source.lines_withFeeds]
  refine ⟨check_congr_lines same, Diagnostic.render_congr_lines same, ?_⟩
  rw [Source.toList_toUTF8, Source.toList_toUTF8]
  exact Source.byteRanges_of_lines_eq same.symm

end ScriptLang
