import ScriptLang.Source.Cursor
import ScriptLang.Source.Line
import ScriptLang.Source.WhiteSpace
import ScriptLang.Token.Word

/-!
# Scanning

The first pass over a source cuts it into words and single characters of
punctuation, and leaves out blanks, line breaks and comments.  A word runs up to
the next blank, line break or punctuation, and a comment up to the next line
break; a source that ends inside a word or a comment is refused.
-/

namespace ScriptLang
namespace Token

open Source (Cursor Position Span)

/-- The kind of a single character of punctuation. -/
def punctuation? : Char -> Option TokenKind
  | ':' => some .colon
  | ';' => some .semicolon
  | '&' => some .and
  | '|' => some .or
  | '=' => some .equal
  | '!' => some .not
  | '<' => some .less
  | '>' => some .greater
  | '+' => some .plus
  | '-' => some .minus
  | '*' => some .asterisk
  | '/' => some .slash
  | '~' => some .tilde
  | '(' => some .openParenthesis
  | ')' => some .closeParenthesis
  | _ => none

/-- Whether a character ends a word. -/
def isDelimiter (character : Char) : Bool :=
  Source.isBlank character || Source.isLineBreak character ||
    (punctuation? character).isSome

/-- The characters of a list before the first one that satisfies a condition, if there is one. -/
def before? (stops : Char -> Bool) : List Char -> Option (List Char)
  | [] => none
  | character :: rest =>
      if stops character then some []
      else (before? stops rest).map (character :: ·)

/-- What is read has no stop in it, and the first character behind it is one. -/
theorem before?_eq_some_iff
    (stops : Char -> Bool) (text word : List Char) :
    before? stops text = some word ↔
      (∀ character ∈ word, stops character = false) ∧
        ∃ stop rest, stops stop = true ∧ text = word ++ stop :: rest := by
  induction text generalizing word with
  | nil => simp [before?]
  | cons character text inductionHypothesis =>
      cases isStop : stops character with
      | true =>
          simp only [before?, isStop, if_true, Option.some.injEq]
          constructor
          · rintro rfl
            exact ⟨by simp, character, text, isStop, rfl⟩
          · rintro ⟨noStop, stop, rest, _, equality⟩
            cases word with
            | nil => rfl
            | cons first word =>
                obtain ⟨rfl, _⟩ := List.cons.inj equality
                simp [isStop] at noStop
      | false =>
          simp only [before?, isStop, Bool.false_eq_true, if_false, Option.map_eq_some_iff,
            inductionHypothesis]
          constructor
          · rintro ⟨tail, ⟨noStop, stop, rest, stopIsStop, rfl⟩, rfl⟩
            refine ⟨?_, stop, rest, stopIsStop, rfl⟩
            simpa [isStop] using noStop
          · rintro ⟨noStop, stop, rest, stopIsStop, equality⟩
            cases word with
            | nil =>
                obtain ⟨rfl, _⟩ := List.cons.inj equality
                simp [isStop] at stopIsStop
            | cons first word =>
                obtain ⟨rfl, tailEquality⟩ := List.cons.inj equality
                exact ⟨word, ⟨fun other mem => noStop other (List.mem_cons_of_mem _ mem),
                  stop, rest, stopIsStop, tailEquality⟩, rfl⟩

/-- The token of a single character of punctuation. -/
def ofPunctuation (kind : TokenKind) (character : Char) (position : Position) : Token :=
  ⟨kind, character.toString, .onLine position 1, .empty⟩

/-- Cut the rest of a source into words and punctuation. -/
def scan : Cursor -> Except Diagnostic (List Token)
  | ⟨[], _⟩ => .ok []
  | cursor@⟨current :: following, position⟩ =>
      if Source.isBlank current then scan (cursor.advance 1)
      else if current = '\r' ∧ following.head? = some '\n' then scan (cursor.newLine 2)
      else if Source.isLineBreak current then scan (cursor.newLine 1)
      else if current = '/' ∧ following.head? = some '/' then
        match before? Source.isLineBreak following with
        | none => .error (.ofSyntax .unterminatedComment position)
        | some comment => scan (cursor.advance (comment.length + 1))
      else
        match punctuation? current with
        | some kind => do
            let others ← scan (cursor.advance 1)
            return ofPunctuation kind current position :: others
        | none =>
            match before? isDelimiter following with
            | none =>
                let word := String.ofList (Source.trimEnd (current :: following))
                .error (.ofSyntax (.unterminatedWord word) position)
            | some tail => do
                let word := current :: tail
                let token ← ofWord (String.ofList word) (.onLine position word.length)
                let others ← scan (cursor.advance word.length)
                return token :: others
termination_by cursor => cursor.rest.length
decreasing_by
  all_goals
    subst_vars
    simp only [Cursor.rest_advance, Cursor.rest_newLine, List.length_drop, List.length_cons]
    omega

end Token
end ScriptLang
