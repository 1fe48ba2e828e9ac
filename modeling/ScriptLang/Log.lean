import ScriptLang.Program.SymbolTable

/-!
# Log

The events that a run of the front end reports, as data, with the level and the
wording of each.
-/

namespace ScriptLang

/-- How important an event is. -/
inductive LogLevel
  | trace
  | debug
  | error
  deriving DecidableEq, Repr

namespace LogLevel

/-- The name of a level. -/
def name : LogLevel -> String
  | .trace => "TRACE"
  | .debug => "DEBUG"
  | .error => "ERROR"

end LogLevel

/-- Something that happened during a run. -/
inductive Event
  | tokenized (count : Nat)
  | token (token : Token)
  | parsedStatement (first : Token)
  | parsed (statements nodes : Nat) (file : String)
  | analyzing (statements : Nat)
  | declaring (identifier : String) (ty : Ty) (scope : NodeId)
  | declared (symbol : Symbol)
  | checked (file : String) (statements : Nat)
  | refused (file : String) (fault : Fault)
  deriving DecidableEq, Repr

namespace Event

/-- The level of an event.  Only a defect of the front end is an error of its log. -/
def level : Event -> LogLevel
  | .tokenized _ => .debug
  | .token _ => .trace
  | .parsedStatement _ => .trace
  | .parsed _ _ _ => .debug
  | .analyzing _ => .debug
  | .declaring _ _ _ => .trace
  | .declared _ => .trace
  | .checked _ _ => .debug
  | .refused _ fault => if fault.isInternal then .error else .debug

/-- The text that is shown in parentheses behind a token: that of names, literals and types. -/
def shownValue (token : Token) : String :=
  match token.kind with
  | .identifier | .literal | .typeKeyword => token.value
  | _ => ""

/-- The wording of an event. -/
def message : Event -> String
  | .tokenized count => s!"tokenized {count} tokens"
  | .token read => s!"{read.toText} ({shownValue read})"
  | .parsedStatement first => s!"parsed statement starting at {first.toText}"
  | .parsed statements nodes file =>
      s!"parsed {statements} statements ({nodes} nodes) from {file}"
  | .analyzing statements => s!"analyzing {statements} statements"
  | .declaring identifier ty scope =>
      s!"declaring `{identifier}: {ty.toText}` in scope {scope}"
  | .declared symbol =>
      s!"`{symbol.identifier}: {symbol.ty.toText}` declared on line {symbol.line}"
  | .checked file statements => s!"{file} checked: {statements} statements"
  | .refused file fault =>
      if fault.isInternal then
        s!"{file}: internal compiler error, please report this as a bug: {fault.toText}"
      else s!"{file}: {fault.toText}"

/-- An event is an error of the log exactly when it refuses a program for a defect of the
front end. -/
theorem level_eq_error_iff (event : Event) :
    event.level = .error ↔
      ∃ file fault, event = .refused file fault ∧ fault.isInternal = true := by
  cases event with
  | refused file fault =>
      constructor
      · intro atError
        exact ⟨file, fault, rfl, by simpa [level] using atError⟩
      · rintro ⟨_, _, equality, isInternal⟩
        cases equality
        simp [level, isInternal]
  | _ => simp [level]

end Event

/-- The events of a run in order. -/
abbrev Log := List Event

end ScriptLang
