import Mathlib.Data.Finset.Card
import Mathlib.Data.List.Induction
import ScriptLang.Proofs.Typing.Footprint

/-!
# First registrations

A symbol table is a map in which the first symbol of every name wins.  The main
statement tells what any calls on a new table leave in it, and how the table answers
the next call, from the calls alone: a name stands for the symbol that was registered
first under it, which has a value if it came with one or was given one behind.
Programs change the tables of their scopes by such calls.
-/

namespace ScriptLang

open Source (Position)

namespace SymbolTable

/-- A call that may change a table.  A registration says where it is made. -/
inductive Call
  | register (symbol : Symbol) (position : Position)
  | markInitialized (identifier : String)
  deriving DecidableEq

/-- What a call answers: whether a symbol could be registered, or whether there was a symbol to
give a value. -/
inductive Answer
  | registered
  | refused (diagnostic : Diagnostic)
  | marked (isThere : Bool)
  deriving DecidableEq

/-- Whether an answer says that nothing could be done. -/
def Answer.isFailure : Answer -> Bool
  | .registered => false
  | .refused _ => true
  | .marked isThere => !isThere

/-- The answer to a call and the table that it leaves. -/
def perform (table : SymbolTable) : Call -> Answer × SymbolTable
  | .register symbol position =>
      match table.register symbol with
      | .ok extended => (.registered, extended)
      | .error issue => (.refused ⟨issue, position⟩, table)
  | .markInitialized identifier =>
      (.marked (table.contains identifier), table.markInitialized identifier)

/-- The table that several calls leave. -/
def run (table : SymbolTable) (calls : List Call) : SymbolTable :=
  calls.foldl (fun table call => (table.perform call).2) table

/-! ## What calls tell -/

/-- The name that a call registers a symbol under. -/
def Call.registeredName? : Call -> Option String
  | .register symbol _ => some symbol.identifier
  | .markInitialized _ => none

/-- The names that calls register symbols under, whether they are refused or not. -/
def registeredNames (calls : List Call) : List String := calls.filterMap Call.registeredName?

/-- Calls register a symbol, none in front of it registers one of the same name, and these are the
calls behind it. -/
def RegistersFirst (calls : List Call) (symbol : Symbol) (behind : List Call) : Prop :=
  ∃ before position, calls = before ++ .register symbol position :: behind ∧
    symbol.identifier ∉ registeredNames before

/-- A table is what calls on a new one leave, told from the calls alone. -/
structure FirstWins (calls : List Call) (table : SymbolTable) : Prop where
  /-- A name stands for the symbol that is registered first under it.  It has a value exactly if
  it is registered with one or the name is marked behind. -/
  found : ∀ name symbol, table.get? name = some symbol ↔
    ∃ first behind, RegistersFirst calls first behind ∧ first.identifier = name ∧
      symbol.identifier = name ∧ symbol.ty = first.ty ∧ symbol.line = first.line ∧
      (symbol.initialized = true ↔ first.initialized = true ∨ .markInitialized name ∈ behind)
  /-- A name that is never registered stands for nothing. -/
  missing : ∀ name, table.get? name = none ↔ name ∉ registeredNames calls
  /-- Every symbol in the table is what is found under its identifier. -/
  stored : ∀ symbol ∈ table.symbols, table.get? symbol.identifier = some symbol
  /-- There are as many symbols as different names. -/
  size : table.size = (registeredNames calls).toFinset.card
  /-- The next call registers a symbol exactly if its name is new. -/
  registered : ∀ symbol position, (table.perform (.register symbol position)).1 = .registered ↔
    symbol.identifier ∉ registeredNames calls
  /-- A symbol is refused exactly if its name is there, where it should be registered and with the
  line of the symbol that was registered first. -/
  refused : ∀ symbol position diagnostic,
    (table.perform (.register symbol position)).1 = .refused diagnostic ↔
      ∃ first behind, RegistersFirst calls first behind ∧ first.identifier = symbol.identifier ∧
        diagnostic = ⟨.duplicate symbol.identifier first.line, position⟩
  /-- There is a symbol to give a value exactly if the name is there. -/
  marked : ∀ name, (table.perform (.markInitialized name)).1 =
    .marked (decide (name ∈ registeredNames calls))
  /-- A call that fails leaves the table as it was. -/
  unchanged : ∀ call, (table.perform call).1.isFailure = true -> (table.perform call).2 = table

/-- A later table has all symbols of a table, each as it was or with a value. -/
def Retains (table later : SymbolTable) : Prop :=
  ∀ name symbol, table.get? name = some symbol ->
    later.get? name = some symbol ∨ later.get? name = some symbol.giveValue

/-! ## One call -/

section

variable (table : SymbolTable)

/-- A symbol is registered if its name is new. -/
theorem perform_register_of_get?_eq_none
    {symbol : Symbol}
    (fresh : table.get? symbol.identifier = none)
    (position : Position) :
    table.perform (.register symbol position) = (.registered, table.insert symbol fresh) := by
  rw [perform, register_of_get?_eq_none fresh]

/-- A symbol is refused if its name is there. -/
theorem perform_register_of_get?_eq_some
    {symbol first : Symbol}
    (found : table.get? symbol.identifier = some first)
    (position : Position) :
    table.perform (.register symbol position) =
      (.refused ⟨.duplicate symbol.identifier first.line, position⟩, table) := by
  rw [perform, register_of_get?_eq_some found]

/-- What was found before a registration is found behind it. -/
theorem get?_perform_register (symbol : Symbol) (position : Position) (name : String) :
    (table.perform (.register symbol position)).2.get? name =
      (table.get? name).or (if symbol.identifier = name then some symbol else none) := by
  cases found : table.get? symbol.identifier with
  | some first =>
      rw [perform_register_of_get?_eq_some table found]
      split
      · next same =>
          subst same
          rw [found, Option.some_or]
      · rw [Option.or_none]
  | none =>
      rw [perform_register_of_get?_eq_none table found, get?_insert]
      split
      · next same =>
          subst same
          rw [found, Option.none_or]
      · rw [Option.or_none]

/-- Giving one symbol a value changes no other. -/
theorem get?_perform_markInitialized (identifier name : String) :
    (table.perform (.markInitialized identifier)).2.get? name =
      (table.get? name).map fun symbol =>
        if identifier = name then symbol.giveValue else symbol := by
  rw [perform, get?_markInitialized]
  split
  · rfl
  · rw [Option.map_id_fun', id]

/-- A name that is not there cannot be given a value. -/
theorem markInitialized_of_get?_eq_none
    {identifier : String}
    (missing : table.get? identifier = none) :
    table.markInitialized identifier = table := by
  refine ext_get? fun name => ?_
  rw [get?_markInitialized]
  split
  · next same =>
      subst same
      rw [missing, Option.map_none]
  · rfl

theorem perform_register_eq_registered_iff (symbol : Symbol) (position : Position) :
    (table.perform (.register symbol position)).1 = .registered ↔
      table.get? symbol.identifier = none := by
  cases found : table.get? symbol.identifier with
  | some first => simp [perform_register_of_get?_eq_some table found]
  | none => simp [perform_register_of_get?_eq_none table found]

theorem perform_register_eq_refused_iff
    (symbol : Symbol) (position : Position) (diagnostic : Diagnostic) :
    (table.perform (.register symbol position)).1 = .refused diagnostic ↔
      ∃ first, table.get? symbol.identifier = some first ∧
        diagnostic = ⟨.duplicate symbol.identifier first.line, position⟩ := by
  cases found : table.get? symbol.identifier with
  | some first => simp [perform_register_of_get?_eq_some table found, eq_comm]
  | none => simp [perform_register_of_get?_eq_none table found]

/-- A call that fails changes nothing. -/
theorem perform_of_isFailure
    {call : Call}
    (isFailure : (table.perform call).1.isFailure = true) :
    (table.perform call).2 = table := by
  cases call with
  | register symbol position =>
      rw [perform] at isFailure ⊢
      split at isFailure
      · cases isFailure
      · rfl
  | markInitialized identifier =>
      refine table.markInitialized_of_get?_eq_none ?_
      simpa [perform, contains, Answer.isFailure] using isFailure

end

namespace Retains

theorem refl (table : SymbolTable) : table.Retains table := fun _ _ found => .inl found

theorem trans
    {first second third : SymbolTable}
    (before : first.Retains second)
    (behind : second.Retains third) :
    first.Retains third := by
  intro name symbol found
  rcases before name symbol found with same | given
  · exact behind name symbol same
  -- A value that is given twice is the same as one that is given once.
  · exact .inr ((behind name symbol.giveValue given).elim id id)

/-- No call takes a symbol or a value away. -/
theorem perform (table : SymbolTable) (call : Call) : table.Retains (table.perform call).2 := by
  intro name symbol found
  cases call with
  | register other position =>
      left
      rw [get?_perform_register, found, Option.some_or]
  | markInitialized identifier =>
      rw [get?_perform_markInitialized, found]
      split
      · exact .inr rfl
      · exact .inl rfl

theorem run (table : SymbolTable) (calls : List Call) : table.Retains (table.run calls) := by
  induction calls generalizing table with
  | nil => exact refl table
  | cons call calls inductionHypothesis =>
      exact (perform table call).trans (inductionHypothesis (table.perform call).2)

end Retains

/-! ## All calls -/

section

variable (calls : List Call)

theorem run_concat (table : SymbolTable) (call : Call) :
    table.run (calls ++ [call]) = ((table.run calls).perform call).2 := by
  rw [run, List.foldl_append]
  rfl

theorem registeredNames_append (more : List Call) :
    registeredNames (calls ++ more) = registeredNames calls ++ registeredNames more :=
  List.filterMap_append

/-- The symbol that comes first is registered by the last call or before it. -/
theorem registersFirst_concat_iff
    (call : Call) (symbol : Symbol) (behind : List Call) :
    RegistersFirst (calls ++ [call]) symbol behind ↔
      (∃ earlier, RegistersFirst calls symbol earlier ∧ behind = earlier ++ [call]) ∨
        (∃ position, call = .register symbol position) ∧ behind = [] ∧
          symbol.identifier ∉ registeredNames calls := by
  constructor
  · rintro ⟨before, position, isSplit, isFirst⟩
    rcases List.eq_nil_or_concat behind with rfl | ⟨earlier, last, rfl⟩
    · obtain ⟨rfl, isLast⟩ := List.append_inj' isSplit rfl
      exact .inr ⟨⟨position, List.singleton_inj.mp isLast⟩, rfl, isFirst⟩
    · rw [List.concat_eq_append, ← List.cons_append, ← List.append_assoc] at isSplit
      obtain ⟨rfl, isLast⟩ := List.append_inj' isSplit rfl
      rw [List.concat_eq_append, List.singleton_inj.mp isLast]
      exact .inl ⟨earlier, ⟨before, position, rfl, isFirst⟩, rfl⟩
  · rintro (⟨earlier, ⟨before, position, rfl, isFirst⟩, rfl⟩ | ⟨⟨position, rfl⟩, rfl, isFirst⟩)
    · exact ⟨before, position, by simp, isFirst⟩
    · exact ⟨calls, position, rfl, isFirst⟩

/-- What is missing behind all calls was never registered. -/
theorem get?_run_eq_none_iff (name : String) :
    (empty.run calls).get? name = none ↔ name ∉ registeredNames calls := by
  induction calls using List.reverseRecOn with
  | nil => simp [run, registeredNames]
  | append_singleton calls call inductionHypothesis =>
      rw [run_concat, registeredNames_append, List.mem_append, not_or, ← inductionHypothesis]
      cases call with
      | register symbol position =>
          rw [get?_perform_register, Option.or_eq_none_iff]
          simp [registeredNames, Call.registeredName?, eq_comm]
      | markInitialized identifier =>
          rw [get?_perform_markInitialized]
          split <;> simp [registeredNames, Call.registeredName?]

/-- A symbol after the calls behind its registration. -/
def valued (first : Symbol) (behind : List Call) : Symbol :=
  { first with
    initialized := first.initialized || decide (.markInitialized first.identifier ∈ behind) }

theorem valued_nil (first : Symbol) : valued first [] = first := by simp [valued]

theorem valued_concat_register
    (first symbol : Symbol) (position : Position) (behind : List Call) :
    valued first (behind ++ [.register symbol position]) = valued first behind := by
  simp [valued]

theorem valued_concat_markInitialized
    (first : Symbol) (identifier : String) (behind : List Call) :
    valued first (behind ++ [.markInitialized identifier]) =
      if identifier = first.identifier then (valued first behind).giveValue
      else valued first behind := by
  split
  · next same => simp [valued, same, Symbol.giveValue]
  · next other => simp [valued, Ne.symm other]

theorem eq_valued_iff (symbol first : Symbol) (behind : List Call) :
    symbol = valued first behind ↔
      symbol.identifier = first.identifier ∧ symbol.ty = first.ty ∧ symbol.line = first.line ∧
        (symbol.initialized = true ↔
          first.initialized = true ∨ .markInitialized first.identifier ∈ behind) := by
  obtain ⟨identifier, ty, initialized, line⟩ := symbol
  rw [valued, Symbol.mk.injEq, Bool.eq_iff_iff, Bool.or_eq_true, decide_eq_true_eq]
  exact and_congr_right fun _ => and_congr_right fun _ => and_comm

/-- The symbol that calls leave under a name is the first one of this name, after the calls behind
its registration. -/
def Leave (name : String) (symbol : Symbol) : Prop :=
  ∃ first behind, RegistersFirst calls first behind ∧ first.identifier = name ∧
    symbol = valued first behind

theorem leave_concat_register
    (other : Symbol) (position : Position) (name : String) (symbol : Symbol) :
    Leave (calls ++ [.register other position]) name symbol ↔
      Leave calls name symbol ∨
        name ∉ registeredNames calls ∧ other.identifier = name ∧ other = symbol := by
  simp only [Leave, registersFirst_concat_iff]
  constructor
  · rintro ⟨first, _, ⟨behind, isFirst, rfl⟩ | ⟨⟨_, ⟨⟩⟩, rfl, isNew⟩, rfl, rfl⟩
    · rw [valued_concat_register]
      exact .inl ⟨first, behind, isFirst, rfl, rfl⟩
    · exact .inr ⟨isNew, rfl, (valued_nil other).symm⟩
  · rintro (⟨first, behind, isFirst, rfl, rfl⟩ | ⟨isNew, rfl, rfl⟩)
    · refine ⟨first, _, .inl ⟨behind, isFirst, rfl⟩, rfl, ?_⟩
      rw [valued_concat_register]
    · exact ⟨other, [], .inr ⟨⟨position, rfl⟩, rfl, isNew⟩, rfl, (valued_nil other).symm⟩

theorem leave_concat_markInitialized (identifier name : String) (symbol : Symbol) :
    Leave (calls ++ [.markInitialized identifier]) name symbol ↔
      ∃ earlier, Leave calls name earlier ∧
        (if identifier = name then earlier.giveValue else earlier) = symbol := by
  simp only [Leave, registersFirst_concat_iff]
  constructor
  · rintro ⟨first, _, ⟨behind, isFirst, rfl⟩ | ⟨⟨_, ⟨⟩⟩, _⟩, rfl, rfl⟩
    exact ⟨_, ⟨first, behind, isFirst, rfl, rfl⟩,
      (valued_concat_markInitialized first identifier behind).symm⟩
  · rintro ⟨_, ⟨first, behind, isFirst, rfl, rfl⟩, rfl⟩
    exact ⟨first, _, .inl ⟨behind, isFirst, rfl⟩, rfl,
      (valued_concat_markInitialized first identifier behind).symm⟩

/-- What is found behind all calls is what they leave. -/
theorem get?_run_eq_some_iff (name : String) (symbol : Symbol) :
    (empty.run calls).get? name = some symbol ↔ Leave calls name symbol := by
  induction calls using List.reverseRecOn generalizing symbol with
  | nil => simp [run, Leave, RegistersFirst]
  | append_singleton calls call inductionHypothesis =>
      rw [run_concat]
      cases call with
      | register other position =>
          rw [get?_perform_register, Option.or_eq_some_iff, Option.ite_none_right_eq_some,
            Option.some.injEq, inductionHypothesis, get?_run_eq_none_iff, leave_concat_register]
      | markInitialized identifier =>
          simp only [get?_perform_markInitialized, Option.map_eq_some_iff, inductionHypothesis,
            leave_concat_markInitialized]

theorem contains_run (name : String) :
    (empty.run calls).contains name = decide (name ∈ registeredNames calls) := by
  rw [contains, Bool.eq_iff_iff, Option.isSome_iff_ne_none, ne_eq, get?_run_eq_none_iff, not_not,
    decide_eq_true_eq]

/-- There are as many symbols as different names. -/
theorem size_run : (empty.run calls).size = (registeredNames calls).toFinset.card := by
  have sameNames : (empty.run calls).names.toFinset = (registeredNames calls).toFinset := by
    ext name
    rw [List.mem_toFinset, List.mem_toFinset, mem_names_iff, ← Option.ne_none_iff_exists',
      ne_eq, get?_run_eq_none_iff, not_not]
  calc (empty.run calls).size
    _ = (empty.run calls).names.length := (List.length_map _).symm
    _ = (empty.run calls).names.toFinset.card :=
      (List.toFinset_card_of_nodup (nodup_names _)).symm
    _ = (registeredNames calls).toFinset.card := by rw [sameNames]

/-- A registration behind calls is refused with the line of the symbol that they register first. -/
theorem perform_run_eq_refused_iff
    (symbol : Symbol) (position : Position) (diagnostic : Diagnostic) :
    ((empty.run calls).perform (.register symbol position)).1 = .refused diagnostic ↔
      ∃ first behind, RegistersFirst calls first behind ∧ first.identifier = symbol.identifier ∧
        diagnostic = ⟨.duplicate symbol.identifier first.line, position⟩ := by
  rw [perform_register_eq_refused_iff]
  simp only [get?_run_eq_some_iff, Leave]
  constructor
  · rintro ⟨_, ⟨first, behind, isFirst, isName, rfl⟩, isDiagnostic⟩
    exact ⟨first, behind, isFirst, isName, isDiagnostic⟩
  · rintro ⟨first, behind, isFirst, isName, isDiagnostic⟩
    exact ⟨_, ⟨first, behind, isFirst, isName, rfl⟩, isDiagnostic⟩

end

/-- Calls on a new table make a map in which the first registration wins, whatever calls they are
and in whatever order.  More calls behind them take nothing away: there are not fewer symbols, and
each is as it was or has been given a value. -/
theorem run_firstWins (calls : List Call) :
    FirstWins calls (empty.run calls) ∧
      ∀ more, (empty.run calls).Retains (empty.run (calls ++ more)) ∧
        (empty.run calls).size ≤ (empty.run (calls ++ more)).size := by
  refine ⟨?_, fun more => ⟨?_, ?_⟩⟩
  · exact {
      found := by
        intro name symbol
        rw [get?_run_eq_some_iff, Leave]
        refine exists_congr fun first => exists_congr fun behind => and_congr_right fun _ =>
          and_congr_right ?_
        rintro rfl
        exact eq_valued_iff symbol first behind
      missing := get?_run_eq_none_iff calls
      stored := fun symbol member => (get?_eq_some_iff _ _ symbol).mpr ⟨member, rfl⟩
      size := size_run calls
      registered := by
        intro symbol position
        rw [perform_register_eq_registered_iff, get?_run_eq_none_iff]
      refused := perform_run_eq_refused_iff calls
      marked := by
        intro name
        rw [perform, contains_run]
      unchanged := fun call isFailure => perform_of_isFailure _ isFailure }
  · have isRun : empty.run (calls ++ more) = (empty.run calls).run more := List.foldl_append
    rw [isRun]
    exact .run _ more
  · rw [size_run, size_run]
    refine Finset.card_le_card fun name => ?_
    rw [List.mem_toFinset, List.mem_toFinset, registeredNames_append]
    exact List.mem_append_left _

-- A name is marked in vain before it is registered, and a symbol that is refused gives no value.
example :
    let calls : List Call := [.register ⟨"b", .int, false, 1⟩ default, .markInitialized "a",
      .register ⟨"a", .float, false, 2⟩ default, .register ⟨"b", .bool, true, 3⟩ default]
    (empty.run calls).symbols = [⟨"a", .float, false, 2⟩, ⟨"b", .int, false, 1⟩] := by
  decide +kernel

end SymbolTable

/-! ## Calls by programs -/

namespace Program

variable {program : Program} {scope : NodeId} {node : Node} {symbols : SymbolTable}

/-- A declaration in a scope is a registration in its table. -/
theorem declareIn_eq_perform
    (isNode : program.node scope = .ok node)
    (isScope : node.kind.symbols? = some symbols)
    (symbol : Symbol) (position : Position) :
    program.declareIn scope symbol position =
      match symbols.perform (.register symbol position) with
      | (.refused diagnostic, _) => .error (.report diagnostic)
      | (_, extended) => .ok (program.modifyKind scope (.withSymbols extended)) := by
  simp only [declareIn, isNode, ok_bind, isScope, SymbolTable.perform]
  cases symbols.register symbol <;> rfl

/-- A scope is said to have a variable unless the call to its table fails. -/
theorem markInitialized_eq_perform
    (isNode : program.node scope = .ok node)
    (isScope : node.kind.symbols? = some symbols)
    (identifier : String) :
    program.markInitialized scope identifier =
      let (answer, later) := symbols.perform (.markInitialized identifier)
      .ok (some (!answer.isFailure, program.modifyKind scope (.withSymbols later))) := by
  simp only [markInitialized, isNode, ok_bind, isScope, SymbolTable.perform,
    SymbolTable.Answer.isFailure, Bool.not_not]
  rfl

end Program
end ScriptLang
