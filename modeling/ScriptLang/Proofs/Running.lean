import ScriptLang.Program.Basic

/-!
# Running actions

What an action does in a state, for each of the steps that actions are made of.
-/

namespace ScriptLang

variable {ε σ α β : Type}

@[simp] theorem ok_bind (value : α) (next : α -> Except ε β) :
    (Except.ok value >>= next) = next value := rfl

@[simp] theorem error_bind (fault : ε) (next : α -> Except ε β) :
    (Except.error fault >>= next : Except ε β) = .error fault := rfl

@[simp] theorem pure_eq_ok (value : α) : (pure value : Except ε α) = .ok value := rfl

@[simp] theorem throw_eq_error (fault : ε) : (throw fault : Except ε α) = .error fault := rfl

theorem bind_eq_ok_iff (first : Except ε α) (next : α -> Except ε β) (result : β) :
    (first >>= next) = .ok result ↔ ∃ value, first = .ok value ∧ next value = .ok result := by
  cases first with
  | ok value => simp
  | error fault => simp

theorem bind_eq_error_iff (first : Except ε α) (next : α -> Except ε β) (fault : ε) :
    (first >>= next) = .error fault ↔
      first = .error fault ∨ ∃ value, first = .ok value ∧ next value = .error fault := by
  cases first with
  | ok value => simp
  | error other => simp

theorem mapError_bind {ε' : Type}
    (change : ε -> ε') (first : Except ε α) (next : α -> Except ε β) :
    (first >>= next).mapError change =
      first.mapError change >>= fun value => (next value).mapError change := by
  cases first <;> rfl

/-- Several elements are read exactly if each of them is. -/
theorem isOk_mapM (read : α -> Except ε β) (list : List α) :
    (list.mapM read).isOk = true ↔ ∀ element ∈ list, (read element).isOk = true := by
  induction list with
  | nil => simp [Except.isOk, Except.toBool]
  | cons first rest inductionHypothesis =>
      rw [List.mapM_cons, List.forall_mem_cons, ← inductionHypothesis]
      cases read first with
      | error fault => simp [Except.isOk, Except.toBool]
      | ok value => cases rest.mapM read <;> simp [Except.isOk, Except.toBool]

/-- An element of a nonempty list is the first one or stands behind it. -/
theorem exists_cons_eq_append_cons_iff
    (first : α) (rest : List α) (condition : List α -> α -> Prop) :
    (∃ before element after, first :: rest = before ++ element :: after ∧
        condition before element) ↔
      condition [] first ∨ ∃ before element after, rest = before ++ element :: after ∧
        condition (first :: before) element := by
  constructor
  · rintro ⟨before, element, after, isList, holds⟩
    cases before with
    | nil =>
        cases isList
        exact .inl holds
    | cons other before =>
        cases isList
        exact .inr ⟨before, element, after, rfl, holds⟩
  · rintro (holds | ⟨before, element, after, rfl, holds⟩)
    · exact ⟨[], first, rest, rfl, holds⟩
    · exact ⟨first :: before, element, after, rfl, holds⟩

/-- Reading several elements fails as the first of them that cannot be read. -/
theorem mapM_eq_error_iff (read : α -> Except ε β) (list : List α) (fault : ε) :
    list.mapM read = .error fault ↔
      ∃ before element after, list = before ++ element :: after ∧
        (∀ earlier ∈ before, (read earlier).isOk = true) ∧ read element = .error fault := by
  induction list with
  | nil => simp
  | cons first rest inductionHypothesis =>
      rw [List.mapM_cons, bind_eq_error_iff, exists_cons_eq_append_cons_iff]
      have failsLater (value : β) : (rest.mapM read >>= fun values => pure (value :: values)) =
          .error fault ↔ rest.mapM read = .error fault := by
        cases rest.mapM read <;> simp
      simp only [failsLater, inductionHypothesis, List.forall_mem_cons]
      cases read first with
      | error other => simp [Except.isOk, Except.toBool]
      | ok value => simp [Except.isOk, Except.toBool]

namespace Running

/-- An action that goes on after another one. -/
theorem bind_apply (first : EStateM ε σ α) (next : α -> EStateM ε σ β) (state : σ) :
    (first >>= next) state =
      match first state with
      | .ok value after => next value after
      | .error fault after => .error fault after := rfl

/-- An action that goes on after one that is done. -/
theorem bind_of_ok
    {first : EStateM ε σ α} {state after : σ} {value : α}
    (done : first state = .ok value after)
    (next : α -> EStateM ε σ β) :
    (first >>= next) state = next value after := by
  rw [bind_apply, done]

/-- An action does not go on after a fault. -/
theorem bind_of_error
    {first : EStateM ε σ α} {state after : σ} {fault : ε}
    (failed : first state = .error fault after)
    (next : α -> EStateM ε σ β) :
    (first >>= next) state = .error fault after := by
  rw [bind_apply, failed]

/-- Two actions are done if the second one is done behind the first one. -/
theorem bind_eq_ok_iff
    (first : EStateM ε σ α) (next : α -> EStateM ε σ β) (state final : σ) (result : β) :
    (first >>= next) state = .ok result final ↔
      ∃ value after, first state = .ok value after ∧ next value after = .ok result final := by
  rw [bind_apply]
  cases first state with
  | ok value after =>
      constructor
      · exact fun done => ⟨value, after, rfl, done⟩
      · rintro ⟨_, _, ⟨⟩, done⟩
        exact done
  | error fault after =>
      constructor
      · intro done
        cases done
      · rintro ⟨_, _, ⟨⟩, _⟩

/-- Two actions go on in the same way if they do so wherever the first step may lead. -/
theorem bind_congr
    {first : EStateM ε σ α} {next other : α -> EStateM ε σ β} {state : σ}
    (same : ∀ value after, first state = .ok value after -> next value after = other value after) :
    (first >>= next) state = (first >>= other) state := by
  rw [bind_apply, bind_apply]
  cases result : first state with
  | ok value after => exact same value after result
  | error fault after => rfl

@[simp] theorem pure_apply (value : α) (state : σ) :
    (pure value : EStateM ε σ α) state = .ok value state := rfl

@[simp] theorem throw_apply (fault : ε) (state : σ) :
    (throw fault : EStateM ε σ α) state = .error fault state := rfl

@[simp] theorem get_apply (state : σ) :
    (get : EStateM ε σ σ) state = .ok state state := rfl

@[simp] theorem set_apply (replacement state : σ) :
    (set replacement : EStateM ε σ PUnit) state = .ok ⟨⟩ replacement := rfl

@[simp] theorem modify_apply (change : σ -> σ) (state : σ) :
    (modify change : EStateM ε σ PUnit) state = .ok ⟨⟩ (change state) := rfl

@[simp] theorem liftExcept_ok (value : α) (state : σ) :
    (liftExcept (.ok value : Except ε α) : EStateM ε σ α) state = .ok value state := rfl

@[simp] theorem liftExcept_error (fault : ε) (state : σ) :
    (liftExcept (.error fault : Except ε α) : EStateM ε σ α) state = .error fault state := rfl

theorem liftExcept_ok_bind (value : α) (next : α -> EStateM ε σ β) :
    (liftExcept (.ok value : Except ε α) >>= next) = next value := rfl

/-- A result together with the state that it leaves. -/
def outcome : Except ε α -> σ -> EStateM.Result ε σ α
  | .ok value, state => .ok value state
  | .error fault, state => .error fault state

@[simp] theorem outcome_ok (value : α) (state : σ) :
    outcome (.ok value : Except ε α) state = .ok value state := rfl

@[simp] theorem outcome_error (fault : ε) (state : σ) :
    outcome (.error fault : Except ε α) state = .error fault state := rfl

/-- How an action goes on after one whose result is known. -/
def proceed (next : α -> EStateM ε σ β) : Except ε α -> σ -> EStateM.Result ε σ β
  | .ok value, state => next value state
  | .error fault, state => .error fault state

theorem bind_of_outcome
    {first : EStateM ε σ α} {result : Except ε α} {state after : σ}
    (done : first state = outcome result after)
    (next : α -> EStateM ε σ β) :
    (first >>= next) state = proceed next result after := by
  rw [bind_apply, done]
  cases result <;> rfl

@[simp] theorem proceed_ok (next : α -> EStateM ε σ β) (value : α) (state : σ) :
    proceed next (.ok value) state = next value state := rfl

@[simp] theorem proceed_error (next : α -> EStateM ε σ β) (fault : ε) (state : σ) :
    proceed next (.error fault) state = .error fault state := rfl

theorem liftExcept_apply (result : Except ε α) (state : σ) :
    (liftExcept result : EStateM ε σ α) state = outcome result state := by
  cases result <;> rfl

/-- An action ends well, with a value and a state that satisfy one condition, or with a fault
and a state that satisfy another one. -/
def Ends (good : α -> σ -> Prop) (bad : ε -> σ -> Prop) : EStateM.Result ε σ α -> Prop
  | .ok value after => good value after
  | .error fault after => bad fault after

namespace Ends

variable {good : α -> σ -> Prop} {bad : ε -> σ -> Prop}

@[simp] theorem ok_iff (value : α) (after : σ) :
    Ends good bad (.ok value after) ↔ good value after := Iff.rfl

@[simp] theorem error_iff (fault : ε) (after : σ) :
    Ends good bad (.error fault after) ↔ bad fault after := Iff.rfl

/-- A second step starts where the first one ends. -/
theorem bind
    {better : β -> σ -> Prop} {first : EStateM ε σ α} {state : σ}
    {next : α -> EStateM ε σ β}
    (ends : Ends good bad (first state))
    (nextEnds : ∀ value after, good value after -> Ends better bad (next value after)) :
    Ends better bad ((first >>= next) state) := by
  rw [bind_apply]
  cases result : first state with
  | ok value after =>
      rw [result] at ends
      exact nextEnds value after ends
  | error fault after =>
      rw [result] at ends
      exact ends

theorem imp
    {better : α -> σ -> Prop} {weaker : ε -> σ -> Prop} {result : EStateM.Result ε σ α}
    (ends : Ends good bad result)
    (improves : ∀ value after, good value after -> better value after)
    (weakens : ∀ fault after, bad fault after -> weaker fault after) :
    Ends better weaker result := by
  cases result with
  | ok value after => exact improves value after ends
  | error fault after => exact weakens fault after ends

end Ends

end Running
end ScriptLang
