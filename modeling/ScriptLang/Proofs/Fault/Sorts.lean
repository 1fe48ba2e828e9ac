import ScriptLang.Proofs.Running

/-!
# Sorts of faults

What a stage of the front end may fail with: the stages that read the text report
syntax errors, the analysis reports what it finds about types and symbols, and one
internal fault is left over.
-/

namespace ScriptLang

open Source (Position)

namespace Fault

/-- A fault of the text of a program. -/
inductive IsSyntax : Fault -> Prop
  | intro (cause : SyntaxCause) (position : Position) : IsSyntax (.ofSyntax cause position)

/-- The report that an expression leaves none or several operands. -/
inductive IsLeftover : Fault -> Prop
  | intro (count : Nat) (position : Position) :
      count ≠ 1 -> IsLeftover (.ofInternal (.leftoverOperands count) position)

/-- What the analysis may find about the types and symbols of a program. -/
inductive IsFinding : Fault -> Prop
  | type (cause : TypeCause) (position : Position) : IsFinding (.ofType cause position)
  | undeclared (name : String) (position : Position) :
      IsFinding (.report ⟨.undeclared name, position⟩)
  | uninitialized (name : String) (position : Position) :
      IsFinding (.report ⟨.uninitialized name, position⟩)
  | duplicate (name : String) (firstLine : Nat) (position : Position) :
      IsFinding (.report ⟨.duplicate name firstLine, position⟩)

/-- A fault that is reported at a place of the source. -/
def IsReport (fault : Fault) : Prop := ∃ diagnostic, fault = .report diagnostic

/-- A fault of the text is for the author of the program. -/
theorem IsSyntax.isInternal_eq_false
    {fault : Fault}
    (isSyntax : fault.IsSyntax) :
    fault.isInternal = false := by
  cases isSyntax
  rfl

theorem IsFinding.isInternal_eq_false
    {fault : Fault}
    (isFinding : fault.IsFinding) :
    fault.isInternal = false := by
  cases isFinding <;> rfl

end Fault

variable {α β : Type}

/-- A result is a value that satisfies one condition or a fault that satisfies another one. -/
def Yields (good : α -> Prop) (allowed : Fault -> Prop) : Except Fault α -> Prop
  | .ok value => good value
  | .error fault => allowed fault

namespace Yields

variable {good : α -> Prop} {allowed : Fault -> Prop}

@[simp] theorem ok_iff (value : α) :
    Yields good allowed (.ok value) ↔ good value := Iff.rfl

@[simp] theorem error_iff (fault : Fault) :
    Yields good allowed (.error fault) ↔ allowed fault := Iff.rfl

/-- A second step starts from what the first one yields. -/
theorem bind
    {better : β -> Prop} {first : Except Fault α} {next : α -> Except Fault β}
    (yields : Yields good allowed first)
    (nextYields : ∀ value, good value -> Yields better allowed (next value)) :
    Yields better allowed (first >>= next) := by
  cases first with
  | error fault => exact yields
  | ok value => exact nextYields value yields

/-- Second steps that agree on what the first one yields give the same result. -/
theorem bind_congr
    {first : Except Fault α} {next other : α -> Except Fault β}
    (yields : Yields good allowed first)
    (same : ∀ value, good value -> next value = other value) :
    first >>= next = first >>= other := by
  cases first with
  | error fault => rfl
  | ok value => exact same value yields

/-- More may be known of the value, and less asked of the fault. -/
theorem imp
    {better : α -> Prop} {weaker : Fault -> Prop} {result : Except Fault α}
    (yields : Yields good allowed result)
    (improves : ∀ value, result = .ok value -> good value -> better value)
    (weakens : ∀ fault, allowed fault -> weaker fault) :
    Yields better weaker result := by
  cases result with
  | error fault => exact weakens fault yields
  | ok value => exact improves value rfl yields

theorem fault
    {result : Except Fault α} {fault : Fault}
    (yields : Yields good allowed result)
    (failed : result = .error fault) :
    allowed fault := by
  rw [failed] at yields
  exact yields

theorem value
    {result : Except Fault α} {value : α}
    (yields : Yields good allowed result)
    (done : result = .ok value) :
    good value := by
  rw [done] at yields
  exact yields

end Yields
end ScriptLang
