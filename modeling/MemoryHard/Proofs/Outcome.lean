/-!
# Outcomes of steps in sequence

A step ends in a value or in a refusal, alone or together with a state.  The lemmas
open a sequence of two steps once the outcome of the first one is known, and take
a successful sequence apart.
-/

namespace MemoryHard

variable {α β ε ε' σ : Type}

@[simp] theorem ok_bind (value : α) (next : α → Except ε β) :
    (Except.ok value >>= next) = next value :=
  rfl

@[simp] theorem error_bind (reason : ε) (next : α → Except ε β) :
    (Except.error reason >>= next) = .error reason :=
  rfl

@[simp] theorem throw_eq_error (reason : ε) : (throw reason : Except ε α) = .error reason :=
  rfl

@[simp] theorem pure_eq_ok (value : α) : (pure value : Except ε α) = .ok value :=
  rfl

theorem bind_eq_ok_iff {first : Except ε α} {next : α → Except ε β} {result : β} :
    (first >>= next) = .ok result ↔ ∃ value, first = .ok value ∧ next value = .ok result := by
  cases first with
  | error reason => simp
  | ok value => simp

@[simp] theorem mapError_ok (rename : ε → ε') (value : α) :
    (Except.ok value).mapError rename = .ok value :=
  rfl

@[simp] theorem mapError_error (rename : ε → ε') (reason : ε) :
    (Except.error reason : Except ε α).mapError rename = .error (rename reason) :=
  rfl

theorem mapError_eq_ok_iff {outcome : Except ε α} {rename : ε → ε'} {value : α} :
    outcome.mapError rename = .ok value ↔ outcome = .ok value := by
  cases outcome with
  | error reason => simp
  | ok other => simp

theorem run_bind_of_ok {first : ExceptT ε (StateM σ) α} {state state' : σ} {value : α}
    (found : first.run.run state = (.ok value, state'))
    (next : α → ExceptT ε (StateM σ) β) :
    (first >>= next).run.run state = (next value).run.run state' := by
  rw [ExceptT.run_bind, StateT.run_bind, found]
  rfl

theorem run_bind_of_error {first : ExceptT ε (StateM σ) α} {state state' : σ} {reason : ε}
    (found : first.run.run state = (.error reason, state'))
    (next : α → ExceptT ε (StateM σ) β) :
    (first >>= next).run.run state = (.error reason, state') := by
  rw [ExceptT.run_bind, StateT.run_bind, found]
  rfl

theorem run_get (state : σ) :
    (get : ExceptT ε (StateM σ) σ).run.run state = (.ok state, state) :=
  rfl

/-- An outcome in which no state has a part leaves the state as it is. -/
theorem run_lift (outcome : Except ε α) (state : σ) :
    (liftM outcome : ExceptT ε (StateM σ) α).run.run state = (outcome, state) :=
  rfl

end MemoryHard
