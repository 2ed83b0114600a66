import Mathlib.Logic.Basic

set_option autoImplicit false

/- Methods that change a state step by step and can fail in between. -/

/-- What a method has done to the state before it fails stays done. -/
abbrev Method (ε σ : Type) := ExceptT ε (StateM σ)

namespace Method

variable {ε σ : Type}

/-- Continue only when the condition holds. -/
def require (condition : Prop) [Decidable condition] (error : ε) : Method ε σ Unit :=
  if condition then pure () else throw error

def call (method : Method ε σ Unit) (state : σ) : Except ε Unit × σ := (method.run.run state).run

/-- The state that a method leaves when it succeeds. -/
def finish (method : Method ε σ Unit) (state : σ) : Except ε σ :=
  match method.call state with
  | (.ok _, next) => .ok next
  | (.error reason, _) => .error reason

theorem call_require (condition : Prop) [Decidable condition] (error : ε) (rest : Method ε σ Unit)
    (state : σ) : call (do require condition error; rest) state =
      if condition then rest.call state else (.error error, state) := by
  unfold require
  split <;> rfl

/-- The method succeeds exactly when the condition holds. It then takes the state to the next one,
and otherwise leaves it as it was. -/
structure Atomic (method : Method ε σ Unit) (valid : Prop) (next : σ → σ) : Prop where
  succeeds : ∀ state, valid → method.call state = (.ok (), next state)
  fails : ∀ state, ¬ valid → ∃ reason, method.call state = (.error reason, state)

namespace Atomic

variable {method rest : Method ε σ Unit} {valid : Prop} {next : σ → σ}

/-- A method that cannot fail. -/
theorem of_total (same : ∀ state, method.call state = (.ok (), next state)) :
    Atomic method True next :=
  ⟨fun state _ => same state, fun _ impossible => (impossible trivial).elim⟩

theorem congr {other : Prop} (atomic : Atomic method valid next) (same : valid ↔ other) :
    Atomic method other next :=
  ⟨fun state holds => atomic.succeeds state (same.mpr holds),
    fun state fails => atomic.fails state (mt same.mp fails)⟩

/-- A condition in front of everything that changes the state. -/
theorem require {condition : Prop} [Decidable condition] {error : ε}
    (atomic : Atomic rest valid next) :
    Atomic (do Method.require condition error; rest) (condition ∧ valid) next := by
  constructor
  · rintro state ⟨met, valid⟩
    rw [call_require, if_pos met]
    exact atomic.succeeds state valid
  · intro state invalid
    rw [call_require]
    by_cases met : condition
    · rw [if_pos met]
      exact atomic.fails state fun valid => invalid ⟨met, valid⟩
    · rw [if_neg met]
      exact ⟨error, rfl⟩

theorem ok_iff (atomic : Atomic method valid next) (state : σ) :
    (method.call state).1 = .ok () ↔ valid := by
  by_cases met : valid
  · rw [atomic.succeeds state met]
    exact ⟨fun _ => met, fun _ => rfl⟩
  · obtain ⟨reason, failed⟩ := atomic.fails state met
    rw [failed]
    exact ⟨nofun, fun holds => absurd holds met⟩

theorem of_ok (atomic : Atomic method valid next) {state : σ}
    (success : (method.call state).1 = .ok ()) : (method.call state).2 = next state := by
  rw [atomic.succeeds state ((atomic.ok_iff state).mp success)]

theorem of_error (atomic : Atomic method valid next) {state : σ} {reason : ε}
    (failure : (method.call state).1 = .error reason) : (method.call state).2 = state := by
  have invalid : ¬ valid := by
    intro met
    rw [(atomic.ok_iff state).mpr met] at failure
    cases failure
  obtain ⟨other, failed⟩ := atomic.fails state invalid
  rw [failed]

theorem finish_eq_ok (atomic : Atomic method valid next) {state result : σ} :
    method.finish state = .ok result ↔ valid ∧ next state = result := by
  unfold finish
  by_cases met : valid
  · simp [atomic.succeeds state met, met]
  · obtain ⟨reason, failed⟩ := atomic.fails state met
    simp [failed, met]

end Atomic

end Method
