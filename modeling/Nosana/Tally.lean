import Mathlib.Algebra.BigOperators.Group.List.Basic
import Mathlib.Algebra.Order.Monoid.Defs
import Nosana.Interleaving

set_option autoImplicit false

/- What the history of a run amounts to. When every step balances what it adds against what it takes
away, so does every run; when something can always be done about what is left, all of it can; and
what steps only overwrite is what was written last. -/
namespace Machine

variable {σ α ε M : Type} [AddCommMonoid M]

/-- What the events of a history amount to. -/
def tally (amount : Event σ α → M) (history : List (Event σ α)) : M := (history.map amount).sum

@[simp] theorem tally_nil (amount : Event σ α → M) : tally amount [] = 0 := rfl

@[simp] theorem tally_concat (amount : Event σ α → M) (past : List (Event σ α))
    (event : Event σ α) : tally amount (past ++ [event]) = tally amount past + amount event := by
  simp only [tally, List.map_append, List.sum_append, List.map_cons, List.map_nil, List.sum_cons,
    List.sum_nil, add_zero]

theorem tally_add (first second : Event σ α → M) (history : List (Event σ α)) :
    tally (fun event => first event + second event) history =
      tally first history + tally second history := List.sum_map_add

/-- What there is at the end and what went are what there was and what came. -/
theorem tally_balance {step : σ → α → Except ε σ} {P : σ → Prop} {start : σ} {measure : σ → M}
    {gains losses : Event σ α → M} (base : P start)
    (next : ∀ state action after, P state → step state action = .ok after → P after)
    (balanced : ∀ state action after, P state → step state action = .ok after →
      measure after + losses ⟨state, action, after⟩ = measure state + gains ⟨state, action, after⟩)
    (actions : List α) :
    measure (run step start actions) + tally losses (trace step start actions) =
      measure start + tally gains (trace step start actions) := by
  refine (run_induction (P := fun past state => P state ∧
    measure state + tally losses past = measure start + tally gains past) ⟨base, by simp⟩ ?_
    actions).2
  rintro past state action after ⟨holds, earlier⟩ success
  have now := balanced state action after holds success
  refine ⟨next state action after holds success, ?_⟩
  rw [tally_concat, tally_concat]
  calc
    measure after + (tally losses past + losses ⟨state, action, after⟩)
      = measure after + losses ⟨state, action, after⟩ + tally losses past := by
        rw [add_comm (tally losses past), add_assoc]
    _ = measure state + tally losses past + gains ⟨state, action, after⟩ := by
        rw [now, add_right_comm]
    _ = measure start + (tally gains past + gains ⟨state, action, after⟩) := by
        rw [earlier, add_assoc]

/-- What every allowed step keeps up to what it takes away, every run does. -/
theorem tally_le [Preorder M] [AddRightMono M] {step : σ → α → Except ε σ} {P : σ → Prop}
    {start : σ} (measure : σ → M) {losses : Event σ α → M} (allowed : Event σ α → Prop)
    (base : P start)
    (next : ∀ state action after, P state → step state action = .ok after → P after)
    (kept : ∀ state action after, P state → step state action = .ok after →
      allowed ⟨state, action, after⟩ →
      measure state ≤ measure after + losses ⟨state, action, after⟩)
    (actions : List α) (permitted : ∀ event ∈ trace step start actions, allowed event) :
    measure start ≤
      measure (run step start actions) + tally losses (trace step start actions) := by
  refine (guarded_induction (P := fun past state => P state ∧
    measure start ≤ measure state + tally losses past) allowed ⟨base, by simp⟩ ?_ actions
    permitted).2
  rintro past state action after ⟨holds, earlier⟩ success _ now
  have more := kept state action after holds success now
  refine ⟨next state action after holds success, ?_⟩
  rw [tally_concat]
  calc
    measure start ≤ measure state + tally losses past := earlier
    _ ≤ measure after + losses ⟨state, action, after⟩ + tally losses past :=
      add_le_add_left more _
    _ = measure after + (tally losses past + losses ⟨state, action, after⟩) := by
      rw [add_assoc, add_comm (losses _)]

/-- While something is left it can be made less, so a run that does not fail leaves nothing. -/
theorem exists_drained {step : σ → α → Except ε σ} {P : σ → Prop} {Q : Event σ α → Prop}
    (rank : σ → Nat)
    (progress : ∀ state, P state → rank state ≠ 0 → ∃ action after, step state action = .ok after ∧
      Q ⟨state, action, after⟩ ∧ P after ∧ rank after < rank state)
    {start : σ} (base : P start) :
    ∃ actions, Completes step start actions ∧ (∀ event ∈ trace step start actions, Q event) ∧
      P (run step start actions) ∧ rank (run step start actions) = 0 := by
  induction bound : rank start using Nat.strong_induction_on generalizing start with
  | _ left ih =>
      subst bound
      by_cases empty : rank start = 0
      · exact ⟨[], rfl, fun event member => (List.not_mem_nil member).elim, base, empty⟩
      · obtain ⟨action, after, success, allowed, kept, less⟩ := progress start base empty
        obtain ⟨rest, completes, permitted, holds, drained⟩ := ih _ less kept rfl
        refine ⟨action :: rest, completes_cons.mpr ⟨after, success, completes⟩, ?_, ?_, ?_⟩
        · rw [trace_cons_of_ok _ success]
          exact List.forall_mem_cons.mpr ⟨allowed, permitted⟩
        · rw [run_cons, exec_of_ok success]
          exact holds
        · rw [run_cons, exec_of_ok success]
          exact drained

variable {β : Type}

/-- What the events of a history wrote last. -/
def latest (written : Event σ α → Option β) (history : List (Event σ α)) : Option β :=
  (history.filterMap written).getLast?

theorem latest_concat (written : Event σ α → Option β) (past : List (Event σ α))
    (event : Event σ α) :
    latest written (past ++ [event]) = (written event).or (latest written past) := by
  unfold latest
  cases wrote : written event <;> simp [wrote]

/-- What is there was written last, when every step leaves it or writes it. -/
theorem eq_latest {step : σ → α → Except ε σ} (view : σ → Option β)
    {written : Event σ α → Option β} {start : σ} (base : view start = none)
    (next : ∀ state action after value, step state action = .ok after → view after = some value →
      (written ⟨state, action, after⟩).or (view state) = some value)
    (actions : List α) {value : β} (present : view (run step start actions) = some value) :
    latest written (trace step start actions) = some value := by
  refine run_induction (P := fun past state => ∀ value, view state = some value →
    latest written past = some value) ?_ ?_ actions value present
  · intro value here
    rw [base] at here
    cases here
  · intro past state action after earlier success value here
    have wrote := next state action after value success here
    rw [latest_concat]
    cases fresh : written ⟨state, action, after⟩ with
    | some other =>
        rw [fresh] at wrote
        exact wrote
    | none =>
        rw [fresh] at wrote
        exact earlier value wrote

end Machine
