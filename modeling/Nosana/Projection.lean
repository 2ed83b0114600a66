import Nosana.Machine

set_option autoImplicit false

/- A machine that is made of smaller ones. To a part of it, each of its steps is a step of the
part or nothing at all, so a run of the whole is a run of every part. -/
namespace Machine

variable {σ α ε τ β δ : Type}

/-- An event as a part of the machine sees it. -/
def Event.project (view : σ → τ) (seen : Event σ α → Option β) (event : Event σ α) :
    Option (Event τ β) :=
  (seen event).map fun action => ⟨view event.before, action, view event.after⟩

theorem Event.project_of_some {view : σ → τ} {seen : Event σ α → Option β} {event : Event σ α}
    {action : β} (label : seen event = some action) :
    event.project view seen = some ⟨view event.before, action, view event.after⟩ := by
  simp only [Event.project, label, Option.map_some]

theorem Event.project_of_none {view : σ → τ} {seen : Event σ α → Option β} {event : Event σ α}
    (label : seen event = none) : event.project view seen = none := by
  simp only [Event.project, label, Option.map_none]

/-- A part of a machine in all states with some invariant. -/
structure Part (step : σ → α → Except ε σ) (P : σ → Prop) (other : τ → β → Except δ τ)
    (view : σ → τ) (seen : Event σ α → Option β) : Prop where
  kept : ∀ event : Event σ α, P event.before → step event.before event.action = .ok event.after →
    P event.after
  own : ∀ event : Event σ α, P event.before → step event.before event.action = .ok event.after →
    ∀ action ∈ seen event, other (view event.before) action = .ok (view event.after)
  frame : ∀ event : Event σ α, P event.before → step event.before event.action = .ok event.after →
    seen event = none → view event.after = view event.before

namespace Part

variable {step : σ → α → Except ε σ} {P : σ → Prop} {other : τ → β → Except δ τ} {view : σ → τ}
  {seen : Event σ α → Option β}

/-- What happens to a part in a run of the whole is a run of the part. -/
theorem simulates (part : Part step P other view seen) {start : σ} (base : P start)
    (actions : List α) :
    trace other (view start) ((trace step start actions).filterMap seen) =
        (trace step start actions).filterMap (Event.project view seen) ∧
      run other (view start) ((trace step start actions).filterMap seen) =
        view (run step start actions) := by
  induction actions generalizing start with
  | nil => exact ⟨rfl, rfl⟩
  | cons action rest ih =>
      cases outcome : step start action with
      | error reason =>
          rw [trace_cons_of_error _ outcome, run_cons, exec_of_error outcome]
          exact ih base
      | ok next =>
          have ⟨events, last⟩ := ih (part.kept ⟨start, action, next⟩ base outcome)
          rw [trace_cons_of_ok _ outcome, run_cons, exec_of_ok outcome]
          cases label : seen ⟨start, action, next⟩ with
          | none =>
              have same := part.frame ⟨start, action, next⟩ base outcome label
              rw [List.filterMap_cons_none label,
                List.filterMap_cons_none (Event.project_of_none label), ← same]
              exact ⟨events, last⟩
          | some own =>
              have success := part.own ⟨start, action, next⟩ base outcome own label
              rw [List.filterMap_cons_some label,
                List.filterMap_cons_some (Event.project_of_some label)]
              constructor
              · rw [trace_cons_of_ok _ success, events]
              · rw [run_cons, exec_of_ok success, last]

/-- Every event of the part comes from an event of the whole. -/
theorem exists_event (part : Part step P other view seen) {start : σ} (base : P start)
    {actions : List α} {event : Event τ β}
    (member : event ∈ trace other (view start) ((trace step start actions).filterMap seen)) :
    ∃ whole ∈ trace step start actions, whole.project view seen = some event := by
  rw [(part.simulates base actions).1, List.mem_filterMap] at member
  exact member

/-- What holds of everything that a part sees holds of its own run. -/
theorem forall_trace (part : Part step P other view seen) {Q : Event τ β → Prop} {start : σ}
    (base : P start) {actions : List α}
    (all : ∀ event ∈ trace step start actions, ∀ own ∈ event.project view seen, Q own) :
    ∀ event ∈ trace other (view start) ((trace step start actions).filterMap seen), Q event := by
  intro event member
  obtain ⟨whole, inside, same⟩ := part.exists_event base member
  exact all whole inside event same

/-- What every step of a part keeps, every step of the whole keeps. -/
theorem lift (part : Part step P other view seen) {Q : τ → Prop}
    (next : ∀ state action after, Q state → other state action = .ok after → Q after)
    {event : Event σ α} (before : P event.before)
    (success : step event.before event.action = .ok event.after) (holds : Q (view event.before)) :
    Q (view event.after) := by
  cases label : seen event with
  | none =>
      rw [part.frame event before success label]
      exact holds
  | some own => exact next _ own _ holds (part.own event before success own label)

/-- An invariant of a part holds before and after every step of the whole. -/
theorem trace_invariant (part : Part step P other view seen) {Q : τ → Prop} {start : σ}
    (base : P start) (initial : Q (view start))
    (next : ∀ state action after, Q state → other state action = .ok after → Q after)
    (actions : List α) :
    ∀ event ∈ trace step start actions, Q (view event.before) ∧ Q (view event.after) := by
  have both := Machine.trace_invariant (P := fun state => P state ∧ Q (view state)) ⟨base, initial⟩
    (fun state action after holds success =>
      ⟨part.kept ⟨state, action, after⟩ holds.1 success,
        @lift _ _ _ _ _ _ _ _ _ _ _ part _ next ⟨state, action, after⟩ holds.1 success holds.2⟩)
          actions
  exact fun event member => ⟨(both event member).1.2, (both event member).2.2⟩

/-- A part of a part is a part of the whole. -/
theorem comp {υ γ ζ : Type} {third : υ → γ → Except ζ υ} {Q : τ → Prop} {look : τ → υ}
    {spot : Event τ β → Option γ} (part : Part step P other view seen)
    (inner : Part other Q third look spot) :
    Part step (fun state => P state ∧ Q (view state)) third (fun state => look (view state))
      fun event => (event.project view seen).bind spot where
  kept event before success := by
    refine ⟨part.kept event before.1 success, ?_⟩
    cases label : seen event with
    | none =>
        rw [part.frame event before.1 success label]
        exact before.2
    | some own => exact inner.kept ⟨_, own, _⟩ before.2 (part.own event before.1 success own label)
  own event before success action member := by
    cases label : seen event with
    | none =>
        rw [Event.project_of_none label] at member
        cases member
    | some own =>
        rw [Event.project_of_some label] at member
        exact inner.own _ before.2 (part.own event before.1 success own label) action member
  frame event before success unseen := by
    cases label : seen event with
    | none => rw [part.frame event before.1 success label]
    | some own =>
        rw [Event.project_of_some label] at unseen
        exact inner.frame _ before.2 (part.own event before.1 success own label) unseen

end Part

/-- A machine that also refuses what is not allowed. -/
def restrict (step : σ → α → Except ε σ) (allowed : α → Bool) (state : σ) (action : α) :
    Except (Option ε) σ :=
  if allowed action then (step state action).mapError some else .error none

@[simp] theorem restrict_eq_ok {step : σ → α → Except ε σ} {allowed : α → Bool} {state after : σ}
    {action : α} : restrict step allowed state action = .ok after ↔
      allowed action = true ∧ step state action = .ok after := by
  unfold restrict
  split
  · rename_i permitted
    cases step state action <;> simp [permitted, Except.mapError]
  · rename_i refused
    simp [refused]

/-- A run of what is allowed is not restricted. -/
theorem trace_restrict {step : σ → α → Except ε σ} {allowed : α → Bool} {start : σ}
    {actions : List α}
    (permitted : ∀ event ∈ trace step start actions, allowed event.action = true) :
    trace (restrict step allowed) start actions = trace step start actions ∧
      run (restrict step allowed) start actions = run step start actions := by
  induction actions generalizing start with
  | nil => exact ⟨rfl, rfl⟩
  | cons action rest ih =>
      cases outcome : step start action with
      | error reason =>
          have refused : ∃ other, restrict step allowed start action = .error other := by
            unfold restrict
            split
            · exact ⟨some reason, by rw [outcome]; rfl⟩
            · exact ⟨none, rfl⟩
          obtain ⟨other, failed⟩ := refused
          rw [trace_cons_of_error _ outcome] at permitted ⊢
          rw [trace_cons_of_error _ failed, run_cons, run_cons, exec_of_error outcome,
            exec_of_error failed]
          exact ih permitted
      | ok next =>
          rw [trace_cons_of_ok _ outcome] at permitted ⊢
          have ⟨now, later⟩ := List.forall_mem_cons.mp permitted
          have success : restrict step allowed start action = .ok next :=
            restrict_eq_ok.mpr ⟨now, outcome⟩
          have ⟨events, last⟩ := ih later
          rw [trace_cons_of_ok _ success, run_cons, run_cons, exec_of_ok outcome,
            exec_of_ok success, events, last]
          exact ⟨rfl, rfl⟩

end Machine
