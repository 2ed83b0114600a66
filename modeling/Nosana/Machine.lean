import Mathlib.Data.List.Basic
import Mathlib.Order.Basic

set_option autoImplicit false

/- Runs of a machine whose steps can fail. A failed step leaves the state as it
was; the trace of a run lists the steps that succeeded, oldest first. -/
namespace Machine

variable {σ α ε : Type}

/-- One successful step. -/
structure Event (σ α : Type) where
  before : σ
  action : α
  after : σ

section

variable (step : σ → α → Except ε σ)

/-- One attempt, without effect when it fails. -/
def exec (state : σ) (action : α) : σ :=
  match step state action with
  | .ok next => next
  | .error _ => state

def run (start : σ) (actions : List α) : σ := actions.foldl (exec step) start

def trace (start : σ) : List α → List (Event σ α)
  | [] => []
  | action :: rest =>
    match step start action with
    | .ok next => ⟨start, action, next⟩ :: trace next rest
    | .error _ => trace start rest

/-- The states of a run: the first one, and the one after each step. -/
def reached (start : σ) (actions : List α) : List σ :=
  start :: (trace step start actions).map Event.after

@[simp] theorem run_nil (start : σ) : run step start [] = start := rfl

theorem run_cons (start : σ) (action : α) (rest : List α) :
    run step start (action :: rest) = run step (exec step start action) rest := rfl

variable {step}

theorem exec_of_ok {state next : σ} {action : α} (success : step state action = .ok next) :
    exec step state action = next := by
  simp only [exec, success]

theorem exec_of_error {state : σ} {action : α} {reason : ε}
    (failed : step state action = .error reason) : exec step state action = state := by
  simp only [exec, failed]

theorem trace_cons_of_ok {state next : σ} {action : α} (rest : List α)
    (success : step state action = .ok next) :
    trace step state (action :: rest) = ⟨state, action, next⟩ :: trace step next rest := by
  simp only [trace, success]

theorem trace_cons_of_error {state : σ} {action : α} {reason : ε} (rest : List α)
    (failed : step state action = .error reason) :
    trace step state (action :: rest) = trace step state rest := by
  simp only [trace, failed]

theorem reached_cons_of_ok {state next : σ} {action : α} (rest : List α)
    (success : step state action = .ok next) :
    reached step state (action :: rest) = state :: reached step next rest := by
  simp only [reached, trace_cons_of_ok rest success, List.map_cons]

theorem reached_cons_of_error {state : σ} {action : α} {reason : ε} (rest : List α)
    (failed : step state action = .error reason) :
    reached step state (action :: rest) = reached step state rest := by
  simp only [reached, trace_cons_of_error rest failed]

theorem run_append (start : σ) (first later : List α) :
    run step start (first ++ later) = run step (run step start first) later := List.foldl_append

theorem trace_append (start : σ) (first later : List α) :
    trace step start (first ++ later) =
      trace step start first ++ trace step (run step start first) later := by
  induction first generalizing start with
  | nil => rfl
  | cons action rest ih =>
      rw [List.cons_append, run_cons]
      cases outcome : step start action with
      | ok next =>
          rw [trace_cons_of_ok _ outcome, trace_cons_of_ok _ outcome, exec_of_ok outcome, ih]
          rfl
      | error reason =>
          rw [trace_cons_of_error _ outcome, trace_cons_of_error _ outcome,
            exec_of_error outcome, ih]

/-- Every recorded event is a step of the machine. -/
theorem mem_trace_step {start : σ} {actions : List α} {event : Event σ α}
    (member : event ∈ trace step start actions) :
    step event.before event.action = .ok event.after := by
  induction actions generalizing start with
  | nil => cases member
  | cons action rest ih =>
      cases outcome : step start action with
      | ok next =>
          rw [trace_cons_of_ok _ outcome, List.mem_cons] at member
          rcases member with rfl | later
          · exact outcome
          · exact ih later
      | error reason =>
          rw [trace_cons_of_error _ outcome] at member
          exact ih member

/-- Every recorded event comes from an action of the run. -/
theorem action_mem {start : σ} {actions : List α} {event : Event σ α}
    (member : event ∈ trace step start actions) : event.action ∈ actions := by
  induction actions generalizing start with
  | nil => cases member
  | cons action rest ih =>
      cases outcome : step start action with
      | ok next =>
          rw [trace_cons_of_ok _ outcome, List.mem_cons] at member
          rcases member with rfl | later
          · exact List.mem_cons_self
          · exact List.mem_cons_of_mem _ (ih later)
      | error reason =>
          rw [trace_cons_of_error _ outcome] at member
          exact List.mem_cons_of_mem _ (ih member)

/-- Whatever came before an event is the trace of a run of its own, and the event starts where
that run ends. -/
theorem exists_before {start : σ} {actions : List α} {past rest : List (Event σ α)}
    {event : Event σ α} (split : trace step start actions = past ++ event :: rest) :
    ∃ front, trace step start front = past ∧ run step start front = event.before := by
  induction actions generalizing start past with
  | nil => simp [trace] at split
  | cons action later ih =>
      cases outcome : step start action with
      | ok next =>
          rw [trace_cons_of_ok _ outcome] at split
          cases past with
          | nil =>
              obtain ⟨rfl, -⟩ := List.cons.inj split
              exact ⟨[], rfl, rfl⟩
          | cons first past =>
              obtain ⟨rfl, tail⟩ := List.cons.inj split
              obtain ⟨front, same, last⟩ := ih tail
              refine ⟨action :: front, ?_, ?_⟩
              · rw [trace_cons_of_ok _ outcome, same]
              · rw [run_cons, exec_of_ok outcome, last]
      | error reason =>
          rw [trace_cons_of_error _ outcome] at split
          exact ih split

/-- The beginning of a trace is the trace of a run of its own. -/
theorem exists_of_prefix {start : σ} {actions : List α} {past : List (Event σ α)}
    (inside : past <+: trace step start actions) : ∃ front, trace step start front = past := by
  obtain ⟨rest, split⟩ := inside
  cases rest with
  | nil => exact ⟨actions, by rw [← split, List.append_nil]⟩
  | cons event rest =>
      obtain ⟨front, same, -⟩ := exists_before split.symm
      exact ⟨front, same⟩

/-- What holds at the start and is kept by every step, given the past of that
step, holds of the trace and the final state of every run. -/
theorem run_induction {P : List (Event σ α) → σ → Prop} {start : σ} (base : P [] start)
    (next : ∀ past state action after, P past state → step state action = .ok after →
      P (past ++ [⟨state, action, after⟩]) after)
    (actions : List α) : P (trace step start actions) (run step start actions) := by
  suffices general : ∀ (rest : List α) (past : List (Event σ α)) (state : σ), P past state →
      P (past ++ trace step state rest) (run step state rest) by
    simpa using general actions [] start base
  intro rest
  induction rest with
  | nil =>
      intro past state holds
      simpa [trace] using holds
  | cons action rest ih =>
      intro past state holds
      rw [run_cons]
      cases outcome : step state action with
      | ok after =>
          have later := ih _ _ (next past state action after holds outcome)
          rw [trace_cons_of_ok _ outcome, exec_of_ok outcome]
          simpa using later
      | error reason =>
          rw [trace_cons_of_error _ outcome, exec_of_error outcome]
          exact ih past state holds

/-- The same, for runs whose steps are all allowed. -/
theorem guarded_induction {P : List (Event σ α) → σ → Prop} (allowed : Event σ α → Prop)
    {start : σ} (base : P [] start)
    (next : ∀ past state action after, P past state → step state action = .ok after →
      (∀ event ∈ past, allowed event) → allowed ⟨state, action, after⟩ →
      P (past ++ [⟨state, action, after⟩]) after)
    (actions : List α) (permitted : ∀ event ∈ trace step start actions, allowed event) :
    P (trace step start actions) (run step start actions) := by
  refine run_induction
    (P := fun past state => (∀ event ∈ past, allowed event) → P past state)
    (fun _ => base) ?_ actions permitted
  intro past state action after holds success all
  have earlier : ∀ event ∈ past, allowed event := fun event member =>
    all event (List.mem_append_left _ member)
  exact next past state action after (holds earlier) success earlier
    (all _ (by simp))

/-- An invariant of the allowed steps holds in the last state. -/
theorem guarded_invariant {P : σ → Prop} (allowed : Event σ α → Prop) {start : σ}
    (base : P start)
    (next : ∀ state action after, P state → step state action = .ok after →
      allowed ⟨state, action, after⟩ → P after)
    (actions : List α) (permitted : ∀ event ∈ trace step start actions, allowed event) :
    P (run step start actions) :=
  guarded_induction (P := fun _ state => P state) allowed base
    (fun _ state action after holds success _ now => next state action after holds success now)
    actions permitted

/-- An entry of the state that no allowed step takes away or changes beyond a relation is there in
the end, and still related to what it was. -/
theorem entry_kept {β : Type} {R : β → β → Prop}
    (trans : ∀ first second third, R first second → R second third → R first third)
    (view : σ → Option β) (allowed : Event σ α → Prop) {start : σ} {entry : β}
    (present : view start = some entry) (base : R entry entry)
    (next : ∀ state action after current, view state = some current → R entry current →
      step state action = .ok after → allowed ⟨state, action, after⟩ →
      ∃ later, view after = some later ∧ R current later)
    (actions : List α) (permitted : ∀ event ∈ trace step start actions, allowed event) :
    ∃ later, view (run step start actions) = some later ∧ R entry later := by
  refine guarded_invariant (P := fun state => ∃ later, view state = some later ∧ R entry later)
    allowed ⟨entry, present, base⟩ ?_ actions permitted
  rintro state action after ⟨current, now, related⟩ success permitted
  obtain ⟨later, last, kept⟩ := next state action after current now related success permitted
  exact ⟨later, last, trans entry current later related kept⟩

/-- An invariant of the allowed steps holds before and after each of them. -/
theorem guarded_trace {P : σ → Prop} (allowed : Event σ α → Prop) {start : σ}
    (base : P start)
    (next : ∀ state action after, P state → step state action = .ok after →
      allowed ⟨state, action, after⟩ → P after)
    (actions : List α) (permitted : ∀ event ∈ trace step start actions, allowed event) :
    ∀ event ∈ trace step start actions, P event.before ∧ P event.after := by
  have both := guarded_induction
    (P := fun past state => P state ∧ ∀ event ∈ past, P event.before ∧ P event.after)
    allowed ⟨base, by simp⟩ ?_ actions permitted
  · exact both.2
  · intro past state action after holds success _ now
    have kept := next state action after holds.1 success now
    refine ⟨kept, fun event member => ?_⟩
    rcases List.mem_append.mp member with earlier | last
    · exact holds.2 event earlier
    · rw [List.mem_singleton] at last
      rw [last]
      exact ⟨holds.1, kept⟩

/-- An invariant holds before and after every step. -/
theorem trace_invariant {P : σ → Prop} {start : σ} (base : P start)
    (next : ∀ state action after, P state → step state action = .ok after → P after)
    (actions : List α) : ∀ event ∈ trace step start actions, P event.before ∧ P event.after :=
  guarded_trace (fun _ => True) base
    (fun state action after holds success _ => next state action after holds success) actions
    fun _ _ => trivial

/-- An invariant holds in the last state. -/
theorem run_invariant {P : σ → Prop} {start : σ} (base : P start)
    (next : ∀ state action after, P state → step state action = .ok after → P after)
    (actions : List α) : P (run step start actions) :=
  run_induction (P := fun _ state => P state) base
    (fun _ state action after holds success => next state action after holds success) actions

theorem forall_reached {P : σ → Prop} {start : σ} {actions : List α} :
    (∀ state ∈ reached step start actions, P state) ↔
      P start ∧ ∀ event ∈ trace step start actions, P event.after := by
  simp [reached]

/-- An invariant holds in every state of the run. -/
theorem reached_invariant {P : σ → Prop} {start : σ} (base : P start)
    (next : ∀ state action after, P state → step state action = .ok after → P after)
    (actions : List α) : ∀ state ∈ reached step start actions, P state := by
  rw [forall_reached]
  exact ⟨base, fun event member => (trace_invariant base next actions event member).2⟩

/-- A run ends in one of its states. -/
theorem run_mem_reached (start : σ) (actions : List α) :
    run step start actions ∈ reached step start actions := by
  induction actions generalizing start with
  | nil => exact List.mem_singleton_self _
  | cons action rest ih =>
      rw [run_cons]
      cases outcome : step start action with
      | ok next =>
          rw [exec_of_ok outcome, reached, trace_cons_of_ok _ outcome]
          exact List.mem_cons_of_mem _ (ih next)
      | error reason =>
          rw [exec_of_error outcome, reached, trace_cons_of_error _ outcome]
          exact ih start

/-- What no step lowers is nowhere more than at the end. -/
theorem reached_le {β : Type} [Preorder β] {measure : σ → β}
    (grows : ∀ state action after, step state action = .ok after → measure state ≤ measure after)
    (start : σ) (actions : List α) :
    ∀ state ∈ reached step start actions, measure state ≤ measure (run step start actions) := by
  suffices both : measure start ≤ measure (run step start actions) ∧
      ∀ event ∈ trace step start actions,
        measure event.after ≤ measure (run step start actions) from forall_reached.mpr both
  refine run_induction (P := fun past state => measure start ≤ measure state ∧
    ∀ event ∈ past, measure event.after ≤ measure state) ⟨le_refl _, by simp⟩ ?_ actions
  intro past state action after before success
  have more := grows state action after success
  refine ⟨le_trans before.1 more, fun event member => ?_⟩
  rcases List.mem_append.mp member with earlier | last
  · exact le_trans (before.2 event earlier) more
  · rw [List.mem_singleton] at last
    rw [last]

/-- What the allowed steps keep, given the past, holds in every state of the run. -/
theorem guarded_reached {P : List (Event σ α) → σ → Prop} (allowed : Event σ α → Prop)
    {start : σ} (base : P [] start)
    (next : ∀ past state action after, P past state → step state action = .ok after →
      allowed ⟨state, action, after⟩ → P (past ++ [⟨state, action, after⟩]) after)
    (actions : List α) (permitted : ∀ event ∈ trace step start actions, allowed event) :
    ∀ state ∈ reached step start actions, ∃ past, P past state := by
  have both := guarded_induction
    (P := fun past state => P past state ∧ ∀ event ∈ past, ∃ earlier, P earlier event.after)
    allowed ⟨base, by simp⟩ ?_ actions permitted
  · rw [forall_reached]
    exact ⟨⟨[], base⟩, both.2⟩
  · intro past state action after holds success _ now
    have kept := next past state action after holds.1 success now
    refine ⟨kept, fun event member => ?_⟩
    rcases List.mem_append.mp member with earlier | last
    · exact holds.2 event earlier
    · rw [List.mem_singleton] at last
      rw [last]
      exact ⟨_, kept⟩

end

end Machine
