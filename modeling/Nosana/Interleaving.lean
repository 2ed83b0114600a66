import Nosana.Machine
import Mathlib.Algebra.BigOperators.Group.List.Basic
import Mathlib.Data.List.Perm.Basic

set_option autoImplicit false

/- Runs of a machine whose actions have owners. When an action touches its owner's part of the
state only, what happens to an owner follows from its own actions, and does not depend on how the
actions of different owners are interleaved. -/
namespace Machine

/-- The elements of each owner stand in the same order. -/
def SameOrder {α κ : Type} [DecidableEq κ] (owner : α → κ) (first second : List α) : Prop :=
  ∀ key, first.filter (owner · = key) = second.filter (owner · = key)

theorem SameOrder.perm {α κ : Type} [DecidableEq κ] {owner : α → κ} {first second : List α}
    (same : SameOrder owner first second) : first.Perm second := by
  classical
  rw [List.perm_iff_count]
  intro element
  let mine : α → Bool := fun other => owner other = owner element
  have own : mine element = true := by simp [mine]
  calc first.count element
      = (first.filter mine).count element := (List.count_filter (p := mine) own).symm
    _ = (second.filter mine).count element := by rw [same (owner element)]
    _ = second.count element := List.count_filter (p := mine) own

/-- Neighbours of different owners can change places. -/
theorem sameOrder_swap {α κ : Type} [DecidableEq κ] {owner : α → κ} {left right : α}
    (apart : owner left ≠ owner right) (rest : List α) :
    SameOrder owner (left :: right :: rest) (right :: left :: rest) := by
  intro key
  by_cases mine : owner left = key
  · have other : owner right ≠ key := fun same => apart (mine.trans same.symm)
    simp [mine, other]
  · simp [List.filter_cons, mine]

variable {σ α ε κ β γ : Type} {step : σ → α → Except ε σ}

/-- No action of the run failed. -/
def Completes (step : σ → α → Except ε σ) (start : σ) (actions : List α) : Prop :=
  (trace step start actions).map Event.action = actions

theorem length_trace_le (start : σ) (actions : List α) :
    (trace step start actions).length ≤ actions.length := by
  induction actions generalizing start with
  | nil => exact Nat.le_refl _
  | cons action rest ih =>
      cases outcome : step start action with
      | ok next =>
          rw [trace_cons_of_ok _ outcome]
          exact Nat.succ_le_succ (ih next)
      | error reason =>
          rw [trace_cons_of_error _ outcome]
          exact Nat.le_succ_of_le (ih start)

theorem completes_cons {start : σ} {action : α} {rest : List α} :
    Completes step start (action :: rest) ↔
      ∃ next, step start action = .ok next ∧ Completes step next rest := by
  unfold Completes
  cases outcome : step start action with
  | ok next => simp [trace_cons_of_ok _ outcome]
  | error reason =>
      have short : (trace step start rest).length ≤ rest.length := length_trace_le start rest
      simp only [trace_cons_of_error _ outcome, reduceCtorEq, false_and, exists_false, iff_false]
      intro completes
      have long := congrArg List.length completes
      rw [List.length_map, List.length_cons] at long
      omega

theorem completes_append {start : σ} {first later : List α} :
    Completes step start (first ++ later) ↔
      Completes step start first ∧ Completes step (run step start first) later := by
  induction first generalizing start with
  | nil => exact ⟨fun completes => ⟨rfl, completes⟩, fun completes => completes.2⟩
  | cons action rest ih =>
      rw [List.cons_append, completes_cons, completes_cons]
      constructor
      · rintro ⟨next, success, completes⟩
        obtain ⟨earlier, after⟩ := ih.mp completes
        rw [run_cons, exec_of_ok success]
        exact ⟨⟨next, success, earlier⟩, after⟩
      · rintro ⟨⟨next, success, earlier⟩, after⟩
        rw [run_cons, exec_of_ok success] at after
        exact ⟨next, success, ih.mpr ⟨earlier, after⟩⟩

/-- What each step of a run gave out. -/
def records (step : σ → α → Except ε σ) (output : Event σ α → γ) (start : σ) (actions : List α) :
    List (α × γ) :=
  (trace step start actions).map fun event => (event.action, output event)

/-- An action moves its owner's view, gives out what follows from that view, and leaves every other
view alone. -/
structure Local [DecidableEq κ] (step : σ → α → Except ε σ) (allowed : α → Prop) (owner : α → κ)
    (view : κ → σ → β) (output : Event σ α → γ) (move : α → β → β) (result : α → β → γ) : Prop where
  own : ∀ event : Event σ α, allowed event.action →
    step event.before event.action = .ok event.after →
    view (owner event.action) event.after =
      move event.action (view (owner event.action) event.before)
  given : ∀ event : Event σ α, allowed event.action →
    step event.before event.action = .ok event.after →
    output event = result event.action (view (owner event.action) event.before)
  frame : ∀ event : Event σ α, allowed event.action →
    step event.before event.action = .ok event.after → ∀ key, key ≠ owner event.action →
    view key event.after = view key event.before

/-- What an owner's actions give out one after the other. -/
def results (move : α → β → β) (result : α → β → γ) : List α → β → List (α × γ)
  | [], _ => []
  | action :: rest, seen =>
      (action, result action seen) :: results move result rest (move action seen)

section

variable [DecidableEq κ] {allowed : α → Prop} {owner : α → κ} {view : κ → σ → β}
  {output : Event σ α → γ} {move : α → β → β} {result : α → β → γ}

/-- What a complete run does to an owner is what the owner's actions do alone. -/
theorem Local.run_eq (isolated : Local step allowed owner view output move result) {start : σ}
    {actions : List α} (all : ∀ action ∈ actions, allowed action)
    (completes : Completes step start actions) (key : κ) :
    view key (run step start actions) =
        (actions.filter (owner · = key)).foldl (fun seen action => move action seen)
          (view key start) ∧
      (records step output start actions).filter (fun record => owner record.1 = key) =
        results move result (actions.filter (owner · = key)) (view key start) := by
  induction actions generalizing start with
  | nil => exact ⟨rfl, rfl⟩
  | cons action rest ih =>
      obtain ⟨next, success, later⟩ := completes_cons.mp completes
      have now := all action List.mem_cons_self
      have ⟨seen, given⟩ := ih (fun other member => all other (List.mem_cons_of_mem _ member)) later
      rw [run_cons, exec_of_ok success, records, trace_cons_of_ok _ success, List.map_cons]
      rw [records] at given
      by_cases mine : owner action = key
      · subst mine
        have moved := isolated.own ⟨start, action, next⟩ now success
        have out := isolated.given ⟨start, action, next⟩ now success
        simp only [decide_true, List.filter_cons_of_pos, List.foldl_cons, results]
        rw [← moved, ← out]
        exact ⟨seen, congrArg _ given⟩
      · have kept := isolated.frame ⟨start, action, next⟩ now success key (Ne.symm mine)
        simp only [mine, decide_false, Bool.false_eq_true, not_false_eq_true,
          List.filter_cons_of_neg]
        rw [← kept]
        exact ⟨seen, given⟩

/-- Two complete runs that keep the order of each owner's actions do the same to every owner, and
give out the same. -/
theorem Local.reorder (isolated : Local step allowed owner view output move result) {start : σ}
    {first second : List α} (all : ∀ action ∈ first, allowed action)
    (others : ∀ action ∈ second, allowed action) (same : SameOrder owner first second)
    (firstCompletes : Completes step start first) (secondCompletes : Completes step start second) :
    (∀ key, view key (run step start first) = view key (run step start second)) ∧
      SameOrder (fun record => owner record.1) (records step output start first)
        (records step output start second) := by
  refine ⟨fun key => ?_, fun key => ?_⟩
  · rw [(isolated.run_eq all firstCompletes key).1, (isolated.run_eq others secondCompletes key).1,
      same key]
  · rw [(isolated.run_eq all firstCompletes key).2, (isolated.run_eq others secondCompletes key).2,
      same key]

end

/-- What every step changes in a way of its own is changed by a run in all these ways. -/
theorem fold_run {β : Type} {allowed : α → Prop} {output : Event σ α → γ} (measure : σ → β)
    (change : β → α × γ → β)
    (next : ∀ event : Event σ α, allowed event.action →
      step event.before event.action = .ok event.after →
      measure event.after = change (measure event.before) (event.action, output event))
    (start : σ) {actions : List α} (all : ∀ action ∈ actions, allowed action) :
    measure (run step start actions) =
      (records step output start actions).foldl change (measure start) := by
  induction actions generalizing start with
  | nil => rfl
  | cons action rest ih =>
      have now := all action List.mem_cons_self
      have later := fun start => ih start fun other member =>
        all other (List.mem_cons_of_mem _ member)
      rw [run_cons, records]
      cases outcome : step start action with
      | ok after =>
          rw [exec_of_ok outcome, trace_cons_of_ok _ outcome, later after,
            next ⟨start, action, after⟩ now outcome, List.map_cons, List.foldl_cons]
          rfl
      | error reason =>
          rw [exec_of_error outcome, trace_cons_of_error _ outcome]
          exact later start

/-- Complete or not, runs that give out the same, in any order, end with the same measure, if the
changes commute. -/
theorem fold_reorder {β : Type} {allowed : α → Prop} {output : Event σ α → γ} (measure : σ → β)
    (change : β → α × γ → β)
    (commutes : ∀ value first second,
      change (change value first) second = change (change value second) first)
    (next : ∀ event : Event σ α, allowed event.action →
      step event.before event.action = .ok event.after →
      measure event.after = change (measure event.before) (event.action, output event))
    {start : σ} {first second : List α} (all : ∀ action ∈ first, allowed action)
    (others : ∀ action ∈ second, allowed action)
    (same : (records step output start first).Perm (records step output start second)) :
    measure (run step start first) = measure (run step start second) := by
  rw [fold_run measure change next start all, fold_run measure change next start others]
  exact same.foldl_eq' (fun left _ right _ value => commutes value left right) (measure start)

/-- A quantity that every step changes by an amount of its own. -/
theorem measure_reorder {M : Type} [AddCommMonoid M] {allowed : α → Prop} {output : Event σ α → γ}
    (measure : σ → M) (change : α × γ → M)
    (next : ∀ event : Event σ α, allowed event.action →
      step event.before event.action = .ok event.after →
      measure event.after = measure event.before + change (event.action, output event))
    {start : σ} {first second : List α} (all : ∀ action ∈ first, allowed action)
    (others : ∀ action ∈ second, allowed action)
    (same : (records step output start first).Perm (records step output start second)) :
    measure (run step start first) = measure (run step start second) :=
  fold_reorder measure (fun value record => value + change record)
    (fun value left right => add_right_comm value (change left) (change right)) next all others same

end Machine
