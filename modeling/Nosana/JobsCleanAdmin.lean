import Nosana.JobsClean
import Nosana.JobsQuitAdmin

set_option autoImplicit false

/- What is left of a job whose account an admin closed. Every other instruction that closes a
job account takes the job out of its queue, or finds it outside of all queues and runs. -/
namespace Nosana.Jobs

open Checked

/-- No queue of jobs and no run refers to an address. -/
structure Unreferenced (s : State) (key : Pubkey) : Prop where
  outside : ∀ home, ¬ WaitsIn s key home
  idle : ∀ run account, s.runs.lookup run = some account → account.job ≠ key

/-- A job account that an admin closes leaves no reference behind. -/
def CleansUp (event : Event) : Prop :=
  ∀ a, event.action = .instruction (.cleanAdmin a) → Unreferenced event.after a.job

/-- A node that takes the first job of a queue gets a run of a queued job of that market. -/
def Serves (event : Event) : Prop :=
  ∀ a market, event.action = .instruction (.work a) →
    event.before.markets.lookup a.market = some market →
    market.queueType = QueueType.job.toU8 →
    ∃ account job, event.after.runs.lookup a.run = some account ∧
      event.after.jobs.lookup account.job = some job ∧ job.market = a.market ∧
      job.state = JobState.queued.toU8

/-- An admin closes the account of a job that waits in the queue of its market, or runs. -/
def Action.Orphans (s : State) : Action → Prop
  | .instruction (.cleanAdmin a) => ∃ job ∈ s.jobs.lookup a.job,
      job.state = JobState.queued.toU8 ∧
        (WaitsIn s a.job job.market ∨
          ∃ run account, s.runs.lookup run = some account ∧ account.job = a.job)
  | _ => False

theorem unreferenced_of_loose {s : State} {key : Pubkey} (loose : s.board.Loose key) :
    Unreferenced s key := by
  refine ⟨fun home waits => ?_, fun run account live same => ?_⟩
  · obtain ⟨market, opened, tagged, member⟩ := waits
    exact loose.outside home market.line (State.board_queue opened) tagged member
  · have started := State.board_run live
    rw [same] at started
    exact loose.idle run started

theorem board_eraseJob (s : State) (key : Pubkey) :
    { s with jobs := s.jobs.erase key }.board = s.board.setJob key none := by
  simp only [State.board, Finmap.lookup_map_erase]
  rfl

variable [Runtime]

/-- A job that is not orphaned neither waits nor runs. -/
theorem loose_of_not_orphans {s s' : State} {a : Accounts.CleanAdmin}
    (consistent : s.board.Consistent)
    (success : step s (.instruction (.cleanAdmin a)) = .ok s')
    (kept : ¬ (Action.instruction (.cleanAdmin a)).Orphans s) :
    s.board.Loose a.job ∧ s' = { s with jobs := s.jobs.erase a.job } := by
  cases step_effect success with
  | closeMarket closing => rcases closing with same | same <;> cases same
  | @cleanAdmin a job present =>
      refine ⟨⟨fun home queue opened tagged member => ?_, fun run started => ?_⟩, rfl⟩
      · have ⟨queued, _⟩ := consistent.orders home queue a.job opened tagged member
        obtain ⟨found, inside, placed, state⟩ := State.queued_of_board queued
        cases present.symm.trans inside
        obtain ⟨market, stands, rfl⟩ := Option.map_eq_some_iff.mp opened
        exact kept ⟨job, present, state, Or.inl ⟨market, placed ▸ stands, tagged, member⟩⟩
      · obtain ⟨home, queued⟩ := consistent.runs run a.job started
        obtain ⟨found, inside, -, state⟩ := State.queued_of_board queued
        cases present.symm.trans inside
        obtain ⟨account, live, same⟩ := Option.map_eq_some_iff.mp started
        exact kept ⟨job, present, state, Or.inr ⟨run, account, live, same⟩⟩

/-- The matching stays consistent as long as no job is orphaned. -/
theorem consistent_step_of_not_orphans {s s' : State} {action : Action}
    (consistent : s.board.Consistent) (success : step s action = .ok s')
    (kept : ¬ action.Orphans s) : s'.board.Consistent := by
  cases cleans : action.cleansAdmin with
  | false => exact consistent_step_of_kept consistent cleans success
  | true =>
      cases step_effect success with
      | closeMarket closing => rcases closing with rfl | rfl <;> cases cleans
      | @cleanAdmin a job present =>
          have ⟨loose, _⟩ := loose_of_not_orphans consistent success kept
          rw [board_eraseJob]
          exact consistent.replaceJob loose none
      | _ => cases cleans

theorem serves_of_consistent {s s' : State} {action : Action} (consistent : s.board.Consistent)
    (success : step s action = .ok s') : Serves ⟨s, action, s'⟩ := by
  rintro a market same present tagged
  cases same
  cases step_effect success with
  | closeMarket closing => rcases closing with same | same <;> cases same
  | workQueued opened waiting | workIgnored opened waiting =>
      cases present.symm.trans opened
      exact absurd tagged waiting
  | @workMatched a account job rest opened waiting first freshRun =>
      cases present.symm.trans opened
      have member : job ∈ market.queue := by simp [first]
      obtain ⟨found, inside, placed, state, -⟩ :=
        (marketConsistent consistent opened).jobs waiting job member
      exact ⟨_, found, Finmap.lookup_insert _, inside, placed, state⟩

/-- Closing the account of an orphaned job leaves the queue or the run that refers to it. -/
theorem not_cleansUp_of_orphans {s s' : State} {action : Action}
    (success : step s action = .ok s') (orphans : action.Orphans s) :
    ¬ CleansUp ⟨s, action, s'⟩ := by
  intro cleans
  cases step_effect success with
  | closeMarket closing => rcases closing with rfl | rfl <;> exact orphans
  | @cleanAdmin a job present =>
      obtain ⟨found, -, -, waits | ⟨run, account, live, same⟩⟩ := orphans
      · exact (cleans a rfl).outside _ waits
      · exact (cleans a rfl).idle run account live same
  | _ => exact orphans

/-- The accounts that admins close leave no reference behind, and nodes that take a job always
get a queued job of the market, exactly when no admin closes the account of a job that waits or
runs. This also holds when markets are closed. -/
theorem no_dangling_reference_iff_no_job_orphaned {s : State} (genesis : Genesis s)
    (actions : List Action) :
    (∀ event ∈ trace s actions, CleansUp event ∧ Serves event) ↔
      ∀ event ∈ trace s actions, ¬ event.action.Orphans event.before := by
  constructor
  · intro holds event member orphans
    exact not_cleansUp_of_orphans (Machine.mem_trace_step member) orphans (holds event member).1
  · intro kept event member
    have ⟨before, after⟩ := Machine.guarded_trace (P := fun s => s.board.Consistent)
      (fun event : Event => ¬ event.action.Orphans event.before) genesis.consistent
      (fun _ _ _ consistent success kept => consistent_step_of_not_orphans consistent success kept)
      actions kept event member
    have success := Machine.mem_trace_step member
    refine ⟨fun a same => ?_, serves_of_consistent before success⟩
    have safe := kept event member
    rw [same] at success safe
    have ⟨loose, erased⟩ := loose_of_not_orphans before success safe
    apply unreferenced_of_loose
    rw [erased, board_eraseJob]
    exact loose.setJob a.job none

omit [Runtime] in
theorem no_dangling_reference_iff_no_job_orphaned_sample :
    (∀ event ∈ Sample.trace (Sample.finished ++ [Sample.cleanAdmin Sample.job]),
      CleansUp event ∧ Serves event) ↔
    ∀ event ∈ Sample.trace (Sample.finished ++ [Sample.cleanAdmin Sample.job]),
      ¬ event.action.Orphans event.before :=
  @no_dangling_reference_iff_no_job_orphaned Sample.runtime _ Sample.genesis _

/-- An admin closes the account of a job that waits, and a node takes it. -/
def Sample.orphaning : List Action :=
  [openMarket 2 0, list job firstRun 30, cleanAdmin job, work firstRun node]

omit [Runtime] in
/-- The queue still holds the job whose account was closed, and the node that takes it gets a run
of a job that does not exist. -/
theorem cleaned_job_is_taken :
    (∀ event ∈ Sample.trace Sample.orphaning, event.action.closesMarket = false) ∧
    ¬ (∀ event ∈ Sample.trace Sample.orphaning, CleansUp event ∧ Serves event) ∧
    (Sample.run Sample.orphaning).runs.lookup Sample.firstRun = some Sample.matched ∧
    (Sample.run Sample.orphaning).jobs.lookup Sample.job = none := by
  refine ⟨by decide +kernel, fun holds => ?_, by decide +kernel, by decide +kernel⟩
  have dangling : (Sample.trace Sample.orphaning).any (fun event =>
      match event.action with
      | .instruction (.cleanAdmin a) => (event.after.markets.lookup Sample.market).any fun market =>
          market.queueType == QueueType.job.toU8 && market.queue.contains a.job
      | _ => false) = true := by
    decide +kernel
  obtain ⟨event, member, points⟩ := List.any_eq_true.mp dangling
  split at points
  · rename_i a action
    obtain ⟨market, present, waits⟩ := (Option.any_eq_true _ _).mp points
    simp only [Bool.and_eq_true, beq_iff_eq, List.contains_iff_mem] at waits
    exact ((holds event member).1 a action).outside _ ⟨market, present, waits⟩
  · cases points

end Nosana.Jobs
