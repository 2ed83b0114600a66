import Nosana.JobsConsistency

set_option autoImplicit false

/- When a listed job is sure to wait or to run, so that its deposit can be claimed back. -/
namespace Nosana.Jobs

open Checked

/-- A queued job waits in the queue of its market or has a run; every other job has
ended. -/
def JobPlaced (s : State) (key : Pubkey) (job : JobAccount) : Prop :=
  (job.state = JobState.queued.toU8 ∧
    ((∃ market, s.markets.lookup job.market = some market ∧
        market.queueType = QueueType.job.toU8 ∧ key ∈ market.queue) ∨
      ∃ runKey run, s.runs.lookup runKey = some run ∧ run.job = key)) ∨
  job.state = JobState.done.toU8 ∨ job.state = JobState.stopped.toU8

def JobsPlaced (s : State) : Prop :=
  ∀ key job, s.jobs.lookup key = some job → JobPlaced s key job

theorem jobPlaced_iff {s : State} {key : Pubkey} {job : JobAccount} :
    JobPlaced s key job ↔ s.board.Accounted key job.ticket := by
  have waits : s.board.Waiting key job.market ↔
      ∃ market, s.markets.lookup job.market = some market ∧
        market.queueType = QueueType.job.toU8 ∧ key ∈ market.queue := by
    simp [Board.Waiting, State.board, MarketAccount.line]
  have runs : (∃ run, s.board.run run = some key) ↔
      ∃ runKey run, s.runs.lookup runKey = some run ∧ run.job = key := by
    simp [State.board]
  simp only [JobPlaced, Board.Accounted, JobAccount.ticket, waits, runs]
  rw [or_comm, or_assoc]

theorem jobsPlaced_iff {s : State} : JobsPlaced s ↔ s.board.Placed := by
  simp only [JobsPlaced, jobPlaced_iff, Board.Placed]
  constructor
  · intro placed key ticket present
    obtain ⟨job, found, rfl⟩ := Option.map_eq_some_iff.mp present
    exact placed key job found
  · intro placed key job present
    exact placed key job.ticket (State.board_job present)

variable [Runtime]

/-- Listing in a market that takes no orders strands the job. -/
theorem strands_step {s s' : State} {action : Action} (strands : action.Strands s)
    (success : step s action = .ok s') :
    ∃ job market, s.board.job job = none ∧
      s'.board = s.board.setJob job (some (.queued market)) := by
  cases step_effect success with
  | listQueued posted waiting known =>
      obtain ⟨market, present, unknown, -⟩ := strands
      have same := Option.some.inj (present.symm.trans posted.present)
      exact absurd (same ▸ unknown) known
  | @listStranded a ipfsJob timeout market job tokens posted waiting unknown =>
      have same := Finmap.lookup_map_insert_same MarketAccount.line posted.present rfl
      refine ⟨a.job, a.market, (State.board_fresh posted.fresh).2.1, ?_⟩
      simp only [State.board, same, Finmap.lookup_map_insert JobAccount.ticket, posted.ticket]
      rfl
  | listMatched posted waiting first freshRun =>
      obtain ⟨market, present, -, other⟩ := strands
      have same := Option.some.inj (present.symm.trans posted.present)
      exact absurd (same ▸ waiting) other
  | closeMarket closing =>
      rcases closing with rfl | rfl <;> exact strands.elim
  | _ => exact strands.elim

/-- In a run without admin instructions every job stays placed exactly when no job is
listed in a market of unknown job type where no node waits. -/
theorem jobs_placed_iff_no_job_stranded {s : State} (genesis : Genesis s) (actions : List Action)
    (ordinary : ∀ event ∈ trace s actions, event.action.Ordinary ∧
      event.action.quitsAdmin = false) :
    (∀ state ∈ reached s actions, JobsPlaced state) ↔
      ∀ event ∈ trace s actions, ¬ event.action.Strands event.before := by
  have start : s.board.Placed := by
    intro key ticket present
    simp [State.board, genesis.jobs] at present
  have consistent := Machine.guarded_trace (P := fun s => s.board.Consistent)
    (fun event : Event => event.action.Ordinary) genesis.consistent
    (fun _ _ _ consistent success allowed => consistent_step consistent allowed success)
    actions fun event member => (ordinary event member).1
  simp only [jobsPlaced_iff]
  constructor
  · intro placed event member strands
    obtain ⟨job, market, fresh, after⟩ := strands_step strands (Machine.mem_trace_step member)
    have still := (Machine.forall_reached.mp placed).2 event member
    rw [after] at still
    exact (consistent event member).1.stranded fresh still
  · intro never
    refine Machine.forall_reached.mpr ⟨start, fun event member => ?_⟩
    refine (Machine.guarded_trace (P := fun s => s.board.Consistent ∧ s.board.Placed)
      (fun event : Event => (event.action.Ordinary ∧ event.action.quitsAdmin = false) ∧
        ¬ event.action.Strands event.before) ⟨genesis.consistent, start⟩ ?_ actions
      (fun event member => ⟨ordinary event member, never event member⟩) event member).2.2
    intro state action after holds success allowed
    obtain ⟨consistent, placed⟩ := holds
    obtain ⟨⟨ordinary, kept⟩, safe⟩ := allowed
    refine ⟨consistent_step consistent ordinary success, ?_⟩
    rcases step_board ordinary success with move | ⟨-, strands | quits⟩
    · exact placed.move consistent move
    · exact absurd strands safe
    · rw [kept] at quits
      cases quits

omit [Runtime] in
theorem jobs_placed_iff_no_job_stranded_sample :
    (∀ state ∈ Sample.reached [Sample.openMarket 2 0, Sample.list Sample.job Sample.firstRun 30],
      JobsPlaced state) ↔
    ∀ event ∈ Sample.trace [Sample.openMarket 2 0, Sample.list Sample.job Sample.firstRun 30],
      ¬ event.action.Strands event.before :=
  @jobs_placed_iff_no_job_stranded Sample.runtime _ Sample.genesis _ (by decide +kernel)

omit [Runtime] in
/-- A market opened with job type 127 takes the deposit of a job and neither queues
nor runs it. -/
theorem listing_in_unknown_market_strands_job :
    (∀ event ∈ Sample.trace [Sample.openMarket 2 127,
        Sample.list Sample.job Sample.firstRun 30],
      event.action.Ordinary ∧ event.action.quitsAdmin = false) ∧
    (Sample.run [Sample.openMarket 2 127,
      Sample.list Sample.job Sample.firstRun 30]).tokens.balance Sample.vault = 60 ∧
    ¬ JobsPlaced (Sample.run [Sample.openMarket 2 127,
      Sample.list Sample.job Sample.firstRun 30]) := by
  refine ⟨by decide +kernel, by decide +kernel, fun placed => ?_⟩
  have held : ((Sample.run [Sample.openMarket 2 127,
      Sample.list Sample.job Sample.firstRun 30]).jobs.lookup Sample.job).map
        (fun job => (job.market, job.state)) = some (Sample.market, JobState.queued.toU8) := by
    decide +kernel
  have empty : ((Sample.run [Sample.openMarket 2 127,
      Sample.list Sample.job Sample.firstRun 30]).markets.lookup Sample.market).map
        MarketAccount.queue = some [] := by
    decide +kernel
  have idle : (Sample.run [Sample.openMarket 2 127,
      Sample.list Sample.job Sample.firstRun 30]).runs = ∅ := by
    decide +kernel
  obtain ⟨job, present, same⟩ := Option.map_eq_some_iff.mp held
  obtain ⟨market, state⟩ := Prod.mk.inj same
  rcases placed Sample.job job present with ⟨-, waits | ⟨run, account, live, -⟩⟩ | done | stopped
  · obtain ⟨account, opened, -, member⟩ := waits
    rw [market] at opened
    rw [opened] at empty
    rw [Option.some.inj empty] at member
    cases member
  · rw [idle] at live
    cases live
  · exact absurd (state.symm.trans done) (by decide)
  · exact absurd (state.symm.trans stopped) (by decide)

end Nosana.Jobs
