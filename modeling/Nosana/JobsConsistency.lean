import Nosana.JobsBoard
import Nosana.JobsEffects

set_option autoImplicit false

/- The program refines the board: each of its steps is a move of the matching
protocol, so what the moves keep holds in every state it reaches. -/
namespace Nosana.Jobs

open Checked

def JobAccount.ticket (job : JobAccount) : Ticket := ⟨job.market, job.state⟩

/-- The board that a state of the program implements. -/
def State.board (s : State) : Board where
  queue key := (s.markets.lookup key).map MarketAccount.line
  job key := (s.jobs.lookup key).map JobAccount.ticket
  run key := (s.runs.lookup key).map RunAccount.job

namespace State

variable {s : State}

theorem board_queue {key : Pubkey} {market : MarketAccount}
    (present : s.markets.lookup key = some market) : s.board.queue key = some market.line := by
  simp only [board, present, Option.map_some]

theorem board_job {key : Pubkey} {job : JobAccount} (present : s.jobs.lookup key = some job) :
    s.board.job key = some job.ticket := by
  simp only [board, present, Option.map_some]

theorem board_run {key : Pubkey} {run : RunAccount} (live : s.runs.lookup key = some run) :
    s.board.run key = some run.job := by
  simp only [board, live, Option.map_some]

/-- A queued job on the board is a queued job account. -/
theorem queued_of_board {key market : Pubkey}
    (queued : s.board.job key = some (.queued market)) :
    ∃ job, s.jobs.lookup key = some job ∧ job.market = market ∧
      job.state = JobState.queued.toU8 := by
  obtain ⟨job, present, same⟩ := Option.map_eq_some_iff.mp queued
  simp only [JobAccount.ticket, Ticket.queued, Ticket.mk.injEq] at same
  exact ⟨job, present, same⟩

theorem board_fresh {key : Pubkey} (fresh : s.Vacant key) :
    s.board.queue key = none ∧ s.board.job key = none ∧ s.board.run key = none := by
  simp only [board, Finmap.lookup_eq_none.mpr fresh.1, Finmap.lookup_eq_none.mpr fresh.2.2.1,
    Finmap.lookup_eq_none.mpr fresh.2.2.2.1, Option.map_none, true_and]

/-- A run that is closed leaves its job with a final ticket. -/
theorem board_endRun {key job : Pubkey} {run : RunAccount} (ticket : Ticket)
    (live : s.runs.lookup key = some run) (started : run.job = job)
    (ended : ticket.state = JobState.done.toU8 ∨ ticket.state = JobState.stopped.toU8) :
    s.board.Move ((s.board.setRun key none).setJob job (some ticket)) :=
  .endRun ticket (started ▸ board_run live) ended

end State

theorem Posted.ticket {s : State} {key marketKey : Pubkey} {market : MarketAccount}
    {job : JobAccount} {user vault rewardsVault payer : Pubkey} {tokens : Tokens}
    (posted : Posted s key marketKey market job user vault rewardsVault payer tokens) :
    job.ticket = .queued marketKey := by
  obtain ⟨ipfsJob, project, timeout, created⟩ := posted.created
  rw [created]
  rfl

/-- An instruction that no admin is needed for, as far as the matching is concerned. -/
def Action.Ordinary (action : Action) : Prop :=
  action.closesMarket = false ∧ action.cleansAdmin = false

instance (action : Action) : Decidable action.Ordinary := inferInstanceAs (Decidable (_ ∧ _))

/-- A job is listed in a market that takes no new orders, and no node waits there. -/
def Action.Strands (s : State) : Action → Prop
  | .instruction (.list a _ _) => ∃ market ∈ s.markets.lookup a.market,
      market.Unknown ∧ market.queueType ≠ QueueType.node.toU8
  | _ => False

instance (s : State) (action : Action) : Decidable (action.Strands s) := by
  unfold Action.Strands
  split <;> infer_instance

variable [Runtime]

/-- An ordinary step is a move of the board, or one of the two that leave a job behind. -/
theorem step_board {s s' : State} {action : Action} (ordinary : action.Ordinary)
    (success : step s action = .ok s') :
    s.board.Move s'.board ∨
      (s.board.Lapse s'.board ∧ (action.Strands s ∨ action.quitsAdmin = true)) := by
  cases step_effect success with
  | @openMarket a expiration price timeout jobType minimum market fresh freshVault seeds initial =>
      have moved := Board.Move.openMarket (State.board_fresh fresh).1
      simp only [State.board, Finmap.lookup_map_insert]
      rw [initial]
      exact Or.inl moved
  | @update a expiration price jobType minimum timeout market present =>
      have same := market.line_update expiration price jobType a.accessKey minimum timeout
      simp only [State.board, Finmap.lookup_map_insert_same MarketAccount.line present same]
      exact Or.inl Board.Move.rest
  | setSettings present | closeSettings present =>
      simp only [State.board, Finmap.lookup_map_insert_same MarketAccount.line present
        (MarketAccount.line_restrict _ _)]
      exact Or.inl Board.Move.rest
  | closeMarket closing markets jobs runs =>
      rcases closing with rfl | rfl <;> exact absurd ordinary.1 Bool.noConfusion
  | @listQueued a _ _ market job tokens posted waiting known =>
      have moved := Board.Move.enqueueJob (State.board_queue posted.present) waiting
        (State.board_fresh posted.fresh).2.1
      simp only [State.board, Finmap.lookup_map_insert, posted.ticket]
      exact Or.inl moved
  | @listStranded a ipfsJob timeout market job tokens posted waiting unknown =>
      have same := Finmap.lookup_map_insert_same MarketAccount.line posted.present rfl
      have lapsed := Board.Lapse.strandJob a.market (State.board_fresh posted.fresh).2.1
      simp only [State.board, same, Finmap.lookup_map_insert JobAccount.ticket, posted.ticket]
      exact Or.inr ⟨lapsed, Or.inl ⟨market, posted.present, unknown, waiting⟩⟩
  | @listMatched a _ _ market job tokens node rest posted waiting first freshRun =>
      have moved := Board.Move.startJob a.run node (State.board_queue posted.present) waiting
        (State.board_fresh posted.fresh).2.1
        (State.board_fresh freshRun).2.2
      simp only [State.board, Finmap.lookup_map_insert, posted.ticket]
      exact Or.inl moved
  | @assign a _ _ market job tokens posted waiting queued freshRun =>
      have moved := Board.Move.startJob a.run a.node (State.board_queue posted.present) waiting
        (State.board_fresh posted.fresh).2.1
        (State.board_fresh freshRun).2.2
      simp only [State.board, Finmap.lookup_map_insert, posted.ticket]
      exact Or.inl moved
  | @extend a timeout market job tokens present =>
      have same : (job.updateTimeout timeout).ticket = job.ticket := rfl
      simp only [State.board, Finmap.lookup_map_insert_same JobAccount.ticket present same]
      exact Or.inl Board.Move.rest
  | delist present placed opened vaulted queued waiting member =>
      have moved := Board.Move.delistJob (State.board_queue opened) waiting member
      simp only [State.board, Finmap.lookup_map_insert, Finmap.lookup_map_erase]
      exact Or.inl moved
  | @recover a market job tokens total present placed opened vaulted stopped =>
      have ended : job.ticket.state ≠ JobState.queued.toU8 := by
        simp only [JobAccount.ticket, stopped]
        decide
      have moved := Board.Move.closeJob (State.board_job present) ended
      simp only [State.board, Finmap.lookup_map_erase]
      exact Or.inl moved
  | @endJob a market job run tokens running apart associated settled =>
      have moved := State.board_endRun ⟨job.market, JobState.done.toU8⟩ running.live running.started
        (Or.inl rfl)
      simp only [State.board, Finmap.lookup_map_insert, Finmap.lookup_map_erase]
      exact Or.inl moved
  | workQueued present waiting absent known =>
      have moved := Board.Move.enqueueNode (State.board_queue present) waiting absent
      simp only [State.board, Finmap.lookup_map_insert]
      exact Or.inl moved
  | workIgnored present =>
      simp only [State.board, Finmap.lookup_map_insert_same MarketAccount.line present rfl]
      exact Or.inl Board.Move.rest
  | @workMatched a market job rest present waiting first freshRun =>
      have member : job ∈ market.line.orders := by simp [MarketAccount.line, first]
      have moved := Board.Move.takeJob (State.board_queue present) waiting member
        (State.board_fresh freshRun).2.2
      simp only [State.board, Finmap.lookup_map_insert]
      exact Or.inl moved
  | @stop a market present waiting member =>
      have moved := Board.Move.dropNode a.node (State.board_queue present) waiting
      simp only [State.board, Finmap.lookup_map_insert]
      exact Or.inl moved
  | @complete a ipfsResult job present =>
      have same : (job.complete ipfsResult).ticket = job.ticket := rfl
      simp only [State.board, Finmap.lookup_map_insert_same JobAccount.ticket present same]
      exact Or.inl Board.Move.rest
  | @finish a ipfsResult market job run tokens running queued apart associated settled =>
      have moved := State.board_endRun ⟨job.market, JobState.done.toU8⟩ running.live running.started
        (Or.inl rfl)
      simp only [State.board, Finmap.lookup_map_insert, Finmap.lookup_map_erase]
      exact Or.inl moved
  | @quit a job run present live started =>
      have moved := State.board_endRun ⟨job.market, JobState.stopped.toU8⟩ live started
        (Or.inr rfl)
      simp only [State.board, Finmap.lookup_map_insert, Finmap.lookup_map_erase]
      exact Or.inl moved
  | @quitAdmin a =>
      have lapsed : s.board.Lapse _ := Board.Lapse.dropRun a.run
      simp only [State.board, Finmap.lookup_map_erase]
      exact Or.inr ⟨lapsed, Or.inr rfl⟩
  | @clean a job present done =>
      have ended : job.ticket.state ≠ JobState.queued.toU8 := by
        simp only [JobAccount.ticket, done]
        decide
      have moved := Board.Move.closeJob (State.board_job present) ended
      simp only [State.board, Finmap.lookup_map_erase]
      exact Or.inl moved
  | cleanAdmin => exact absurd ordinary.2 Bool.noConfusion
  | tick | external => exact Or.inl Board.Move.rest

theorem consistent_step {s s' : State} {action : Action} (consistent : s.board.Consistent)
    (ordinary : action.Ordinary) (success : step s action = .ok s') : s'.board.Consistent :=
  match step_board ordinary success with
  | .inl move => consistent.move move
  | .inr ⟨lapse, _⟩ => consistent.lapse lapse

/-- Closing a market leaves the others and all runs as they are. -/
theorem consistent_step_of_kept {s s' : State} {action : Action} (consistent : s.board.Consistent)
    (kept : action.cleansAdmin = false) (success : step s action = .ok s') :
    s'.board.Consistent := by
  cases closes : action.closesMarket with
  | false => exact consistent_step consistent ⟨closes, kept⟩ success
  | true =>
      cases step_effect success with
      | closeMarket closing markets jobs runs =>
          simp only [State.board, markets, jobs, runs, Finmap.lookup_map_erase]
          exact consistent.dropQueue _
      | _ => cases closes

/-! States of a run -/

omit [Runtime] in
theorem Genesis.consistent {s : State} (genesis : Genesis s) : s.board.Consistent := by
  constructor <;> simp [State.board, genesis.markets, genesis.jobs, genesis.runs]

theorem run_consistent {s : State} (genesis : Genesis s) (actions : List Action)
    (ordinary : ∀ event ∈ trace s actions, event.action.Ordinary) :
    (run s actions).board.Consistent :=
  Machine.guarded_invariant (P := fun s => s.board.Consistent)
    (fun event : Event => event.action.Ordinary) genesis.consistent
    (fun _ _ _ consistent success allowed => consistent_step consistent allowed success)
    actions ordinary

/-- What holds of the queue of a market. -/
structure MarketConsistent (s : State) (key : Pubkey) (market : MarketAccount) : Prop where
  empty_iff : market.queueType = QueueType.empty.toU8 ↔ market.queue = []
  tagged : market.queueType = QueueType.empty.toU8 ∨ market.queueType = QueueType.job.toU8 ∨
    market.queueType = QueueType.node.toU8
  nodup : market.queue.Nodup
  jobs : market.queueType = QueueType.job.toU8 → ∀ order ∈ market.queue,
    ∃ job, s.jobs.lookup order = some job ∧ job.market = key ∧
      job.state = JobState.queued.toU8 ∧
      ∀ other run, s.runs.lookup other = some run → run.job ≠ order
  pops : QueueType.ofU8 market.queueType ≠ .empty → ∃ popped, market.popFromQueue = .ok popped

/-- What holds of a run. -/
structure RunConsistent (s : State) (key : Pubkey) (run : RunAccount) : Prop where
  job : ∃ job, s.jobs.lookup run.job = some job ∧ job.state = JobState.queued.toU8
  outside : ∀ marketKey market, s.markets.lookup marketKey = some market →
    market.queueType = QueueType.job.toU8 → run.job ∉ market.queue
  single : ∀ other account, s.runs.lookup other = some account → account.job = run.job →
    other = key

omit [Runtime] in
theorem marketConsistent {s : State} (consistent : s.board.Consistent) {key : Pubkey}
    {market : MarketAccount} (present : s.markets.lookup key = some market) :
    MarketConsistent s key market := by
  have opened := State.board_queue present
  have wellFormed := consistent.queues key market.line opened
  refine ⟨wellFormed.empty_iff, ?_, wellFormed.nodup, fun tagged order member => ?_,
    fun tagged => ?_⟩
  · rcases wellFormed.sided with none | sided
    · exact Or.inl (wellFormed.empty_iff.mpr none)
    · exact Or.inr sided
  · have ⟨queued, idle⟩ := consistent.orders key market.line order opened tagged member
    obtain ⟨job, found, placed, state⟩ := State.queued_of_board queued
    refine ⟨job, found, placed, state, fun other run live started => ?_⟩
    rw [← started] at idle
    exact idle other (State.board_run live)
  · have held : market.queue ≠ [] := by
      intro none
      have empty : market.queueType = QueueType.empty.toU8 := wellFormed.empty_iff.mpr none
      exact tagged (by rw [empty]; decide)
    obtain ⟨first, rest, orders⟩ := List.exists_cons_of_ne_nil held
    exact ⟨_, MarketAccount.popFromQueue_eq_ok.mpr ⟨rest, orders, rfl⟩⟩

omit [Runtime] in
theorem runConsistent {s : State} (consistent : s.board.Consistent) {key : Pubkey}
    {run : RunAccount} (live : s.runs.lookup key = some run) : RunConsistent s key run := by
  have started := State.board_run live
  refine ⟨?_, fun marketKey market present tagged member => ?_, fun other account found same => ?_⟩
  · obtain ⟨market, queued⟩ := consistent.runs key run.job started
    obtain ⟨job, present, -, state⟩ := State.queued_of_board queued
    exact ⟨job, present, state⟩
  · have opened := State.board_queue present
    exact (consistent.orders marketKey market.line run.job opened tagged member).2 key started
  · have second := State.board_run found
    rw [same] at second
    exact consistent.single other key run.job second started

/-- In every state reached without closing markets, and without an admin closing job
accounts, queues hold what their tag says, waiting jobs do not run, running jobs do
not wait and run once, and a queue that is popped holds an order. -/
theorem queues_jobs_runs_consistent {s : State} (genesis : Genesis s) (actions : List Action)
    (ordinary : ∀ event ∈ trace s actions, event.action.Ordinary) :
    (∀ key market, (run s actions).markets.lookup key = some market →
      MarketConsistent (run s actions) key market) ∧
    (∀ key account, (run s actions).runs.lookup key = some account →
      RunConsistent (run s actions) key account) := by
  have consistent := run_consistent genesis actions ordinary
  exact ⟨fun _ _ present => marketConsistent consistent present,
    fun _ _ live => runConsistent consistent live⟩

omit [Runtime] in
theorem queues_jobs_runs_consistent_sample :
    (∀ key market, (Sample.run Sample.matching).markets.lookup key = some market →
      MarketConsistent (Sample.run Sample.matching) key market) ∧
    (∀ key account, (Sample.run Sample.matching).runs.lookup key = some account →
      RunConsistent (Sample.run Sample.matching) key account) :=
  @queues_jobs_runs_consistent Sample.runtime _ Sample.genesis _ (by decide +kernel)

end Nosana.Jobs
