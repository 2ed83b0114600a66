import Nosana.JobsQueue

set_option autoImplicit false

/- What the jobs program is for: the matching of jobs with nodes. The board forgets
prices, deposits and owners, and keeps which orders wait where, which jobs exist and
which of them run. -/
namespace Nosana.Jobs

open Function (update_apply)

/-- A job, as the board sees it. -/
structure Ticket where
  market : Pubkey
  state : UInt8
  deriving DecidableEq

structure Board where
  queue : Pubkey → Option Queue
  job : Pubkey → Option Ticket
  run : Pubkey → Option Pubkey

/-- The ticket of a job that has not ended. -/
def Ticket.queued (market : Pubkey) : Ticket := ⟨market, JobState.queued.toU8⟩

namespace Board

def setQueue (board : Board) (market : Pubkey) (queue : Queue) : Board :=
  { board with queue := Function.update board.queue market (some queue) }

def setJob (board : Board) (job : Pubkey) (ticket : Option Ticket) : Board :=
  { board with job := Function.update board.job job ticket }

def setRun (board : Board) (run : Pubkey) (job : Option Pubkey) : Board :=
  { board with run := Function.update board.run run job }

/-- Every order of a queue of jobs is a queued job of that market that does not run;
every run is the only run of a queued job. -/
structure Consistent (board : Board) : Prop where
  queues : ∀ market queue, board.queue market = some queue → queue.WellFormed
  orders : ∀ market queue job, board.queue market = some queue →
    queue.tag = QueueType.job.toU8 → job ∈ queue.orders →
    board.job job = some (.queued market) ∧ ∀ run, board.run run ≠ some job
  runs : ∀ run job, board.run run = some job → ∃ market, board.job job = some (.queued market)
  single : ∀ first second job, board.run first = some job → board.run second = some job →
    first = second

/-- A job that neither waits nor runs. -/
structure Loose (board : Board) (job : Pubkey) : Prop where
  outside : ∀ market queue, board.queue market = some queue →
    queue.tag = QueueType.job.toU8 → job ∉ queue.orders
  idle : ∀ run, board.run run ≠ some job

namespace Consistent

variable {board : Board}

/-- Only queued jobs wait or run. -/
theorem loose (consistent : board.Consistent) (job : Pubkey)
    (ended : ∀ market, board.job job ≠ some (.queued market)) : board.Loose job := by
  refine ⟨fun market queue opened tagged member => ?_, fun run started => ?_⟩
  · exact ended market (consistent.orders market queue job opened tagged member).1
  · obtain ⟨market, present⟩ := consistent.runs run job started
    exact ended market present

/-- A job waits in one market only. -/
theorem loose_setQueue (consistent : board.Consistent) {market job : Pubkey} {queue : Queue}
    (present : board.job job = some (.queued market)) (absent : job ∉ queue.orders)
    (idle : ∀ run, board.run run ≠ some job) : (board.setQueue market queue).Loose job := by
  refine ⟨fun other found opened tagged member => ?_, idle⟩
  simp only [setQueue, update_apply] at opened
  split at opened
  · cases opened
    exact absent member
  · rename_i different
    have elsewhere := (consistent.orders other found job opened tagged member).1
    rw [present] at elsewhere
    cases elsewhere
    exact different rfl

theorem replaceQueue (consistent : board.Consistent) {market : Pubkey} {queue : Queue}
    (wellFormed : queue.WellFormed)
    (orders : queue.tag = QueueType.job.toU8 → ∀ job ∈ queue.orders,
      board.job job = some (.queued market) ∧ ∀ run, board.run run ≠ some job) :
    (board.setQueue market queue).Consistent := by
  refine ⟨fun other found opened => ?_, fun other found job opened tagged member => ?_,
    consistent.runs, consistent.single⟩
  · simp only [setQueue, update_apply] at opened
    split at opened
    · cases opened
      exact wellFormed
    · exact consistent.queues other found opened
  · simp only [setQueue, update_apply] at opened
    split at opened
    · rename_i same
      cases opened
      rw [same]
      exact orders tagged job member
    · exact consistent.orders other found job opened tagged member

theorem replaceJob (consistent : board.Consistent) {job : Pubkey} (loose : board.Loose job)
    (ticket : Option Ticket) : (board.setJob job ticket).Consistent := by
  refine ⟨consistent.queues, fun market queue other opened tagged member => ?_,
    fun run other started => ?_, consistent.single⟩
  · have different : other ≠ job := fun same =>
      loose.outside market queue opened tagged (same ▸ member)
    simp only [setJob, update_apply, different, if_false]
    exact consistent.orders market queue other opened tagged member
  · have different : other ≠ job := fun same => loose.idle run (same ▸ started)
    simp only [setJob, update_apply, different, if_false]
    exact consistent.runs run other started

theorem startRun (consistent : board.Consistent) {job run market : Pubkey}
    (present : board.job job = some (.queued market)) (loose : board.Loose job) :
    (board.setRun run (some job)).Consistent := by
  have started : ∀ found other, (board.setRun run (some job)).run found = some other →
      (found = run ∧ other = job) ∨ (found ≠ run ∧ board.run found = some other) := by
    intro found other
    simp only [setRun, update_apply]
    split <;> simp_all [eq_comm]
  refine ⟨consistent.queues, fun other queue order opened tagged member => ?_,
    fun found other running => ?_, fun first second other left right => ?_⟩
  · have ⟨queued, idle⟩ := consistent.orders other queue order opened tagged member
    refine ⟨queued, fun found running => ?_⟩
    rcases started found order running with ⟨-, rfl⟩ | ⟨-, earlier⟩
    · exact loose.outside other queue opened tagged member
    · exact idle found earlier
  · rcases started found other running with ⟨-, rfl⟩ | ⟨-, earlier⟩
    · exact ⟨market, present⟩
    · exact consistent.runs found other earlier
  · rcases started first other left with ⟨rfl, rfl⟩ | ⟨-, earlier⟩ <;>
      rcases started second _ right with ⟨rfl, same⟩ | ⟨-, later⟩
    · rfl
    · exact absurd later (loose.idle second)
    · exact absurd (same ▸ earlier) (loose.idle first)
    · exact consistent.single first second other earlier later

theorem dropRun (consistent : board.Consistent) (run : Pubkey) :
    (board.setRun run none).Consistent := by
  have kept : ∀ found job, (board.setRun run none).run found = some job →
      board.run found = some job := by
    intro found job
    simp only [setRun, update_apply]
    split <;> simp
  refine ⟨consistent.queues, fun market queue order opened tagged member => ?_,
    fun found job running => consistent.runs found job (kept found job running),
    fun first second job left right =>
      consistent.single first second job (kept first job left) (kept second job right)⟩
  have ⟨queued, idle⟩ := consistent.orders market queue order opened tagged member
  exact ⟨queued, fun found running => idle found (kept found order running)⟩

/-- A market that closes takes its queue with it. -/
theorem dropQueue (consistent : board.Consistent) (market : Pubkey) :
    { board with queue := Function.update board.queue market none }.Consistent := by
  have kept : ∀ other queue, Function.update board.queue market none other = some queue →
      board.queue other = some queue := by
    intro other queue
    rw [update_apply]
    split <;> simp
  exact ⟨fun other queue opened => consistent.queues other queue (kept other queue opened),
    fun other queue job opened => consistent.orders other queue job (kept other queue opened),
    consistent.runs, consistent.single⟩

/-- A run that ends leaves its job loose. -/
theorem loose_dropRun (consistent : board.Consistent) {job run : Pubkey}
    (started : board.run run = some job) : (board.setRun run none).Loose job := by
  refine ⟨fun market queue opened tagged member => ?_, fun found running => ?_⟩
  · exact (consistent.orders market queue job opened tagged member).2 run started
  · simp only [setRun, update_apply] at running
    split at running
    · cases running
    · rename_i different
      exact different (consistent.single found run job running started)

/-- Removing an order keeps what is known of the others. -/
theorem remove (consistent : board.Consistent) {market : Pubkey} {queue : Queue}
    (opened : board.queue market = some queue) (order : Pubkey) :
    (board.setQueue market (queue.remove order)).Consistent := by
  have wellFormed := consistent.queues market queue opened
  apply consistent.replaceQueue (wellFormed.remove order)
  intro tagged job member
  exact consistent.orders market queue job opened
    (Queue.tag_remove .job (by decide) tagged)
    ((Queue.mem_remove wellFormed).mp member).2

theorem loose_remove (consistent : board.Consistent) {market job : Pubkey} {queue : Queue}
    (opened : board.queue market = some queue) (waiting : queue.tag = QueueType.job.toU8)
    (member : job ∈ queue.orders) : (board.setQueue market (queue.remove job)).Loose job := by
  have ⟨queued, idle⟩ := consistent.orders market queue job opened waiting member
  refine consistent.loose_setQueue queued (fun stays => ?_) idle
  exact ((Queue.mem_remove (consistent.queues market queue opened)).mp stays).1 rfl

/-- A new job joins the jobs that wait. -/
theorem push (consistent : board.Consistent) {market job : Pubkey} {queue : Queue}
    (opened : board.queue market = some queue) (waiting : queue.tag ≠ QueueType.node.toU8)
    (fresh : board.job job = none) :
    ((board.setJob job (some (.queued market))).setQueue market
      (queue.push .job job)).Consistent := by
  have loose := consistent.loose job fun _ => by simp [fresh]
  have wellFormed := consistent.queues market queue opened
  have tagged : queue.orders ≠ [] → queue.tag = QueueType.job.toU8 := fun held =>
    (wellFormed.sided.resolve_left held).resolve_right waiting
  have absent : job ∉ queue.orders := fun member =>
    loose.outside market queue opened (tagged (List.ne_nil_of_mem member)) member
  apply (consistent.replaceJob loose _).replaceQueue (wellFormed.push (by decide) absent)
  intro _ order member
  rcases List.mem_append.mp member with earlier | last
  · have different : order ≠ job := fun same => absent (same ▸ earlier)
    simp only [setJob, update_apply, different, if_false]
    exact consistent.orders market queue order opened (tagged (List.ne_nil_of_mem earlier)) earlier
  · rw [List.mem_singleton] at last
    subst last
    exact ⟨by simp [setJob], loose.idle⟩

end Consistent

/-- The moves of the matching protocol. -/
inductive Move (board : Board) : Board → Prop
  | rest : Move board board
  | openMarket {market : Pubkey} (fresh : board.queue market = none) :
      Move board (board.setQueue market ⟨QueueType.empty.toU8, []⟩)
  | enqueueJob {market job : Pubkey} {queue : Queue} (opened : board.queue market = some queue)
      (waiting : queue.tag ≠ QueueType.node.toU8) (fresh : board.job job = none) :
      Move board ((board.setJob job (some (.queued market))).setQueue market (queue.push .job job))
  | startJob {market job : Pubkey} {queue : Queue} (run node : Pubkey)
      (opened : board.queue market = some queue) (waiting : queue.tag = QueueType.node.toU8)
      (fresh : board.job job = none) (freshRun : board.run run = none) :
      Move board (((board.setQueue market (queue.remove node)).setJob job
        (some (.queued market))).setRun run (some job))
  | enqueueNode {market node : Pubkey} {queue : Queue} (opened : board.queue market = some queue)
      (waiting : queue.tag ≠ QueueType.job.toU8) (absent : node ∉ queue.orders) :
      Move board (board.setQueue market (queue.push .node node))
  | takeJob {market job run : Pubkey} {queue : Queue} (opened : board.queue market = some queue)
      (waiting : queue.tag = QueueType.job.toU8) (member : job ∈ queue.orders)
      (freshRun : board.run run = none) :
      Move board ((board.setQueue market (queue.remove job)).setRun run (some job))
  | dropNode {market : Pubkey} {queue : Queue} (node : Pubkey)
      (opened : board.queue market = some queue)
      (waiting : queue.tag = QueueType.node.toU8) :
      Move board (board.setQueue market (queue.remove node))
  | delistJob {market job : Pubkey} {queue : Queue} (opened : board.queue market = some queue)
      (waiting : queue.tag = QueueType.job.toU8) (member : job ∈ queue.orders) :
      Move board ((board.setQueue market (queue.remove job)).setJob job none)
  | endRun {job run : Pubkey} (ticket : Ticket) (started : board.run run = some job)
      (ended : ticket.state = JobState.done.toU8 ∨ ticket.state = JobState.stopped.toU8) :
      Move board ((board.setRun run none).setJob job (some ticket))
  | closeJob {job : Pubkey} {ticket : Ticket} (present : board.job job = some ticket)
      (ended : ticket.state ≠ JobState.queued.toU8) : Move board (board.setJob job none)

/-- The moves that leave a job behind: one that is listed and joins no queue, and one
whose run is dropped. -/
inductive Lapse (board : Board) : Board → Prop
  | strandJob {job : Pubkey} (market : Pubkey) (fresh : board.job job = none) :
      Lapse board (board.setJob job (some (.queued market)))
  | dropRun (run : Pubkey) : Lapse board (board.setRun run none)

theorem Consistent.move {board next : Board} (consistent : board.Consistent)
    (move : Move board next) : next.Consistent := by
  cases move with
  | rest => exact consistent
  | openMarket fresh => exact consistent.replaceQueue Queue.wellFormed_empty (by simp)
  | enqueueJob opened waiting fresh => exact consistent.push opened waiting fresh
  | @startJob market job queue run node opened waiting fresh freshRun =>
      have left := consistent.remove opened node
      have loose := left.loose job fun _ => by simp [setQueue, fresh]
      have created := left.replaceJob loose (some (.queued market))
      have queued : ((board.setQueue market (queue.remove node)).setJob job
          (some (.queued market))).job job = some (.queued market) := by
        simp [setJob]
      exact created.startRun queued ⟨loose.outside, loose.idle⟩
  | enqueueNode opened waiting absent =>
      have wellFormed := consistent.queues _ _ opened
      apply consistent.replaceQueue (wellFormed.push (by decide) absent)
      intro tagged
      simp only [Queue.push] at tagged
      split at tagged
      · contradiction
      · exact absurd tagged waiting
  | takeJob opened waiting member freshRun =>
      obtain ⟨queued, _⟩ := consistent.orders _ _ _ opened waiting member
      exact (consistent.remove opened _).startRun queued
        (consistent.loose_remove opened waiting member)
  | dropNode node opened => exact consistent.remove opened _
  | delistJob opened waiting member =>
      exact (consistent.remove opened _).replaceJob
        (consistent.loose_remove opened waiting member) _
  | endRun ticket started =>
      exact (consistent.dropRun _).replaceJob (consistent.loose_dropRun started) _
  | closeJob present ended =>
      refine consistent.replaceJob (consistent.loose _ fun market => ?_) _
      rintro queued
      rw [present] at queued
      cases queued
      exact ended rfl

theorem Consistent.lapse {board next : Board} (consistent : board.Consistent)
    (lapse : Lapse board next) : next.Consistent := by
  cases lapse with
  | strandJob market fresh =>
      exact consistent.replaceJob (consistent.loose _ fun _ => by simp [fresh]) _
  | dropRun run => exact consistent.dropRun run

/-! What is left behind stays behind -/

namespace Loose

variable {board : Board} {job : Pubkey}

theorem setQueue (loose : board.Loose job) (market : Pubkey) {queue : Queue}
    (absent : queue.tag = QueueType.job.toU8 → job ∉ queue.orders) :
    (board.setQueue market queue).Loose job := by
  refine ⟨fun other found opened tagged => ?_, loose.idle⟩
  simp only [Board.setQueue, update_apply] at opened
  split at opened
  · cases opened
    exact absent tagged
  · exact loose.outside other found opened tagged

theorem setJob (loose : board.Loose job) (other : Pubkey) (ticket : Option Ticket) :
    (board.setJob other ticket).Loose job := ⟨loose.outside, loose.idle⟩

theorem setRun (loose : board.Loose job) (run : Pubkey) {started : Option Pubkey}
    (apart : started ≠ some job) : (board.setRun run started).Loose job := by
  refine ⟨loose.outside, fun other => ?_⟩
  simp only [Board.setRun, update_apply]
  split
  · exact apart
  · exact loose.idle other

/-- Where the job does not wait, it does not wait after an order has left. -/
theorem remove (loose : board.Loose job) {market : Pubkey} {queue : Queue}
    (opened : board.queue market = some queue) (order : Pubkey) :
    (board.setQueue market (queue.remove order)).Loose job := by
  apply loose.setQueue market
  intro tagged member
  exact loose.outside market queue opened (Queue.tag_remove .job (by decide) tagged)
    (List.mem_of_mem_erase member)

theorem job_setJob (other : Pubkey) (ticket : Option Ticket) (apart : job ≠ other) :
    (board.setJob other ticket).job job = board.job job := by
  simp only [Board.setJob, update_apply, apart, if_false]

/-- No move brings a queued job that neither waits nor runs back into a queue or into a run, and
none ends it. -/
theorem move {next : Board} {home : Pubkey} (loose : board.Loose job)
    (queued : board.job job = some (.queued home))
    (tagged : ∀ market queue, board.queue market = some queue → queue.Tagged)
    (move : Move board next) : next.Loose job ∧ next.job job = some (.queued home) := by
  have nodeJob : QueueType.node.toU8 ≠ QueueType.job.toU8 := by decide
  have apart : ∀ {other}, board.job other = none → job ≠ other := by
    intro other fresh same
    rw [← same, queued] at fresh
    cases fresh
  cases move with
  | rest => exact ⟨loose, queued⟩
  | openMarket => exact ⟨loose.setQueue _ fun _ => List.not_mem_nil, queued⟩
  | @enqueueJob market other queue opened waiting fresh =>
      refine ⟨(loose.setJob other _).setQueue market fun _ member => ?_,
        (job_setJob other _ (apart fresh)).trans queued⟩
      rcases List.mem_append.mp member with earlier | last
      · have held : queue.orders ≠ [] := List.ne_nil_of_mem earlier
        have side := ((tagged market queue opened).sided.resolve_left held).resolve_right waiting
        exact loose.outside market queue opened side earlier
      · exact apart fresh (List.mem_singleton.mp last)
  | @startJob market other queue run node opened waiting fresh freshRun =>
      refine ⟨((loose.remove opened node).setJob other _).setRun run ?_,
        (job_setJob other _ (apart fresh)).trans queued⟩
      exact fun same => apart fresh (Option.some.inj same).symm
  | @enqueueNode market node queue opened waiting absent =>
      refine ⟨loose.setQueue market fun side => ?_, queued⟩
      simp only [Queue.push] at side
      split at side
      · exact absurd side nodeJob
      · exact absurd side waiting
  | @takeJob market other run queue opened waiting member freshRun =>
      refine ⟨(loose.remove opened other).setRun run fun same => ?_, queued⟩
      rw [Option.some.inj same] at member
      exact loose.outside market queue opened waiting member
  | dropNode node opened waiting => exact ⟨loose.remove opened node, queued⟩
  | @delistJob market other queue opened waiting member =>
      have different : job ≠ other := fun same =>
        loose.outside market queue opened waiting (same ▸ member)
      exact ⟨(loose.remove opened other).setJob other _,
        (job_setJob other _ different).trans queued⟩
  | @endRun other run ticket started ended =>
      have different : job ≠ other := fun same => loose.idle run (same ▸ started)
      exact ⟨(loose.setRun run (by simp)).setJob other _,
        (job_setJob other _ different).trans queued⟩
  | @closeJob other ticket present ended =>
      have different : job ≠ other := by
        intro same
        rw [← same, queued] at present
        cases present
        exact ended rfl
      exact ⟨loose.setJob other _, (job_setJob other _ different).trans queued⟩

theorem lapse {next : Board} {home : Pubkey} (loose : board.Loose job)
    (queued : board.job job = some (.queued home)) (lapse : Lapse board next) :
    next.Loose job ∧ next.job job = some (.queued home) := by
  cases lapse with
  | @strandJob other market fresh =>
      have different : job ≠ other := by
        intro same
        rw [← same, queued] at fresh
        cases fresh
      exact ⟨loose.setJob other _, (job_setJob other _ different).trans queued⟩
  | dropRun run => exact ⟨loose.setRun run (by simp), queued⟩

end Loose

/-! No job is left behind -/

/-- A job that waits in the queue of its market. -/
def Waiting (board : Board) (job market : Pubkey) : Prop :=
  ∃ queue, board.queue market = some queue ∧ queue.tag = QueueType.job.toU8 ∧ job ∈ queue.orders

/-- A job has ended, or it waits, or it runs. -/
def Accounted (board : Board) (job : Pubkey) (ticket : Ticket) : Prop :=
  ticket.state = JobState.done.toU8 ∨ ticket.state = JobState.stopped.toU8 ∨
    (ticket.state = JobState.queued.toU8 ∧
      (board.Waiting job ticket.market ∨ ∃ run, board.run run = some job))

def Placed (board : Board) : Prop :=
  ∀ job ticket, board.job job = some ticket → board.Accounted job ticket

theorem Accounted.congr {board next : Board} {job : Pubkey} {ticket : Ticket}
    (accounted : board.Accounted job ticket)
    (waits : board.Waiting job ticket.market → next.Waiting job ticket.market ∨
      ∃ run, next.run run = some job)
    (runs : ∀ run, board.run run = some job → ∃ run, next.run run = some job) :
    next.Accounted job ticket := by
  rcases accounted with done | stopped | ⟨queued, waiting | ⟨run, running⟩⟩
  · exact Or.inl done
  · exact Or.inr (Or.inl stopped)
  · exact Or.inr (Or.inr ⟨queued, waits waiting⟩)
  · exact Or.inr (Or.inr ⟨queued, Or.inr (runs run running)⟩)

/-- A job that waits in a queue that is replaced has to wait in the new one. -/
theorem Waiting.replaceQueue {board : Board} {job market other : Pubkey} {queue : Queue}
    (waiting : board.Waiting job other)
    (kept : ∀ old, board.queue market = some old → old.tag = QueueType.job.toU8 →
      job ∈ old.orders → queue.tag = QueueType.job.toU8 ∧ job ∈ queue.orders) :
    (board.setQueue market queue).Waiting job other := by
  obtain ⟨old, opened, tagged, member⟩ := waiting
  by_cases same : other = market
  · subst same
    have ⟨still, stays⟩ := kept old opened tagged member
    exact ⟨queue, by simp [setQueue], still, stays⟩
  · exact ⟨old, by simpa [setQueue, same] using opened, tagged, member⟩

/-- Whoever leaves a queue, the other jobs wait on. -/
theorem Waiting.remove {board : Board} {job market other order : Pubkey} {queue : Queue}
    (consistent : board.Consistent) (opened : board.queue market = some queue)
    (waiting : board.Waiting job other) (different : job ≠ order) :
    (board.setQueue market (queue.remove order)).Waiting job other := by
  apply waiting.replaceQueue
  intro old same tagged member
  rw [opened] at same
  cases same
  have stays := (Queue.mem_remove (consistent.queues market queue opened)).mpr ⟨different, member⟩
  exact ⟨(Queue.tag_remove_of_mem stays).trans tagged, stays⟩

/-- A queue of nodes holds no jobs. -/
theorem Waiting.nodes {board : Board} {job market other : Pubkey} {queue : Queue}
    (waiting : board.Waiting job other) (next : Queue)
    (opened : board.queue market = some queue) (tagged : queue.tag ≠ QueueType.job.toU8) :
    (board.setQueue market next).Waiting job other := by
  apply waiting.replaceQueue
  intro old same jobs _
  rw [opened] at same
  cases same
  exact absurd jobs tagged

theorem Placed.push {board : Board} (consistent : board.Consistent) (placed : board.Placed)
    {market job : Pubkey} {queue : Queue} (opened : board.queue market = some queue)
    (waiting : queue.tag ≠ QueueType.node.toU8) :
    ((board.setJob job (some (.queued market))).setQueue market (queue.push .job job)).Placed := by
  have wellFormed := consistent.queues market queue opened
  have tagged : (queue.push .job job).tag = QueueType.job.toU8 := by
    simp only [Queue.push]
    split
    · rfl
    · rename_i held
      have orders : queue.orders ≠ [] := fun none => held (wellFormed.empty_iff.mpr none)
      exact (wellFormed.sided.resolve_left orders).resolve_right waiting
  intro other ticket present
  simp only [setQueue, setJob, update_apply] at present
  split at present
  · rename_i same
    cases present
    refine Or.inr (Or.inr ⟨rfl, Or.inl ⟨queue.push .job job, ?_, tagged, ?_⟩⟩)
    · simp [setQueue, Ticket.queued]
    · simp [Queue.push, same]
  · refine (placed other ticket present).congr (fun waits => Or.inl ?_) fun run runs => ⟨run, runs⟩
    have still : (board.setJob job (some (.queued market))).Waiting other ticket.market := waits
    apply still.replaceQueue
    intro old same _ member
    have : old = queue := Option.some.inj (same.symm.trans opened)
    subst this
    exact ⟨tagged, List.mem_append_left _ member⟩

/-- The moves of the protocol lose no job. -/
theorem Placed.move {board next : Board} (consistent : board.Consistent) (placed : board.Placed)
    (move : Move board next) : next.Placed := by
  have apart : QueueType.node.toU8 ≠ QueueType.job.toU8 := by decide
  cases move with
  | rest => exact placed
  | @openMarket market fresh =>
      intro job ticket present
      refine (placed job ticket present).congr (fun waits => Or.inl ?_) fun run runs => ⟨run, runs⟩
      exact waits.replaceQueue fun old opened => by simp [fresh] at opened
  | enqueueJob opened waiting fresh => exact placed.push consistent opened waiting
  | @startJob market job queue run node opened waiting fresh freshRun =>
      intro other ticket present
      by_cases same : other = job
      · subst same
        have : ticket = .queued market := by simpa [setRun, setJob, eq_comm] using present
        subst this
        exact Or.inr (Or.inr ⟨rfl, Or.inr ⟨run, by simp [setRun]⟩⟩)
      · simp only [setRun, setJob, setQueue, update_apply, same, if_false] at present
        refine (placed other ticket present).congr (fun waits => Or.inl ?_) fun found runs => ?_
        · have jobless : queue.tag ≠ QueueType.job.toU8 := by rw [waiting]; exact apart
          exact waits.nodes (queue.remove node) opened jobless
        · have different : found ≠ run := by
            rintro rfl
            simp [freshRun] at runs
          exact ⟨found, by simpa [setRun, setJob, setQueue, different] using runs⟩
  | enqueueNode opened waiting absent =>
      intro job ticket present
      refine (placed job ticket present).congr (fun waits => Or.inl ?_) fun run runs => ⟨run, runs⟩
      exact waits.nodes _ opened waiting
  | @takeJob market job run queue opened waiting member freshRun =>
      intro other ticket present
      refine (placed other ticket present).congr (fun waits => ?_) fun found runs => ?_
      · by_cases same : other = job
        · exact Or.inr ⟨run, by simp [setRun, same]⟩
        · exact Or.inl (Waiting.remove consistent opened waits same)
      · have different : found ≠ run := by
          rintro rfl
          simp [freshRun] at runs
        exact ⟨found, by simpa [setRun, setQueue, different] using runs⟩
  | dropNode node opened waiting =>
      intro job ticket present
      refine (placed job ticket present).congr (fun waits => Or.inl ?_) fun run runs => ⟨run, runs⟩
      exact waits.nodes _ opened (by rw [waiting]; exact apart)
  | @delistJob market job queue opened waiting member =>
      intro other ticket present
      have different : other ≠ job := by
        rintro rfl
        simp [setJob] at present
      simp only [setJob, setQueue, update_apply, different, if_false] at present
      refine (placed other ticket present).congr (fun waits => Or.inl ?_) fun run runs =>
        ⟨run, runs⟩
      exact Waiting.remove consistent opened waits different
  | @endRun job run ticket started ended =>
      intro other found inside
      simp only [setJob, setRun, update_apply] at inside
      split at inside
      · cases inside
        exact ended.elim Or.inl fun stopped => Or.inr (Or.inl stopped)
      · rename_i different
        refine (placed other found inside).congr Or.inl fun another runs => ?_
        have apart : another ≠ run := by
          rintro rfl
          rw [started] at runs
          exact different (Option.some.inj runs).symm
        exact ⟨another, by simpa [setRun, setJob, apart] using runs⟩
  | @closeJob job ticket present ended =>
      intro other found inside
      have different : other ≠ job := by
        rintro rfl
        simp [setJob] at inside
      simp only [setJob, update_apply, different, if_false] at inside
      exact (placed other found inside).congr Or.inl fun run runs => ⟨run, runs⟩

/-- A stranded job neither waits nor runs. -/
theorem Consistent.stranded {board : Board} (consistent : board.Consistent) {job market : Pubkey}
    (fresh : board.job job = none) : ¬ (board.setJob job (some (.queued market))).Placed := by
  intro placed
  have loose := consistent.loose job fun _ => by simp [fresh]
  rcases placed job (.queued market) (by simp [setJob]) with done | stopped |
    ⟨-, ⟨queue, opened, tagged, member⟩ | ⟨run, running⟩⟩
  · exact absurd (show JobState.queued.toU8 = JobState.done.toU8 from done) (by decide)
  · exact absurd (show JobState.queued.toU8 = JobState.stopped.toU8 from stopped) (by decide)
  · exact loose.outside market queue opened tagged member
  · exact loose.idle run running

end Board

end Nosana.Jobs
