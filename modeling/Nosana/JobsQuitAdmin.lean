import Nosana.JobsLines
import Nosana.JobsPayout
import Nosana.JobsRefunds

set_option autoImplicit false

/- What becomes of the deposit of a job whose run an admin closed. Unlike the node's own
`quit`, `quit_admin` leaves the job queued. -/
namespace Nosana.Jobs

open Checked

/-- The instructions that pay the deposit of a job out. -/
def Instruction.settles (key : Pubkey) : Instruction → Bool
  | .finish a _ => a.job == key
  | .endJob a => a.job == key
  | .delist a => a.job == key
  | .recover a => a.job == key
  | _ => false

/-- What happens with the signatures of a project, of nodes and of new accounts only. -/
def Action.byParties (project : Pubkey) : Action → Bool
  | .instruction (.list a _ _) => a.authority == project && a.payer == project
  | .instruction (.assign a _ _) => a.authority == project && a.payer == project
  | .instruction (.extend a _) => a.authority == project && a.payer == project
  | .instruction (.delist a) => a.authority == project
  | .instruction (.recover a) => a.authority == project
  | .instruction (.endJob a) => a.authority == project
  | .instruction (.work a) => a.payer == a.authority
  | .instruction (.stop a) => a.node == a.authority
  | .instruction (.complete _ _) => true
  | .instruction (.finish _ _) => true
  | .instruction (.quit _) => true
  | .tick _ => true
  | _ => false

/-- Some allowed continuation moves the deposit of the job out of the vault, to the payer or as
earned by a node. -/
def Escapes [Runtime] (allowed : Action → Prop) (s : State) (key : Pubkey) : Prop :=
  ∃ actions, (∀ action ∈ actions, allowed action) ∧ ∃ event ∈ trace s actions,
    ∃ ix, event.action = .instruction ix ∧ ix.settles key = true ∧
      ReturnsDeposit event.before event.after ix

/-- A run of the job besides the one that is closed. -/
def RunsElsewhere (s : State) (run key : Pubkey) : Prop :=
  ∃ other account, other ≠ run ∧ s.runs.lookup other = some account ∧ account.job = key

/-- The job waits in the queue of jobs of a market. -/
def WaitsIn (s : State) (key home : Pubkey) : Prop :=
  ∃ market, s.markets.lookup home = some market ∧ market.queueType = QueueType.job.toU8 ∧
    key ∈ market.queue

/-- The market of the job is open, its vault holds the deposit, and the payer has a token
account. -/
def Refundable (s : State) (job : JobAccount) : Prop :=
  ∃ market, s.markets.lookup job.market = some market ∧
    job.cost job.timeout ≤ s.tokens.balance market.vault ∧
    pda.associatedToken job.payer id.nosToken ∈ s.tokens

/-- A queued job that neither waits nor runs. -/
structure Stuck (s : State) (key : Pubkey) : Prop where
  loose : s.board.Loose key
  queued : ∃ home, s.board.job key = some (.queued home)

theorem Stuck.of_lookup {s : State} {key : Pubkey} {job : JobAccount} (loose : s.board.Loose key)
    (present : s.jobs.lookup key = some job) (queued : job.state = JobState.queued.toU8) :
    Stuck s key := by
  refine ⟨loose, job.market, ?_⟩
  rw [State.board_job present, JobAccount.ticket, queued]
  rfl

/-! Stuck for good -/

section

variable [Runtime]

theorem stuck_step {s s' : State} {action : Action} {key : Pubkey} (stuck : Stuck s key)
    (filed : AllFiled s) (ordinary : action.Ordinary) (success : step s action = .ok s') :
    Stuck s' key := by
  obtain ⟨home, queued⟩ := stuck.queued
  rcases step_board ordinary success with move | ⟨lapse, -⟩
  · have ⟨loose, still⟩ := stuck.loose.move queued filed.board move
    exact ⟨loose, home, still⟩
  · have ⟨loose, still⟩ := stuck.loose.lapse queued lapse
    exact ⟨loose, home, still⟩

/-- None of the instructions that pay a deposit out accepts a stuck job: it has no run, it is
in no queue, and it was not stopped. -/
theorem Stuck.settles_eq_false {s s' : State} {key : Pubkey} (stuck : Stuck s key)
    {ix : Instruction} (success : process s ix = .ok s') : ix.settles key = false := by
  by_contra settles
  cases step_effect (show step s (.instruction ix) = .ok s' from success) with
  | @finish a _ market job run tokens running | @endJob a market job run tokens running =>
      have same : a.job = key := by simpa [Instruction.settles] using settles
      have started := State.board_run running.live
      rw [running.started, same] at started
      exact stuck.loose.idle _ started
  | @delist a market job tokens present placed opened vaulted queued waiting member =>
      have same : a.job = key := by simpa [Instruction.settles] using settles
      exact stuck.loose.outside _ _ (State.board_queue opened) waiting (same ▸ member)
  | @recover a market job tokens total present placed opened vaulted stopped =>
      have same : a.job = key := by simpa [Instruction.settles] using settles
      have stoppedQueued : JobState.stopped.toU8 ≠ JobState.queued.toU8 := by decide
      obtain ⟨home, queued⟩ := stuck.queued
      obtain ⟨found, inside, -, state⟩ := State.queued_of_board queued
      rw [← same, present] at inside
      cases inside
      exact stoppedQueued (stopped.symm.trans state)
  | closeMarket closing => rcases closing with same | same <;> cases same <;> exact settles rfl
  | _ => exact settles rfl

/-- Whatever happens without an admin and without closing markets, the deposit of a stuck job
stays where it is. -/
theorem Stuck.not_escapes {s : State} {key : Pubkey} (stuck : Stuck s key) (filed : AllFiled s) :
    ¬ Escapes Action.Ordinary s key := by
  rintro ⟨actions, ordinary, event, member, ix, action, settles, -⟩
  have kept := Machine.guarded_trace (P := fun s => Stuck s key ∧ AllFiled s)
    (fun event : Event => event.action.Ordinary) ⟨stuck, filed⟩
    (fun _ _ _ holds success allowed =>
      ⟨stuck_step holds.1 holds.2 allowed success, filed_step holds.2 success⟩)
    actions (fun event member => ordinary _ (Machine.action_mem member)) event member
  have success := Machine.mem_trace_step member
  rw [action] at success
  rw [kept.1.1.settles_eq_false success] at settles
  cases settles

end

/-! Ways out -/

/-- A deposit that the vault holds can be paid to the payer's token account. -/
theorem Refundable.refund {s : State} {job : JobAccount} (refundable : Refundable s job)
    (founded : Founded s) (paid : 0 < job.price) (positive : 0 ≤ job.timeout) :
    ∃ market tokens, s.markets.lookup job.market = some market ∧
      market.vault ∈ s.tokens ∧ pda.associatedToken job.payer id.nosToken ≠ market.vault ∧
      job.getDeposit job.timeout = .ok (job.cost job.timeout) ∧
      transferFromVault s.tokens job.market market.vault
        (pda.associatedToken job.payer id.nosToken) (job.cost job.timeout) = .ok tokens := by
  obtain ⟨market, opened, funded, present⟩ := refundable
  have ⟨named, kind⟩ := founded.vaults job.market market.vault (by rw [opened]; rfl)
  have fits := lt_of_funded founded.tokens kind funded
  obtain ⟨vault, loaded, -⟩ := Option.map_eq_some_iff.mp kind
  obtain ⟨account, found⟩ := Finmap.mem_iff.mp present
  have mint : account.mint = id.nosToken := (founded.tokens.regular _ account found).addressed
  have receiver : (s.tokens.lookup (pda.associatedToken job.payer id.nosToken)).map
      TokenAccount.kind = some (id.nosToken, account.owner) := by
    rw [found, ← mint]
    rfl
  have apart : pda.associatedToken job.payer id.nosToken ≠ .jobsVault job.market id.nosToken :=
    Pubkey.noConfusion
  rw [named] at kind funded
  obtain ⟨tokens, moved⟩ := transferFromVault_of_funded (job.cost job.timeout) founded.tokens kind
    receiver apart funded
  refine ⟨market, tokens, opened, Finmap.mem_iff.mpr ⟨vault, loaded⟩, named ▸ apart,
    getDeposit_of_cost paid positive fits, named ▸ moved⟩

section

variable [Runtime]

/-- A waiting job can be delisted by its project. -/
theorem escapes_of_waiting {s : State} {key : Pubkey} {job : JobAccount} (founded : Founded s)
    (refundable : Refundable s job) (present : s.jobs.lookup key = some job)
    (queued : job.state = JobState.queued.toU8) (paid : 0 < job.price)
    (waits : WaitsIn s key job.market) :
    Escapes (fun action => action.byParties job.project = true) s key := by
  obtain ⟨market, tokens, opened, vault, apart, computed, moved⟩ :=
    refundable.refund founded paid (founded.timeouts key job present paid)
  obtain ⟨-, -, -, payer⟩ := refundable
  obtain ⟨other, same, tagged, member⟩ := waits
  cases opened.symm.trans same
  let a : Accounts.Delist := ⟨key, job.market, pda.associatedToken job.payer id.nosToken, job.payer,
    market.vault, job.project⟩
  have constraints : delistConstraints s a = .ok (job, market) := by
    simp only [delistConstraints, Tokens.load, bind_eq_ok, get_eq_ok, loadJob_eq_ok,
      loadMarket_eq_ok, require_eq_ok, pure_eq_ok, exists_const, exists_loaded]
    exact ⟨job, present, market, opened, rfl, rfl, rfl, queued, rfl, tagged, payer,
      Or.inr rfl, vault, apart, rfl⟩
  have success : step s (.instruction (.delist a)) = .ok { s with
      markets := s.markets.insert job.market (market.withLine (market.line.remove key))
      jobs := s.jobs.erase key
      tokens := tokens } := by
    have unfree : job.price ≠ 0 := by omega
    simp only [step, process, delist, bind_eq_ok, pure_eq_ok, Prod.exists,
      MarketAccount.removeFromQueue_eq_ok]
    refine ⟨job, market, constraints, _, ⟨member, rfl⟩, tokens, ?_, rfl⟩
    rw [if_neg unfree, computed]
    exact moved
  refine ⟨[.instruction (.delist a)], by simp [Action.byParties, a], ⟨s, _, _⟩, ?_, .delist a, rfl,
    beq_self_eq_true key, delist_returns success⟩
  rw [trace, Machine.trace_cons_of_ok _ success]
  exact List.mem_cons_self

/-- A running job can be quit by its node, and then be recovered by its project. -/
theorem escapes_of_running {s : State} {key run : Pubkey} {job : JobAccount} {account : RunAccount}
    (founded : Founded s) (refundable : Refundable s job) (present : s.jobs.lookup key = some job)
    (paid : 0 < job.price) (live : s.runs.lookup run = some account) (started : account.job = key) :
    Escapes (fun action => action.byParties job.project = true) s key := by
  obtain ⟨market, tokens, opened, vault, apart, computed, moved⟩ :=
    refundable.refund founded paid (founded.timeouts key job present paid)
  obtain ⟨-, -, -, payer⟩ := refundable
  let quitting : Accounts.Quit := ⟨key, run, account.payer, account.node⟩
  let stopped : State := { s with jobs := s.jobs.insert key job.quit, runs := s.runs.erase run }
  have quits : step s (.instruction (.quit quitting)) = .ok stopped := by
    simp only [step, process, quit, bind_eq_ok, loadJob_eq_ok, loadRun_eq_ok,
      require_eq_ok, pure_eq_ok, exists_const]
    exact ⟨job, present, account, live, started, rfl, rfl, rfl⟩
  let a : Accounts.Recover := ⟨key, job.market, market.vault,
    pda.associatedToken job.payer id.nosToken, job.payer, job.project⟩
  have inside : stopped.jobs.lookup key = some job.quit := Finmap.lookup_insert _
  have constraints : recoverConstraints stopped a = .ok job.quit := by
    simp only [recoverConstraints, Tokens.load, bind_eq_ok, get_eq_ok, loadJob_eq_ok,
      loadMarket_eq_ok, require_eq_ok, pure_eq_ok, exists_const, exists_loaded]
    exact ⟨job.quit, inside, market, opened, rfl, rfl, rfl, rfl, rfl, vault, payer, apart.symm, rfl⟩
  have success : step stopped (.instruction (.recover a)) = .ok { stopped with
      jobs := stopped.jobs.erase key
      tokens := tokens } := by
    simp only [step, process, recover, bind_eq_ok, pure_eq_ok]
    exact ⟨job.quit, constraints, _, computed, tokens, moved, rfl⟩
  have kept : ¬ (Instruction.recover a).Redirects stopped := by
    rintro ⟨found, same, -, elsewhere⟩
    cases inside.symm.trans same
    exact elsewhere rfl
  refine ⟨[.instruction (.quit quitting), .instruction (.recover a)],
    by simp [Action.byParties, a], ⟨stopped, _, _⟩, ?_, .recover a, rfl, beq_self_eq_true key,
    (recover_returns_iff success).mpr kept⟩
  rw [trace, Machine.trace_cons_of_ok _ quits, Machine.trace_cons_of_ok _ success]
  exact List.mem_cons_of_mem _ List.mem_cons_self

omit [Runtime] in
theorem board_dropRun (s : State) (run : Pubkey) :
    { s with runs := s.runs.erase run }.board = s.board.setRun run none := by
  simp only [State.board, Finmap.lookup_map_erase]
  rfl

omit [Runtime] in
/-- Without another run and outside all queues of jobs, nothing holds the job once its run is
closed. -/
theorem loose_of_no_exit {s : State} {run key : Pubkey}
    (alone : ¬ (RunsElsewhere s run key ∨ ∃ home, WaitsIn s key home)) :
    (s.board.setRun run none).Loose key := by
  refine ⟨fun home queue opened tagged member => ?_, fun other running => ?_⟩
  · obtain ⟨market, present, rfl⟩ := Option.map_eq_some_iff.mp opened
    exact alone (Or.inr ⟨home, market, present, tagged, member⟩)
  · simp only [Board.setRun, Function.update_apply] at running
    split at running
    · cases running
    · rename_i different
      obtain ⟨account, live, same⟩ := Option.map_eq_some_iff.mp running
      exact alone (Or.inl ⟨other, account, different, live, same⟩)

theorem quitAdmin_eq_ok {s s' : State} {a : Accounts.QuitAdmin}
    (success : process s (.quitAdmin a) = .ok s') : s' = { s with runs := s.runs.erase a.run } := by
  cases step_effect (show step s (.instruction (.quitAdmin a)) = .ok s' from success) with
  | quitAdmin => rfl
  | closeMarket closing => rcases closing with same | same <;> cases same

omit [Runtime] in
/-- The job of a closed run is stuck when it ran only once and waits nowhere. -/
theorem stuck_of_consistent {s : State} {run : Pubkey} {account : RunAccount} {job : JobAccount}
    (consistent : s.board.Consistent) (live : s.runs.lookup run = some account)
    (present : s.jobs.lookup account.job = some job) (queued : job.state = JobState.queued.toU8) :
    Stuck { s with runs := s.runs.erase run } account.job := by
  have loose := consistent.loose_dropRun (State.board_run live)
  rw [← board_dropRun] at loose
  exact Stuck.of_lookup loose present queued

omit [Runtime] in
theorem Action.ordinary_of_byParties {project : Pubkey} {action : Action}
    (parties : action.byParties project = true) : action.Ordinary := by
  cases action with
  | instruction ix => cases ix <;> first | exact ⟨rfl, rfl⟩ | cases parties
  | tick => exact ⟨rfl, rfl⟩
  | external => exact ⟨rfl, rfl⟩

theorem Escapes.mono {s : State} {key : Pubkey} {allowed more : Action → Prop}
    (weaker : ∀ action, allowed action → more action) (escapes : Escapes allowed s key) :
    Escapes more s key := by
  obtain ⟨actions, permitted, rest⟩ := escapes
  exact ⟨actions, fun action member => weaker action (permitted action member), rest⟩

/-- After an admin has closed the run of a paid job that is still queued, its deposit can be
moved by the project and the nodes when the job has another run or still waits in its market's
queue, and the vault holds the deposit. Without another run or place in a queue of jobs nothing
short of an admin or of closing markets ever moves it; and where no admin cleaned a job before,
it has neither. -/
theorem quit_admin_locks_deposit {s : State} (genesis : Genesis s) (actions : List Action)
    {a : Accounts.QuitAdmin} {s' : State}
    (success : process (run s actions) (.quitAdmin a) = .ok s')
    {account : RunAccount} (live : (run s actions).runs.lookup a.run = some account)
    {job : JobAccount} (present : (run s actions).jobs.lookup account.job = some job)
    (queued : job.state = JobState.queued.toU8) (paid : 0 < job.price) :
    (Refundable (run s actions) job →
      RunsElsewhere (run s actions) a.run account.job ∨
        WaitsIn (run s actions) account.job job.market →
      Escapes (fun action => action.byParties job.project = true) s' account.job) ∧
    (Escapes Action.Ordinary s' account.job →
      RunsElsewhere (run s actions) a.run account.job ∨
        ∃ home, WaitsIn (run s actions) account.job home) ∧
    ((∀ event ∈ trace s actions, event.action.cleansAdmin = false) →
      ¬ Escapes Action.Ordinary s' account.job) := by
  have stepped : step (run s actions) (.instruction (.quitAdmin a)) = .ok s' := success
  have founded := founded_step (run_founded genesis actions) stepped
  have filed := filed_step (run_filed genesis actions) stepped
  cases quitAdmin_eq_ok success
  refine ⟨fun refundable exits => ?_, fun escapes => ?_, fun uncleaned => ?_⟩
  · rcases exits with ⟨other, second, different, runs, same⟩ | waits
    · exact escapes_of_running founded refundable present paid
        ((Finmap.lookup_erase_ne different).trans runs) same
    · exact escapes_of_waiting founded refundable present queued paid waits
  · by_contra alone
    have loose := loose_of_no_exit alone
    rw [← board_dropRun] at loose
    exact (Stuck.of_lookup loose present queued).not_escapes filed escapes
  · have consistent := Machine.guarded_invariant (P := fun s => s.board.Consistent)
      (fun event : Event => event.action.cleansAdmin = false) genesis.consistent
      (fun _ _ _ consistent success kept => consistent_step_of_kept consistent kept success)
      actions uncleaned
    exact (stuck_of_consistent consistent live present queued).not_escapes filed

namespace Sample

def quitAdmin (run : Pubkey) : Accounts.QuitAdmin := ⟨run, node, id.marketAdmin⟩

def matched : RunAccount := ⟨job, node, node, 0, 100⟩

def waiting : JobAccount :=
  JobAccount.zeroed.create ipfsJob market project 2 project 30

end Sample

omit [Runtime] in
theorem quit_admin_locks_deposit_sample :
    ∃ s', @process Sample.runtime (Sample.run Sample.matching)
        (.quitAdmin (Sample.quitAdmin Sample.firstRun)) = .ok s' ∧
      ¬ @Escapes Sample.runtime Action.Ordinary s' Sample.job := by
  obtain ⟨s', success⟩ := failure_eq_none.mp (show failure (@process Sample.runtime
      (Sample.run Sample.matching) (.quitAdmin (Sample.quitAdmin Sample.firstRun))) = none by
    decide +kernel)
  have locks := @quit_admin_locks_deposit Sample.runtime _ Sample.genesis Sample.matching
    (Sample.quitAdmin Sample.firstRun) s' success Sample.matched (by decide +kernel) Sample.waiting
    (by decide +kernel) rfl (by decide)
  exact ⟨s', success, locks.2.2 (by decide +kernel)⟩

omit [Runtime] in
/-- A job is listed and taken, an admin closes its run, and nothing the project and nodes can do
moves the deposit of 60 out of the vault. -/
theorem quit_admin_strands_deposit :
    ∃ s', @process Sample.runtime (Sample.run Sample.matching)
        (.quitAdmin (Sample.quitAdmin Sample.firstRun)) = .ok s' ∧
      s'.jobs.lookup Sample.job = some Sample.waiting ∧
      s'.tokens.balance Sample.vault = 60 ∧
      ¬ @Escapes Sample.runtime (fun action => action.byParties Sample.project = true) s'
        Sample.job := by
  have stepped : failure (@process Sample.runtime (Sample.run Sample.matching)
      (.quitAdmin (Sample.quitAdmin Sample.firstRun))) = none := by
    decide +kernel
  obtain ⟨s', success⟩ := failure_eq_none.mp stepped
  have consistent := @run_consistent Sample.runtime _ Sample.genesis Sample.matching
    (by decide +kernel)
  have filed := @filed_step Sample.runtime _ s' (.instruction (.quitAdmin _))
    (@run_filed Sample.runtime _ Sample.genesis Sample.matching) success
  have present : (Sample.run Sample.matching).jobs.lookup Sample.job = some Sample.waiting := by
    decide +kernel
  have live : (Sample.run Sample.matching).runs.lookup Sample.firstRun = some Sample.matched := by
    decide +kernel
  have stuck := stuck_of_consistent consistent live present rfl
  cases @quitAdmin_eq_ok Sample.runtime _ _ _ success
  refine ⟨_, success, present, by decide +kernel, fun escapes => ?_⟩
  exact @Stuck.not_escapes Sample.runtime _ _ stuck filed
    (@Escapes.mono Sample.runtime _ _ _ _ (fun _ => Action.ordinary_of_byParties) escapes)

end

end Nosana.Jobs
