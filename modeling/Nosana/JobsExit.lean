import Nosana.JobsPayout
import Nosana.JobsPlacement
import Nosana.JobsQuitAdmin
import Nosana.Spending
import Nosana.Tally

set_option autoImplicit false

/- How projects take their deposits out: each of them alone, and all of them one after the other. -/
namespace Nosana.Jobs

open Checked

/-- The vault still holds a deposit for the job. -/
def JobAccount.Outstanding (job : JobAccount) : Prop :=
  0 < job.price ∧ (job.state = JobState.queued.toU8 ∨ job.state = JobState.stopped.toU8)

instance (job : JobAccount) : Decidable job.Outstanding := inferInstanceAs (Decidable (_ ∧ _))

/-- How many deposits are held. -/
def State.outstanding (s : State) : Nat :=
  s.jobs.total fun _ job => if job.Outstanding then 1 else 0

/-- What holds as long as markets stay open and no job is left behind. -/
structure Undisturbed (s : State) : Prop where
  sound : Sound s
  consistent : s.board.Consistent
  placed : s.board.Placed
  solvent : ∀ market, 0 ≤ surplus s market

/-- Everybody who is paid when jobs are ended has a token account to be paid to. -/
structure Payable (s : State) : Prop where
  payers : ∀ key job, s.jobs.lookup key = some job → job.Outstanding →
    pda.associatedToken job.payer id.nosToken ∈ s.tokens
  nodes : ∀ key run job, s.runs.lookup key = some run → s.jobs.lookup run.job = some job →
    job.Outstanding → pda.associatedToken run.node id.nosToken ∈ s.tokens

/-- A job is settled by its project alone, and its deposit is returned. -/
structure Settles (s s' : State) (ix : Instruction) (key : Pubkey) (job : JobAccount) : Prop where
  present : s.jobs.lookup key = some job
  outstanding : job.Outstanding
  settles : ix.settles key = true
  signers : ix.signers = [job.project]
  returns : ReturnsDeposit s s' ix

/-- What becomes of the accounts when one job is settled. -/
structure Cleared (s s' : State) (key : Pubkey) : Prop where
  jobs : s'.jobs = s.jobs.erase key ∨
    ∃ ended : JobAccount, ended.state = JobState.done.toU8 ∧ s'.jobs = s.jobs.insert key ended
  runs : ∀ other run, s'.runs.lookup other = some run → s.runs.lookup other = some run
  tokens : Tokens.Moved s.tokens s'.tokens

theorem JobAccount.not_outstanding_of_done {job : JobAccount}
    (done : job.state = JobState.done.toU8) : ¬ job.Outstanding := by
  rintro ⟨-, queued | stopped⟩
  · exact absurd (done.symm.trans queued) (by decide)
  · exact absurd (done.symm.trans stopped) (by decide)

section

variable {s s' : State} {key : Pubkey} {job : JobAccount}

theorem Cleared.lookup (cleared : Cleared s s' key) {other : Pubkey} {found : JobAccount}
    (inside : s'.jobs.lookup other = some found) (outstanding : found.Outstanding) :
    s.jobs.lookup other = some found := by
  rcases cleared.jobs with gone | ⟨ended, done, ended'⟩
  · rw [gone] at inside
    exact (Finmap.lookup_erase_eq_some inside).2
  · rw [ended'] at inside
    rcases Finmap.lookup_insert_eq_some inside with ⟨-, rfl⟩ | ⟨-, earlier⟩
    · exact absurd outstanding (JobAccount.not_outstanding_of_done done)
    · exact earlier

/-- One deposit less is held. -/
theorem Cleared.outstanding_lt (cleared : Cleared s s' key) (present : s.jobs.lookup key = some job)
    (outstanding : job.Outstanding) : s'.outstanding < s.outstanding := by
  unfold State.outstanding
  rcases cleared.jobs with gone | ⟨ended, done, rewritten⟩
  · rw [gone, Finmap.total_erase _ s.jobs key job present, if_pos outstanding]
    exact Nat.lt_add_of_pos_left Nat.one_pos
  · have exchanged := Finmap.total_insert
      (fun (_ : Pubkey) (job : JobAccount) => if job.Outstanding then 1 else 0) s.jobs key job ended
      present
    rw [if_pos outstanding, if_neg (JobAccount.not_outstanding_of_done done)] at exchanged
    rw [rewritten]
    omega

theorem mem_of_moved {tokens result : Tokens} (moved : Tokens.Moved tokens result)
    {wallet : Pubkey} (present : wallet ∈ tokens) : wallet ∈ result := by
  obtain ⟨account, found⟩ := Finmap.mem_iff.mp present
  obtain ⟨later, inside, -⟩ := Tokens.exists_of_kind (moved.kind_eq wallet) found
  exact Finmap.mem_of_lookup_eq_some inside

theorem Payable.cleared (payable : Payable s) (cleared : Cleared s s' key) : Payable s' where
  payers other found inside outstanding :=
    mem_of_moved cleared.tokens
      (payable.payers other found (cleared.lookup inside outstanding) outstanding)
  nodes other run found live inside outstanding :=
    mem_of_moved cleared.tokens (payable.nodes other run found (cleared.runs other run live)
      (cleared.lookup inside outstanding) outstanding)

/-- When no deposit is held, nothing is owed. -/
theorem owed_eq_zero (none : s.outstanding = 0) (market : Pubkey) : owed s.jobs market = 0 := by
  apply Finmap.total_eq_zero
  intro key job present
  have counted := Finmap.le_total
    (fun (_ : Pubkey) (job : JobAccount) => if job.Outstanding then 1 else 0) s.jobs key job present
    fun _ _ _ => Nat.zero_le _
  have settled : ¬ job.Outstanding := by
    intro outstanding
    rw [if_pos outstanding] at counted
    exact absurd counted (by rw [show Finmap.total _ s.jobs = 0 from none]; decide)
  unfold JobAccount.due
  exact if_neg fun holds => settled ⟨holds.2.2, holds.2.1⟩

variable [Runtime]

theorem Undisturbed.step {action : Action} (calm : Undisturbed s) (ordinary : action.Ordinary)
    (quits : action.quitsAdmin = false) (safe : ¬ action.Strands s)
    (success : step s action = .ok s') : Undisturbed s' := by
  have ⟨sound, consistent, placed, solvent⟩ := calm
  refine ⟨sound_step sound ordinary.1 success, consistent_step consistent ordinary success, ?_, ?_⟩
  · rcases step_board ordinary success with move | ⟨-, strands | relieved⟩
    · exact placed.move consistent move
    · exact absurd strands safe
    · rw [quits] at relieved
      cases relieved
  · intro market
    have before := solvent market
    rcases covered_step sound consistent ordinary success market with same | ⟨more, -⟩
    · rw [← same]
      exact before
    · omega

theorem run_undisturbed (genesis : Genesis s) (actions : List Action)
    (ordinary : ∀ event ∈ trace s actions, event.action.Ordinary ∧
      event.action.quitsAdmin = false ∧ ¬ event.action.Strands event.before) :
    Undisturbed (run s actions) := by
  refine Machine.guarded_invariant (P := Undisturbed) _ ⟨genesis.sound, genesis.consistent, ?_, ?_⟩
    (fun _ _ _ calm success allowed =>
      calm.step allowed.1 allowed.2.1 allowed.2.2 success) actions ordinary
  · intro key ticket present
    simp [State.board, genesis.jobs] at present
  · exact fun market => ((run_solvent genesis [] (by simp [trace, Machine.trace])).2.2 market).1

/-! One job -/

omit [Runtime] in
/-- The vault can pay the deposit back. -/
theorem Undisturbed.refund (calm : Undisturbed s) (payable : Payable s)
    (present : s.jobs.lookup key = some job) (outstanding : job.Outstanding) :
    ∃ market tokens, s.markets.lookup job.market = some market ∧ market.vault ∈ s.tokens ∧
      pda.associatedToken job.payer id.nosToken ≠ market.vault ∧
      job.getDeposit job.timeout = .ok (job.cost job.timeout) ∧
      transferFromVault s.tokens job.market market.vault
        (pda.associatedToken job.payer id.nosToken) (job.cost job.timeout) = .ok tokens := by
  have ⟨⟨vault, opened⟩, positive⟩ := calm.sound.jobs key job present
  obtain ⟨market, found, -⟩ := Option.map_eq_some_iff.mp opened
  have funded := cost_le_balance calm.sound calm.solvent present outstanding.2 rfl found rfl
  have refundable : Refundable s job :=
    ⟨market, found, funded, payable.payers key job present outstanding⟩
  exact refundable.refund calm.sound.founded outstanding.1 (positive outstanding.1)

/-- A job that waits is taken back. -/
theorem delist_settles (calm : Undisturbed s) (payable : Payable s)
    (present : s.jobs.lookup key = some job) (outstanding : job.Outstanding)
    (queued : job.state = JobState.queued.toU8) (waits : s.board.Waiting key job.market) :
    ∃ ix after, process s ix = .ok after ∧ Settles s after ix key job ∧ Cleared s after key := by
  obtain ⟨market, tokens, opened, vault, apart, computed, moved⟩ :=
    calm.refund payable present outstanding
  have payer := payable.payers key job present outstanding
  obtain ⟨line, found, tagged, member⟩ := waits
  cases (State.board_queue opened).symm.trans found
  let a : Accounts.Delist := ⟨key, job.market, pda.associatedToken job.payer id.nosToken, job.payer,
    market.vault, job.project⟩
  have constraints : delistConstraints s a = .ok (job, market) := by
    simp only [delistConstraints, Tokens.load, bind_eq_ok, get_eq_ok, loadJob_eq_ok,
      loadMarket_eq_ok, require_eq_ok, pure_eq_ok, exists_const, exists_loaded]
    exact ⟨job, present, market, opened, rfl, rfl, rfl, queued, rfl, tagged, payer, Or.inr rfl,
      vault, apart, rfl⟩
  have success : process s (.delist a) = .ok { s with
      markets := s.markets.insert job.market (market.withLine (market.line.remove key))
      jobs := s.jobs.erase key
      tokens := tokens } := by
    simp only [process, delist, bind_eq_ok, pure_eq_ok, Prod.exists,
      MarketAccount.removeFromQueue_eq_ok]
    refine ⟨job, market, constraints, _, ⟨member, rfl⟩, tokens, ?_, rfl⟩
    rw [if_neg (Nat.ne_of_gt outstanding.1), computed]
    exact moved
  exact ⟨.delist a, _, success,
    ⟨present, outstanding, beq_self_eq_true key, rfl, delist_returns success⟩,
    ⟨Or.inl rfl, fun _ _ live => live, transferFromVault_moved .rest moved⟩⟩

/-- A job that was quit is recovered. -/
theorem recover_settles (calm : Undisturbed s) (payable : Payable s)
    (present : s.jobs.lookup key = some job) (outstanding : job.Outstanding)
    (stopped : job.state = JobState.stopped.toU8) :
    ∃ ix after, process s ix = .ok after ∧ Settles s after ix key job ∧ Cleared s after key := by
  obtain ⟨market, tokens, opened, vault, apart, computed, moved⟩ :=
    calm.refund payable present outstanding
  have payer := payable.payers key job present outstanding
  let a : Accounts.Recover := ⟨key, job.market, market.vault,
    pda.associatedToken job.payer id.nosToken, job.payer, job.project⟩
  have constraints : recoverConstraints s a = .ok job := by
    simp only [recoverConstraints, Tokens.load, bind_eq_ok, get_eq_ok, loadJob_eq_ok,
      loadMarket_eq_ok, require_eq_ok, pure_eq_ok, exists_const, exists_loaded]
    exact ⟨job, present, market, opened, rfl, rfl, rfl, stopped, rfl, vault, payer, apart.symm, rfl⟩
  have success : process s (.recover a) = .ok { s with
      jobs := s.jobs.erase key
      tokens := tokens } := by
    simp only [process, recover, bind_eq_ok, pure_eq_ok]
    exact ⟨job, constraints, _, computed, tokens, moved, rfl⟩
  have kept : ¬ (Instruction.recover a).Redirects s := by
    rintro ⟨found, same, -, elsewhere⟩
    cases present.symm.trans same
    exact elsewhere rfl
  exact ⟨.recover a, _, success,
    ⟨present, outstanding, beq_self_eq_true key, rfl, (recover_returns_iff success).mpr kept⟩,
    ⟨Or.inl rfl, fun _ _ live => live, transferFromVault_moved .rest moved⟩⟩

/-- A job that runs is ended, and its node gets what it has earned. -/
theorem endJob_settles (calm : Undisturbed s) (payable : Payable s) {runKey : Pubkey}
    {run : RunAccount} (live : s.runs.lookup runKey = some run)
    (present : s.jobs.lookup run.job = some job) (outstanding : job.Outstanding) :
    ∃ ix after, process s ix = .ok after ∧ Settles s after ix run.job job ∧
      Cleared s after run.job := by
  obtain ⟨market, tokens, opened, vault, -, -, -⟩ := calm.refund payable present outstanding
  have payer := payable.payers run.job job present outstanding
  have node := payable.nodes runKey run job live present outstanding
  have apart : pda.associatedToken run.node id.nosToken ≠ market.vault := by
    rw [calm.sound.vault opened]
    exact Pubkey.noConfusion
  let a : Accounts.End := ⟨run.job, job.market, runKey, pda.associatedToken job.payer id.nosToken,
    pda.associatedToken run.node id.nosToken, market.vault, run.payer, job.project⟩
  have constraints : endConstraints s a = .ok (job, run) := by
    simp only [endConstraints, Tokens.load, bind_eq_ok, get_eq_ok, loadJob_eq_ok, loadMarket_eq_ok,
      loadRun_eq_ok, require_eq_ok, pure_eq_ok, exists_const, exists_loaded]
    exact ⟨job, present, market, opened, run, live, rfl, rfl, rfl, rfl, rfl, payer, Or.inr rfl,
      node, Or.inr rfl, vault, apart, rfl⟩
  obtain ⟨paid, settled⟩ :=
    end_settle_ok calm.sound calm.consistent calm.solvent constraints
  have success : process s (.endJob a) = .ok { s with
      jobs := s.jobs.insert run.job (job.endJob run.time s.clock run.node)
      runs := s.runs.erase runKey
      tokens := paid } := by
    simp only [process, endJob, bind_eq_ok, pure_eq_ok, Prod.exists]
    exact ⟨job, run, constraints, paid, settled, rfl⟩
  have running : Running s run.job runKey job.market job run market market.vault :=
    ⟨present, live, opened, rfl, rfl, rfl⟩
  refine ⟨.endJob a, _, success, ⟨present, outstanding, beq_self_eq_true _, rfl, ?_⟩,
    ⟨Or.inr ⟨_, rfl, rfl⟩, fun _ _ still => (Finmap.lookup_erase_eq_some still).2,
      settle_moved settled⟩⟩
  intro found account inside other positive
  cases present.symm.trans inside
  cases live.symm.trans other
  exact running.splitsDeposit settled rfl rfl rfl

/-- Whatever state a job is in, its project can settle it. -/
theorem project_settles (calm : Undisturbed s) (payable : Payable s)
    (present : s.jobs.lookup key = some job) (outstanding : job.Outstanding) :
    ∃ ix after, process s ix = .ok after ∧ Settles s after ix key job ∧ Cleared s after key := by
  rcases jobsPlaced_iff.mpr calm.placed key job present with
    ⟨queued, waits | ⟨runKey, run, live, rfl⟩⟩ | done | stopped
  · obtain ⟨market, opened, tagged, member⟩ := waits
    exact delist_settles calm payable present outstanding queued
      ⟨market.line, State.board_queue opened, tagged, member⟩
  · exact endJob_settles calm payable live present outstanding
  · exact absurd outstanding (JobAccount.not_outstanding_of_done done)
  · exact recover_settles calm payable present outstanding stopped

omit [Runtime] in
/-- The instructions that settle a job need no admin and list nothing. -/
theorem allowed_of_settles {ix : Instruction} (settles : ix.settles key = true) :
    (Action.instruction ix).Ordinary ∧ (Action.instruction ix).quitsAdmin = false ∧
      ¬ (Action.instruction ix).Strands s := by
  cases ix <;> first | cases settles | exact ⟨⟨rfl, rfl⟩, rfl, id⟩

/-- While a deposit is held, some project can settle a job. -/
theorem outstanding_progress (calm : Undisturbed s) (payable : Payable s)
    (some : s.outstanding ≠ 0) :
    ∃ action after, step s action = .ok after ∧
      (∃ ix key job, action = .instruction ix ∧ Settles s after ix key job) ∧
      (Undisturbed after ∧ Payable after) ∧ after.outstanding < s.outstanding := by
  have held : ∃ key job, s.jobs.lookup key = Option.some job ∧ job.Outstanding := by
    by_contra none
    push Not at none
    exact some (Finmap.total_eq_zero _ _ fun key job present => if_neg (none key job present))
  obtain ⟨key, job, present, outstanding⟩ := held
  obtain ⟨ix, after, success, settles, cleared⟩ :=
    project_settles calm payable present outstanding
  have ⟨ordinary, quits, safe⟩ := @allowed_of_settles s key ix settles.settles
  exact ⟨.instruction ix, after, success, ⟨ix, key, job, rfl, settles⟩,
    ⟨calm.step ordinary quits safe success, payable.cleared cleared⟩,
    cleared.outstanding_lt present outstanding⟩

/-- As long as markets stay open and no job is left behind, the project of every job with a deposit
can settle it with one instruction of its own, and all projects can do so one after the other until
no vault owes anything. -/
theorem deposits_can_be_returned (genesis : Genesis s) (past : List Action)
    (ordinary : ∀ event ∈ trace s past, event.action.Ordinary ∧
      event.action.quitsAdmin = false ∧ ¬ event.action.Strands event.before)
    (payable : Payable (run s past)) :
    (∀ key job, (run s past).jobs.lookup key = some job → job.Outstanding →
      ∃ ix after, process (run s past) ix = .ok after ∧ Settles (run s past) after ix key job) ∧
    ∃ exit, Machine.Completes step (run s past) exit ∧
      (∀ event ∈ trace (run s past) exit, ∃ ix key job, event.action = .instruction ix ∧
        Settles event.before event.after ix key job) ∧
      ∀ market, owed (run (run s past) exit).jobs market = 0 := by
  have calm := run_undisturbed genesis past ordinary
  constructor
  · intro key job present outstanding
    obtain ⟨ix, after, success, settles, -⟩ := project_settles calm payable present outstanding
    exact ⟨ix, after, success, settles⟩
  · obtain ⟨exit, completes, settled, -, none⟩ := Machine.exists_drained
      (P := fun state => Undisturbed state ∧ Payable state)
      (Q := fun event : Event => ∃ ix key job, event.action = .instruction ix ∧
        Settles event.before event.after ix key job)
      State.outstanding (fun state holds some => outstanding_progress holds.1 holds.2 some)
      ⟨calm, payable⟩
    exact ⟨exit, completes, settled, owed_eq_zero none⟩

end

/-- A project that has a job running can end it and has its deposit returned. -/
theorem deposits_can_be_returned_sample :
    ∃ exit, Machine.Completes (@step Sample.runtime) (Sample.run Sample.matching) exit ∧
      ∀ market, owed (@run Sample.runtime (Sample.run Sample.matching) exit).jobs market = 0 := by
  have jobs : (Sample.run Sample.matching).jobs = (∅ : Finmap fun _ : Pubkey => JobAccount).insert
      Sample.job Sample.waiting := by decide +kernel
  have runs : (Sample.run Sample.matching).runs = (∅ : Finmap fun _ : Pubkey => RunAccount).insert
      Sample.firstRun Sample.matched := by decide +kernel
  have payable : Payable (Sample.run Sample.matching) := by
    constructor
    · intro key job present _
      rw [jobs] at present
      rcases Finmap.lookup_insert_eq_some present with ⟨-, rfl⟩ | ⟨-, absent⟩
      · decide +kernel
      · cases absent
    · intro key run job live _ _
      rw [runs] at live
      rcases Finmap.lookup_insert_eq_some live with ⟨-, rfl⟩ | ⟨-, absent⟩
      · decide +kernel
      · cases absent
  obtain ⟨exit, completes, -, none⟩ := (@deposits_can_be_returned _ Sample.runtime Sample.genesis
    Sample.matching (by decide +kernel) payable).2
  exact ⟨exit, completes, none⟩

end Nosana.Jobs
