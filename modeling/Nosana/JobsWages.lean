import Nosana.JobsExit

set_option autoImplicit false

/- How nodes get what they have earned: each of them alone, and all of them one after the other. -/
namespace Nosana.Jobs

open Checked

/-- The jobs that run, and the vaults that pay for them, are in order. -/
structure Backed (s : State) : Prop where
  sound : Sound s
  consistent : s.board.Consistent
  solvent : ∀ market, 0 ≤ surplus s market

/-- Nodes at work and the payers of their jobs have token accounts to be paid to. -/
def Collectable (s : State) : Prop :=
  ∀ key run job, s.runs.lookup key = some run → s.jobs.lookup run.job = some job →
    pda.associatedToken run.node id.nosToken ∈ s.tokens ∧
      pda.associatedToken job.payer id.nosToken ∈ s.tokens

/-- How many jobs run. -/
def State.running (s : State) : Nat := s.runs.total fun _ _ => 1

/-- A run ends with a result that its node alone posts, and the node gets what it has earned. -/
structure Finishes (s s' : State) (ix : Instruction) (key : Pubkey) (run : RunAccount)
    (job : JobAccount) (ipfsResult : IpfsHash) : Prop where
  live : s.runs.lookup key = some run
  present : s.jobs.lookup run.job = some job
  signers : ix.signers = [run.node]
  runs : s'.runs = s.runs.erase key
  jobs : s'.jobs = s.jobs.insert run.job (job.finish ipfsResult run.node s.clock run.time)
  paid : 0 < job.price → SplitsDeposit s s' job (.jobsVault job.market id.nosToken)
    (pda.associatedToken run.node id.nosToken) (earnedBy s job run)

section

variable {s s' : State} {ix : Instruction} {key : Pubkey} {run : RunAccount} {job : JobAccount}
  {ipfsResult : IpfsHash}

theorem Collectable.finished (collectable : Collectable s)
    (finishes : Finishes s s' ix key run job ipfsResult) (moved : Tokens.Moved s.tokens s'.tokens) :
    Collectable s' := by
  intro other account found live inside
  rw [finishes.runs] at live
  rw [finishes.jobs] at inside
  have before := (Finmap.lookup_erase_eq_some live).2
  rcases Finmap.lookup_insert_eq_some inside with ⟨same, rfl⟩ | ⟨-, earlier⟩
  · have ⟨node, payer⟩ := collectable other account job before (same ▸ finishes.present)
    exact ⟨mem_of_moved moved node, mem_of_moved moved payer⟩
  · have ⟨node, payer⟩ := collectable other account found before earlier
    exact ⟨mem_of_moved moved node, mem_of_moved moved payer⟩

theorem Finishes.running_lt (finishes : Finishes s s' ix key run job ipfsResult) :
    s'.running < s.running := by
  unfold State.running
  rw [finishes.runs, Finmap.total_erase _ s.runs key run finishes.live]
  exact Nat.lt_add_of_pos_left Nat.one_pos

theorem runs_empty (none : s.running = 0) : s.runs = ∅ := by
  apply Finmap.ext_lookup
  intro key
  rw [Finmap.lookup_empty, Finmap.lookup_eq_none]
  intro inside
  obtain ⟨run, live⟩ := Finmap.mem_iff.mp inside
  have counted := Finmap.le_total (fun (_ : Pubkey) (_ : RunAccount) => 1) s.runs key run live
    fun _ _ _ => Nat.zero_le _
  rw [show Finmap.total _ s.runs = 0 from none] at counted
  cases counted

variable [Runtime]

theorem Backed.step {action : Action} (backed : Backed s) (ordinary : action.Ordinary)
    (success : step s action = .ok s') : Backed s' := by
  have ⟨sound, consistent, solvent⟩ := backed
  refine ⟨sound_step sound ordinary.1 success, consistent_step consistent ordinary success, ?_⟩
  intro market
  have before := solvent market
  rcases covered_step sound consistent ordinary success market with same | ⟨more, -⟩
  · rw [← same]
    exact before
  · omega

/-- Whoever runs a job can finish it. -/
theorem node_finishes (backed : Backed s) (collectable : Collectable s)
    (live : s.runs.lookup key = some run) (result : ipfsResult ≠ JobAccount.nullResult) :
    ∃ ix job after, process s ix = .ok after ∧ Finishes s after ix key run job ipfsResult ∧
      (Action.instruction ix).Ordinary ∧ Tokens.Moved s.tokens after.tokens := by
  have ⟨sound, consistent, solvent⟩ := backed
  obtain ⟨job, present, queued⟩ := (runConsistent consistent live).job
  obtain ⟨⟨vault, opened⟩, -⟩ := sound.jobs run.job job present
  obtain ⟨market, found, -⟩ := Option.map_eq_some_iff.mp opened
  have ⟨node, payer⟩ := collectable key run job live present
  obtain ⟨receiver, received⟩ := Finmap.mem_iff.mp node
  have mint : receiver.mint = id.nosToken := (sound.tokens.regular _ receiver received).addressed
  have home := sound.vault found
  obtain ⟨held, funded, -⟩ := sound.account found
  have apart : market.vault ≠ pda.associatedToken run.node id.nosToken := by
    rw [home]
    exact Pubkey.noConfusion
  let a : Accounts.Finish := ⟨run.job, key, job.market, market.vault,
    pda.associatedToken job.payer id.nosToken, pda.associatedToken run.node id.nosToken, run.payer,
    job.payer, run.node⟩
  have constraints : finishConstraints s a = .ok (job, run) := by
    simp only [finishConstraints, Tokens.load, bind_eq_ok, get_eq_ok, loadJob_eq_ok,
      loadMarket_eq_ok, loadRun_eq_ok, require_eq_ok, pure_eq_ok, exists_const, exists_loaded]
    exact ⟨job, present, run, live, market, found, rfl, rfl, queued, rfl, rfl, rfl, rfl,
      Finmap.mem_of_lookup_eq_some funded, payer, Or.inr rfl, receiver, received, Or.inr mint,
      apart, rfl⟩
  obtain ⟨tokens, settled⟩ := finish_settle_ok sound solvent constraints ipfsResult
  have success : process s (.finish a ipfsResult) = .ok { s with
      jobs := s.jobs.insert run.job (job.finish ipfsResult run.node s.clock run.time)
      runs := s.runs.erase key
      tokens := tokens } := by
    simp only [process, finish, bind_eq_ok, require_eq_ok, pure_eq_ok, Prod.exists]
    exact ⟨job, run, constraints, (), result, tokens, settled, rfl⟩
  have running : Running s run.job key job.market job run market market.vault :=
    ⟨present, live, found, rfl, rfl, rfl⟩
  refine ⟨.finish a ipfsResult, job, _, success, ⟨live, present, rfl, rfl, rfl, fun _ => ?_⟩,
    ⟨rfl, rfl⟩, settle_moved settled⟩
  rw [← home]
  exact running.splitsDeposit settled rfl rfl rfl

/-- While a job runs, some node can finish. -/
theorem running_progress (backed : Backed s) (collectable : Collectable s)
    (result : ipfsResult ≠ JobAccount.nullResult) (some : s.running ≠ 0) :
    ∃ action after, step s action = .ok after ∧
      (∃ ix key run job, action = .instruction ix ∧ Finishes s after ix key run job ipfsResult) ∧
      (Backed after ∧ Collectable after) ∧ after.running < s.running := by
  have works : ∃ key run, s.runs.lookup key = Option.some run := by
    by_contra none
    push Not at none
    exact some (Finmap.total_eq_zero _ _ fun key run live => absurd live (none key run))
  obtain ⟨key, run, live⟩ := works
  obtain ⟨ix, job, after, success, finishes, ordinary, moved⟩ :=
    node_finishes backed collectable live result
  exact ⟨.instruction ix, after, success, ⟨ix, key, run, job, rfl, finishes⟩,
    ⟨backed.step ordinary success, collectable.finished finishes moved⟩, finishes.running_lt⟩

end

/-- As long as markets stay open and no admin removes a job, every node at work can finish with one
instruction of its own and is paid what it has earned, and all nodes can do so one after the other
until nobody works any more. -/
theorem nodes_can_finish [Runtime] {s : State} (genesis : Genesis s) (past : List Action)
    (ordinary : ∀ event ∈ trace s past, event.action.Ordinary)
    (collectable : Collectable (run s past)) (ipfsResult : IpfsHash)
    (result : ipfsResult ≠ JobAccount.nullResult) :
    (∀ key account, (run s past).runs.lookup key = some account →
      ∃ ix job after, process (run s past) ix = .ok after ∧
        Finishes (run s past) after ix key account job ipfsResult) ∧
    ∃ shift, Machine.Completes step (run s past) shift ∧
      (∀ event ∈ trace (run s past) shift, ∃ ix key account job, event.action = .instruction ix ∧
        Finishes event.before event.after ix key account job ipfsResult) ∧
      (run (run s past) shift).runs = ∅ := by
  have ⟨sound, consistent, solvent⟩ := run_solvent genesis past ordinary
  have backed : Backed (run s past) := ⟨sound, consistent, fun market => (solvent market).1⟩
  constructor
  · intro key account live
    obtain ⟨ix, job, after, success, finishes, -⟩ := node_finishes backed collectable live result
    exact ⟨ix, job, after, success, finishes⟩
  · obtain ⟨shift, completes, finished, -, none⟩ := Machine.exists_drained
      (P := fun state => Backed state ∧ Collectable state)
      (Q := fun event : Event => ∃ ix key account job, event.action = .instruction ix ∧
        Finishes event.before event.after ix key account job ipfsResult)
      State.running
      (fun state holds some => running_progress holds.1 holds.2 result some) ⟨backed, collectable⟩
    exact ⟨shift, completes, finished, runs_empty none⟩

/-- The node that took the job can finish it. -/
theorem nodes_can_finish_sample :
    ∃ shift, Machine.Completes (@step Sample.runtime) (Sample.run Sample.matching) shift ∧
      (@run Sample.runtime (Sample.run Sample.matching) shift).runs = ∅ := by
  have jobs : (Sample.run Sample.matching).jobs = (∅ : Finmap fun _ : Pubkey => JobAccount).insert
      Sample.job Sample.waiting := by decide +kernel
  have runs : (Sample.run Sample.matching).runs = (∅ : Finmap fun _ : Pubkey => RunAccount).insert
      Sample.firstRun Sample.matched := by decide +kernel
  have collectable : Collectable (Sample.run Sample.matching) := by
    intro key run job live present
    rw [runs] at live
    rw [jobs] at present
    rcases Finmap.lookup_insert_eq_some live with ⟨-, rfl⟩ | ⟨-, absent⟩
    · rcases Finmap.lookup_insert_eq_some present with ⟨-, rfl⟩ | ⟨-, absent⟩
      · decide +kernel
      · cases absent
    · cases absent
  obtain ⟨shift, completes, -, none⟩ := (@nodes_can_finish Sample.runtime _ Sample.genesis
    Sample.matching (by decide +kernel) collectable Sample.ipfsResult (by decide)).2
  exact ⟨shift, completes, none⟩

end Nosana.Jobs
