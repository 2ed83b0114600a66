import Nosana.JobsPayout

set_option autoImplicit false

/- Whether the instructions that settle a job can abort on arithmetic. Three of them pass over
free jobs before they compute a deposit, `recover` does not. -/
namespace Nosana.Jobs

open Checked

/-- The failures of machine operations, the token program's included. -/
def arithmetic : Error → Bool
  | .panic _ => true
  | .token .overflow => true
  | _ => false

/-- The constraints of an instruction that settles a job hold. -/
def Instruction.Accepted (s : State) : Instruction → Prop
  | .finish a _ => ∃ found, finishConstraints s a = .ok found
  | .endJob a => ∃ found, endConstraints s a = .ok found
  | .delist a => ∃ found, delistConstraints s a = .ok found
  | .recover a => ∃ found, recoverConstraints s a = .ok found
  | _ => False

/-- A free job is recovered whose timeout is not a `u64`. Of the values of an `i64` these are the
negative ones. -/
def Instruction.RecoversUnsignable (s : State) : Instruction → Prop
  | .recover a => ∃ job ∈ s.jobs.lookup a.job, job.price = 0 ∧
      ¬ (0 ≤ job.timeout ∧ job.timeout < 2 ^ 64)
  | _ => False

instance (s : State) : (ix : Instruction) → Decidable (ix.RecoversUnsignable s)
  | .recover a => inferInstanceAs (Decidable (∃ job ∈ s.jobs.lookup a.job, job.price = 0 ∧
      ¬ (0 ≤ job.timeout ∧ job.timeout < 2 ^ 64)))
  | .openMarket .. | .update .. | .close .. | .closeAdmin .. | .setSettings .. | .closeSettings ..
  | .assign .. | .list .. | .delist .. | .extend .. | .endJob .. | .work .. | .stop ..
  | .complete ..
  | .finish .. | .quit .. | .quitAdmin .. | .clean .. | .cleanAdmin .. =>
    inferInstanceAs (Decidable False)

/-- The instruction does not abort on arithmetic, however else it may fail. -/
def Total [Runtime] (s : State) (ix : Instruction) : Prop :=
  ∀ reason, process s ix = .error reason → arithmetic reason = false

/-- A transfer of a mint whose supply fits does not overflow. -/
theorem transfer_arithmetic {tokens : Tokens} {source destination authority : Pubkey}
    {amount : Nat} {reason : Error}
    (capped : ∀ account, tokens.lookup source = some account →
      tokens.supply account.mint < 2 ^ 64)
    (failed : tokens.transfer source destination authority amount = .error reason) :
    arithmetic reason = false := by
  simp only [Tokens.transfer, bind_eq_error, get_eq_error, get_eq_ok, require_eq_error,
    require_eq_ok] at failed
  rcases failed with ⟨-, rfl⟩ | ⟨sender, sent, ⟨-, rfl⟩ | ⟨receiver, received, ⟨-, rfl⟩ |
    ⟨_, -, ⟨-, rfl⟩ | ⟨_, funded, ⟨-, rfl⟩ | ⟨_, sameMint, refused | ⟨left, -, last⟩⟩⟩⟩⟩⟩
  iterate 5 rfl
  · rcases TokenAccount.authorize_eq_error refused with rfl | rfl <;> rfl
  split at last
  · cases last
  · rename_i apart
    have both := Tokens.amounts_le_supply apart sent received sameMint
    have supply := capped sender sent
    simp only [bind_eq_error, require_eq_error, pure_ne_error, and_false, exists_false,
      or_false] at last
    omega

theorem transferFromVault_arithmetic {tokens : Tokens} {market vault destination : Pubkey}
    {amount : Nat} {reason : Error}
    (capped : ∀ account, tokens.lookup vault = some account →
      tokens.supply account.mint < 2 ^ 64)
    (failed : transferFromVault tokens market vault destination amount = .error reason) :
    arithmetic reason = false := by
  simp only [transferFromVault, Tokens.load, bind_eq_error, get_eq_error, get_eq_ok,
    require_eq_error, require_eq_ok] at failed
  rcases failed with ⟨-, rfl⟩ | ⟨account, -, ⟨-, rfl⟩ | ⟨_, -, moved⟩⟩
  · rfl
  · rfl
  · exact transfer_arithmetic capped moved

theorem getDeposit_of_free {job : JobAccount} (free : job.price = 0) (positive : 0 ≤ job.timeout)
    (fits : job.timeout < 2 ^ 64) : job.getDeposit job.timeout = .ok 0 :=
  getDeposit_eq_ok.mpr ⟨positive, fits, by simp [free], by simp [free]⟩

/-- The supply of the token of a market's vault fits. -/
theorem Sound.capped {s : State} (sound : Sound s) {key : Pubkey} {market : MarketAccount}
    (opened : s.markets.lookup key = some market) (account : TokenAccount)
    (present : s.tokens.lookup market.vault = some account) :
    s.tokens.supply account.mint < 2 ^ 64 := by
  obtain ⟨found, inside, mint, -⟩ := sound.account opened
  cases present.symm.trans inside
  rw [mint]
  exact Nat.lt_of_le_of_lt sound.tokens.capped (by decide)

/-- The deposit of an open paid job can be computed. -/
theorem getDeposit_of_open {s : State} (sound : Sound s) (solvent : ∀ market, 0 ≤ surplus s market)
    {key : Pubkey} {job : JobAccount} (present : s.jobs.lookup key = some job)
    (outstanding : job.state = JobState.queued.toU8 ∨ job.state = JobState.stopped.toU8)
    {market : MarketAccount} (opened : s.markets.lookup job.market = some market)
    (paid : 0 < job.price) : job.getDeposit job.timeout = .ok (job.cost job.timeout) := by
  have funded := cost_le_balance sound solvent present outstanding rfl opened rfl
  have ⟨_, kind⟩ := sound.vaults job.market market.vault (by rw [opened]; rfl)
  exact getDeposit_of_cost paid ((sound.jobs key job present).2 paid)
    (lt_of_funded sound.tokens kind funded)

section

variable [Runtime]

theorem finish_total {s : State} (sound : Sound s) (solvent : ∀ market, 0 ≤ surplus s market)
    {a : Accounts.Finish} {ipfsResult : IpfsHash}
    (accepted : (Instruction.finish a ipfsResult).Accepted s) : Total s (.finish a ipfsResult) := by
  obtain ⟨⟨job, account⟩, constraints⟩ := accepted
  obtain ⟨tokens, settled⟩ := finish_settle_ok sound solvent constraints ipfsResult
  intro reason failed
  by_cases posted : ipfsResult = JobAccount.nullResult
  · simp only [process, finish, constraints, posted] at failed
    cases failed
    rfl
  · obtain ⟨s', success, -⟩ := finish_of_settle constraints posted settled
    cases (show process s (.finish a ipfsResult) = .ok s' from success).symm.trans failed

theorem end_total {s : State} (sound : Sound s) (consistent : s.board.Consistent)
    (solvent : ∀ market, 0 ≤ surplus s market) {a : Accounts.End}
    (accepted : (Instruction.endJob a).Accepted s) : Total s (.endJob a) := by
  obtain ⟨⟨job, account⟩, constraints⟩ := accepted
  obtain ⟨tokens, settled⟩ := end_settle_ok sound consistent solvent constraints
  obtain ⟨s', success, -⟩ := endJob_of_settle constraints settled
  intro reason failed
  cases (show process s (.endJob a) = .ok s' from success).symm.trans failed

theorem delist_total {s : State} (sound : Sound s) (solvent : ∀ market, 0 ≤ surplus s market)
    {a : Accounts.Delist} (accepted : (Instruction.delist a).Accepted s) : Total s (.delist a) := by
  obtain ⟨⟨job, market⟩, constraints⟩ := accepted
  obtain ⟨present, opened, placed, queued, vaulted, -, -⟩ := delistConstraints_eq_ok constraints
  have held : s.markets.lookup job.market = some market := by
    rw [placed]
    exact opened
  intro reason failed
  unfold process delist at failed
  rcases (bind_eq_error _ _ _).mp failed with early | ⟨found, same, late⟩
  · cases constraints.symm.trans early
  · cases constraints.symm.trans same
    rcases (bind_eq_error _ _ _).mp late with missing | ⟨removed, -, unpaid⟩
    · unfold MarketAccount.removeFromQueue at missing
      split at missing <;> cases missing
      rfl
    · rcases (bind_eq_error _ _ _).mp unpaid with refund | ⟨tokens, -, done⟩
      · split at refund
        · cases refund
        · rename_i unfree
          have computed := getDeposit_of_open sound solvent present (Or.inl queued) held
            (Nat.pos_of_ne_zero unfree)
          rw [computed] at refund
          exact transferFromVault_arithmetic (vaulted ▸ sound.capped opened) refund
      · cases done

/-- A recovery fails to convert the timeout of a free job, and no other one fails so. -/
theorem recover_total_iff {s : State} (sound : Sound s) (solvent : ∀ market, 0 ≤ surplus s market)
    {a : Accounts.Recover} (accepted : (Instruction.recover a).Accepted s) :
    Total s (.recover a) ↔ ¬ (Instruction.recover a).RecoversUnsignable s := by
  obtain ⟨job, constraints⟩ := accepted
  obtain ⟨present, placed, stopped, -, market, opened, vaulted⟩ :=
    recoverConstraints_eq_ok constraints
  have held : s.markets.lookup job.market = some market := by
    rw [placed]
    exact opened
  constructor
  · rintro total ⟨found, inside, free, negative⟩
    cases present.symm.trans inside
    have computed : job.getDeposit job.timeout = .error (.panic .conversion) := by
      simp only [JobAccount.getDeposit, toUnsigned, bind_eq_error, checked_eq_error]
      exact Or.inl ⟨negative, rfl⟩
    have failed : process s (.recover a) = .error (.panic .conversion) := by
      simp only [process, recover, bind_eq_error]
      exact Or.inr ⟨job, constraints, Or.inl computed⟩
    cases total _ failed
  · intro kept reason failed
    have computed : ∃ total, job.getDeposit job.timeout = .ok total := by
      rcases Nat.eq_zero_or_pos job.price with free | paid
      · obtain ⟨positive, fits⟩ : 0 ≤ job.timeout ∧ job.timeout < 2 ^ 64 := by
          by_contra negative
          exact kept ⟨job, present, free, negative⟩
        exact ⟨_, getDeposit_of_free free positive fits⟩
      · exact ⟨_, getDeposit_of_open sound solvent present (Or.inr stopped) held paid⟩
    obtain ⟨total, computed⟩ := computed
    unfold process recover at failed
    rcases (bind_eq_error _ _ _).mp failed with early | ⟨found, same, late⟩
    · cases constraints.symm.trans early
    · cases constraints.symm.trans same
      rcases (bind_eq_error _ _ _).mp late with uncomputed | ⟨deposit, -, paying⟩
      · cases computed.symm.trans uncomputed
      · rcases (bind_eq_error _ _ _).mp paying with refund | ⟨tokens, -, done⟩
        · exact transferFromVault_arithmetic (vaulted ▸ sound.capped opened) refund
        · cases done

/-- Whatever was listed, assigned and extended, at any price and with any timeout: when the
constraints of an instruction that settles a job hold, it does not abort on arithmetic, exactly
when it does not recover a free job whose timeout is negative. -/
theorem settlement_total_iff {s : State} (genesis : Genesis s) (actions : List Action)
    (ordinary : ∀ event ∈ trace s actions, event.action.Ordinary) {ix : Instruction}
    (accepted : ix.Accepted (run s actions)) :
    Total (run s actions) ix ↔ ¬ ix.RecoversUnsignable (run s actions) := by
  have ⟨sound, consistent, solvent⟩ := run_solvent genesis actions ordinary
  have solvent := fun market => (solvent market).1
  cases ix with
  | finish a ipfsResult => exact iff_of_true (finish_total sound solvent accepted) id
  | endJob a => exact iff_of_true (end_total sound consistent solvent accepted) id
  | delist a => exact iff_of_true (delist_total sound solvent accepted) id
  | recover a => exact recover_total_iff sound solvent accepted
  | _ => exact accepted.elim

namespace Sample

/-- In a free market a job is listed with a negative timeout, and the node that takes it quits. -/
def unsignable : List Action :=
  [openMarket 0 0, list job firstRun (-1), work firstRun node,
    .instruction (.quit ⟨job, firstRun, node, node⟩)]

def recovery : Instruction :=
  .recover ⟨job, market, vault, wallet project, project, project⟩

end Sample

omit [Runtime] in
theorem settlement_total_iff_sample :
    @Total Sample.runtime (Sample.run Sample.unsignable) Sample.recovery ↔
      ¬ Sample.recovery.RecoversUnsignable (Sample.run Sample.unsignable) := by
  refine @settlement_total_iff Sample.runtime _ Sample.genesis Sample.unsignable (by decide +kernel)
    Sample.recovery ?_
  exact failure_eq_none.mp (by decide +kernel)

omit [Runtime] in
/-- The free job with a negative timeout was accepted, and `recover` panics on it. -/
theorem recover_of_free_job_panics :
    (∀ event ∈ Sample.trace Sample.unsignable, event.action.Ordinary) ∧
    Sample.recovery.Accepted (Sample.run Sample.unsignable) ∧
    @process Sample.runtime (Sample.run Sample.unsignable) Sample.recovery =
      .error (.panic .conversion) ∧
    ¬ @Total Sample.runtime (Sample.run Sample.unsignable) Sample.recovery := by
  have panics : @process Sample.runtime (Sample.run Sample.unsignable) Sample.recovery =
      .error (.panic .conversion) :=
    failure_eq_some.mp (by decide +kernel)
  refine ⟨by decide +kernel, failure_eq_none.mp (by decide +kernel), panics, fun total => ?_⟩
  cases total _ panics

end

end Nosana.Jobs
