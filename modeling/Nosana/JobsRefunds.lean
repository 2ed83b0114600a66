import Nosana.JobsVault

set_option autoImplicit false

/- Who receives what leaves a vault on account of a job. The payer of a job need be neither
its project nor a signer of the instruction that pays. -/
namespace Nosana.Jobs

open Checked

/-- The deposit of a job leaves the vault of its market: one account receives what was earned,
the payer's token account the rest, and every other balance stays. -/
structure SplitsDeposit (s s' : State) (job : JobAccount) (vault user : Pubkey) (earned : Nat) :
    Prop where
  vaulted : ∃ market, s.markets.lookup job.market = some market ∧ market.vault = vault
  covered : earned ≤ job.cost job.timeout
  balances : ∀ key,
    s'.tokens.balance key + (if key = vault then job.cost job.timeout else 0) =
      s.tokens.balance key + (if key = user then earned else 0) +
        (if key = pda.associatedToken job.payer id.nosToken then job.cost job.timeout - earned
          else 0)

/-- What the node of a run has earned by now. -/
def earnedBy (s : State) (job : JobAccount) (run : RunAccount) : Nat :=
  job.cost (min (s.clock - run.time) job.timeout)

/-- Of the deposit of a paid job the node's side gets what it earned, when the job ran, and the
payer everything else. The node that finishes a job names the account it is paid to. -/
def ReturnsDeposit (s s' : State) : Instruction → Prop
  | .finish a _ => ∀ job run, s.jobs.lookup a.job = some job → s.runs.lookup a.run = some run →
      0 < job.price →
      run.node = a.authority ∧ SplitsDeposit s s' job a.vault a.user (earnedBy s job run)
  | .endJob a => ∀ job run, s.jobs.lookup a.job = some job → s.runs.lookup a.run = some run →
      0 < job.price → SplitsDeposit s s' job a.vault
        (pda.associatedToken run.node id.nosToken) (earnedBy s job run)
  | .delist a => ∀ job, s.jobs.lookup a.job = some job → 0 < job.price →
      SplitsDeposit s s' job a.vault (pda.associatedToken job.payer id.nosToken) 0
  | .recover a => ∀ job, s.jobs.lookup a.job = some job → 0 < job.price →
      SplitsDeposit s s' job a.vault (pda.associatedToken job.payer id.nosToken) 0
  | _ => True

/-- A deposit is recovered to another account than the payer's. -/
def Instruction.Redirects (s : State) : Instruction → Prop
  | .recover a => ∃ job ∈ s.jobs.lookup a.job, 0 < job.cost job.timeout ∧
      a.user ≠ pda.associatedToken job.payer id.nosToken
  | _ => False

instance (s : State) (ix : Instruction) : Decidable (ix.Redirects s) := by
  unfold Instruction.Redirects
  split <;> infer_instance

/-- A settlement splits the deposit between the node's side and the payer. -/
theorem Running.splitsDeposit {s s' : State} {key runKey marketKey : Pubkey}
    {job ended : JobAccount} {run : RunAccount} {market : MarketAccount}
    {user deposit vault : Pubkey}
    (running : Running s key runKey marketKey job run market vault)
    (settled : settle s.tokens ended marketKey vault user deposit = .ok s'.tokens)
    (timeout : ended.cost ended.timeout = job.cost job.timeout)
    (earned : ended.earned = earnedBy s job run)
    (associated : deposit = pda.associatedToken job.payer id.nosToken) :
    SplitsDeposit s s' job vault user (earnedBy s job run) := by
  refine ⟨⟨market, running.placed ▸ running.opened, running.vaulted⟩, ?_, fun other => ?_⟩
  · rw [← earned, ← timeout]
    exact ended.earned_le_cost
  · have balance := settle_balance settled other
    rw [timeout, earned, associated] at balance
    exact balance

/-- Without earnings, the whole deposit goes to one account. -/
theorem splitsDeposit_of_refund {s s' : State} {job : JobAccount} {market : MarketAccount}
    {vault : Pubkey} (opened : s.markets.lookup job.market = some market)
    (vaulted : market.vault = vault)
    (balances : ∀ key, s'.tokens.balance key +
      (if key = vault then job.cost job.timeout else 0) = s.tokens.balance key +
        (if key = pda.associatedToken job.payer id.nosToken then job.cost job.timeout else 0)) :
    SplitsDeposit s s' job vault (pda.associatedToken job.payer id.nosToken) 0 := by
  refine ⟨⟨market, opened, vaulted⟩, Nat.zero_le _, fun key => ?_⟩
  rw [balances key, ite_self, Nat.add_zero, Nat.sub_zero]

theorem Refunded.balance {tokens result : Tokens} {job : JobAccount} {market vault deposit : Pubkey}
    (refunded : Refunded tokens result job market vault deposit) (key : Pubkey) :
    result.balance key + (if key = vault then job.cost job.timeout else 0) =
      tokens.balance key + (if key = deposit then job.cost job.timeout else 0) := by
  rcases refunded with ⟨free, rfl⟩ | ⟨-, total, computed, moved⟩
  · simp only [JobAccount.cost_of_free free, ite_self]
  · obtain ⟨-, -, -, rfl⟩ := getDeposit_eq_ok.mp computed
    exact transferFromVault_balance moved key

variable [Runtime]

theorem delist_returns {s s' : State} {a : Accounts.Delist}
    (success : process s (.delist a) = .ok s') : ReturnsDeposit s s' (.delist a) := by
  cases step_effect (show step s (.instruction (.delist a)) = .ok s' from success) with
  | @delist a market job tokens present placed opened vaulted queued waiting member apart
      refunded =>
      intro found inside paid
      cases present.symm.trans inside
      have payer := (delist_associated success present).resolve_left (by omega)
      rw [payer] at refunded
      exact splitsDeposit_of_refund (placed ▸ opened) vaulted refunded.balance
  | closeMarket closing => rcases closing with same | same <;> cases same

/-- Nothing ties the account that a deposit is recovered to to the payer. -/
theorem recover_returns_iff {s s' : State} {a : Accounts.Recover}
    (success : process s (.recover a) = .ok s') :
    ReturnsDeposit s s' (.recover a) ↔ ¬ (Instruction.recover a).Redirects s := by
  cases step_effect (show step s (.instruction (.recover a)) = .ok s' from success) with
  | @recover a market job tokens total present placed opened vaulted stopped apart amount
      refunded =>
      obtain ⟨-, -, -, rfl⟩ := getDeposit_eq_ok.mp amount
      have balance := transferFromVault_balance refunded
      constructor
      · rintro returns ⟨found, inside, some, elsewhere⟩
        cases present.symm.trans inside
        have paid : 0 < job.price := Nat.pos_of_mul_pos_right some
        have split := (returns job present paid).balances a.user
        have moved := balance a.user
        simp only [apart.symm, elsewhere, if_false, if_true, Nat.add_zero] at split moved
        unfold JobAccount.cost at some
        omega
      · intro kept found inside paid
        cases present.symm.trans inside
        refine splitsDeposit_of_refund (placed ▸ opened) vaulted fun key => ?_
        rcases Nat.eq_zero_or_pos (job.cost job.timeout) with none | some
        · have moved := balance key
          unfold JobAccount.cost at none ⊢
          simp only [none, ite_self] at moved ⊢
          exact moved
        · have payer : a.user = pda.associatedToken job.payer id.nosToken := by
            by_contra elsewhere
            exact kept ⟨job, present, some, elsewhere⟩
          rw [← payer]
          exact balance key
  | closeMarket closing => rcases closing with same | same <;> cases same

/-- Whatever the accounts of the caller, the deposit of a paid job only goes to the node that
earned it and back to the payer, exactly when it is not recovered to some other account. -/
theorem deposit_returns_iff_not_redirected {s s' : State} {ix : Instruction}
    (success : process s ix = .ok s') : ReturnsDeposit s s' ix ↔ ¬ ix.Redirects s := by
  cases step_effect (show step s (.instruction ix) = .ok s' from success) with
  | @finish a ipfsResult market job run tokens running queued apart associated settled =>
      refine iff_of_true (fun found account present live paid => ?_) id
      cases running.present.symm.trans present
      cases running.live.symm.trans live
      obtain ⟨-, signer, inside, -, signed⟩ := finish_signed success
      cases live.symm.trans inside
      exact ⟨signed, running.splitsDeposit settled rfl rfl (associated.resolve_left (by omega))⟩
  | @endJob a market job run tokens running apart associated settled =>
      refine iff_of_true (fun found account present live paid => ?_) id
      cases running.present.symm.trans present
      cases running.live.symm.trans live
      obtain ⟨payer, node⟩ := associated.resolve_left (by omega)
      rw [← node]
      exact running.splitsDeposit settled rfl rfl payer
  | delist => exact iff_of_true (delist_returns success) id
  | recover => exact recover_returns_iff success
  | closeMarket closing =>
      rcases closing with same | same <;> cases same <;> exact iff_of_true trivial id
  | _ => exact iff_of_true trivial id

namespace Sample

/-- A project of its own lists a job that another key pays for, and the node quits it. -/
def employer : Pubkey := .address 60

def listPaid : Action :=
  .instruction (.list ⟨job, market, firstRun, 0, wallet project, vault, project, rewardsVault,
    employer, ⟨none, none, none⟩⟩ ipfsJob 30)

def quit : Action := .instruction (.quit ⟨job, firstRun, node, node⟩)

def quitted : List Action := [openMarket 2 0, listPaid, work firstRun node, quit]

def recovering (user : Pubkey) : Instruction :=
  .recover ⟨job, market, vault, user, project, employer⟩

end Sample

omit [Runtime] in
theorem deposit_returns_iff_not_redirected_sample :
    ∃ s', @process Sample.runtime (Sample.run Sample.quitted)
        (Sample.recovering (Sample.wallet Sample.project)) = .ok s' ∧
      (ReturnsDeposit (Sample.run Sample.quitted) s'
          (Sample.recovering (Sample.wallet Sample.project)) ↔
        ¬ (Sample.recovering (Sample.wallet Sample.project)).Redirects
          (Sample.run Sample.quitted)) := by
  obtain ⟨s', success⟩ := failure_eq_none.mp (show failure (@process Sample.runtime
      (Sample.run Sample.quitted) (Sample.recovering (Sample.wallet Sample.project))) = none by
    decide +kernel)
  exact ⟨s', success, @deposit_returns_iff_not_redirected Sample.runtime _ _ _ success⟩

omit [Runtime] in
/-- The project of a quit job recovers the deposit of the payer to an account of its choice. -/
theorem project_recovers_deposit_of_payer :
    ∃ s', @process Sample.runtime (Sample.run Sample.quitted)
        (Sample.recovering (Sample.wallet Sample.node)) = .ok s' ∧
      s'.tokens.balance (Sample.wallet Sample.node) = 60 ∧
      ¬ ReturnsDeposit (Sample.run Sample.quitted) s'
        (Sample.recovering (Sample.wallet Sample.node)) := by
  have paid : (fun s' => s'.tokens.balance (Sample.wallet Sample.node)) <$>
      @process Sample.runtime (Sample.run Sample.quitted)
        (Sample.recovering (Sample.wallet Sample.node)) = .ok 60 := by
    decide +kernel
  have held : ((Sample.run Sample.quitted).jobs.lookup Sample.job).map
      (fun job => (job.price, job.payer)) = some (2, Sample.project) := by
    decide +kernel
  have before : (Sample.run Sample.quitted).tokens.balance (Sample.wallet Sample.node) = 0 := by
    decide +kernel
  obtain ⟨s', success, gained⟩ := (map_eq_ok _ _ _).mp paid
  refine ⟨s', success, gained, fun returns => ?_⟩
  obtain ⟨job, present, same⟩ := Option.map_eq_some_iff.mp held
  obtain ⟨price, payer⟩ := Prod.mk.inj same
  have split := (returns job present (by omega)).balances (Sample.wallet Sample.node)
  have apart : Sample.wallet Sample.node ≠ Sample.vault := by decide
  have other : Sample.wallet Sample.node ≠ pda.associatedToken job.payer id.nosToken := by
    rw [payer]
    decide
  rw [if_neg apart, if_neg other, if_neg other, gained, before] at split
  omega

end Nosana.Jobs
