import Nosana.Spending

set_option autoImplicit false

/- Which instructions take tokens out of a vault, and who has to sign them. -/
namespace Nosana

open Checked

namespace Jobs

/-- A job with a price, whose market has a vault. -/
structure Deposited (s : State) (key vault : Pubkey) (job : JobAccount) : Prop where
  present : s.jobs.lookup key = some job
  paid : job.price ≠ 0
  vaulted : ∃ market, s.markets.lookup job.market = some market ∧ market.vault = vault

/-- The deposit of a job is released by its project, or by the node that runs it. Whoever closes
a market empties its vault. -/
inductive Release (s : State) (vault : Pubkey) : Instruction → Prop
  | close {a : Accounts.Close} {market : MarketAccount}
      (present : s.markets.lookup a.market = some market) (vaulted : market.vault = vault)
      (signed : a.authority = market.authority) : Release s vault (.close a)
  | closeAdmin {a : Accounts.Close} {market : MarketAccount}
      (present : s.markets.lookup a.market = some market) (vaulted : market.vault = vault)
      (signed : a.authority = id.marketAdmin) : Release s vault (.closeAdmin a)
  | delist {a : Accounts.Delist} {job : JobAccount} (deposited : Deposited s a.job vault job)
      (queued : job.state = JobState.queued.toU8) (signed : a.authority = job.project) :
      Release s vault (.delist a)
  | recover {a : Accounts.Recover} {job : JobAccount} (deposited : Deposited s a.job vault job)
      (stopped : job.state = JobState.stopped.toU8) (signed : a.authority = job.project) :
      Release s vault (.recover a)
  -- the state of the job is not looked at, so a done job with another run is paid for again
  | endJob {a : Accounts.End} {job : JobAccount} {run : RunAccount}
      (deposited : Deposited s a.job vault job) (live : s.runs.lookup a.run = some run)
      (started : run.job = a.job) (signed : a.authority = job.project) :
      Release s vault (.endJob a)
  | finish {a : Accounts.Finish} {ipfsResult : IpfsHash} {job : JobAccount} {run : RunAccount}
      (deposited : Deposited s a.job vault job) (queued : job.state = JobState.queued.toU8)
      (live : s.runs.lookup a.run = some run) (started : run.job = a.job)
      (signed : a.authority = run.node) : Release s vault (.finish a ipfsResult)

section

variable {s s' : State} {vault : Pubkey}

theorem released_close {a : Accounts.Close} (success : close s a = .ok s') :
    Release s a.vault (.close a) := by
  simp only [close, closeVaultAndMarket, bind_eq_ok, loadMarket_eq_ok, require_eq_ok,
    exists_const] at success
  obtain ⟨market, present, signed, vaulted, -⟩ := success
  exact .close present vaulted signed.symm

theorem released_closeAdmin {a : Accounts.Close} (success : closeAdmin s a = .ok s') :
    Release s a.vault (.closeAdmin a) := by
  simp only [closeAdmin, closeVaultAndMarket, bind_eq_ok, loadMarket_eq_ok, require_eq_ok,
    exists_const] at success
  obtain ⟨market, present, signed, vaulted, -⟩ := success
  exact .closeAdmin present vaulted signed

theorem released_delist {a : Accounts.Delist} (success : delist s a = .ok s')
    (less : s'.tokens.balance a.vault < s.tokens.balance a.vault) :
    Release s a.vault (.delist a) := by
  simp only [delist, delistConstraints, bind_eq_ok, loadJob_eq_ok, loadMarket_eq_ok, require_eq_ok,
    pure_eq_ok, exists_const, Prod.exists, Prod.mk.injEq] at success
  obtain ⟨_, _, ⟨job, present, market, opened, -, placed, signed, queued, vaulted, -, -, -, -, -, -,
    -, rfl, rfl⟩, _, -, tokens, refunded, rfl⟩ := success
  refine .delist ⟨present, ?_, market, placed ▸ opened, vaulted⟩ queued signed.symm
  intro free
  rw [if_pos free] at refunded
  rw [← Except.ok.inj refunded] at less
  exact lt_irrefl _ less

theorem released_recover {a : Accounts.Recover} (success : recover s a = .ok s')
    (less : s'.tokens.balance a.vault < s.tokens.balance a.vault) :
    Release s a.vault (.recover a) := by
  simp only [recover, recoverConstraints, bind_eq_ok, loadJob_eq_ok, loadMarket_eq_ok,
    require_eq_ok, pure_eq_ok, exists_const] at success
  obtain ⟨_, ⟨job, present, market, opened, -, placed, signed, stopped, vaulted, -, -, -, -, apart,
    rfl⟩, total, amount, tokens, refunded, rfl⟩ := success
  refine .recover ⟨present, ?_, market, placed ▸ opened, vaulted⟩ stopped signed.symm
  intro free
  obtain ⟨_, -, -, moved⟩ := transferFromVault_eq_ok.mp refunded
  have balance := Tokens.balance_source moved apart
  obtain ⟨-, -, -, rfl⟩ := getDeposit_eq_ok.mp amount
  rw [free, Nat.zero_mul] at balance
  exact absurd less (not_lt.mpr balance.ge)

/-- Nothing is settled for a job without a price. -/
theorem settle_free {tokens result : Tokens} {job : JobAccount}
    {market vault user deposit : Pubkey}
    (success : settle tokens job market vault user deposit = .ok result) (free : job.price = 0) :
    result = tokens := by
  rcases settle_eq_ok.mp success with ⟨-, same⟩ | ⟨priced, -⟩
  · exact same
  · exact absurd free priced

theorem released_endJob {a : Accounts.End} (success : endJob s a = .ok s')
    (less : s'.tokens.balance a.vault < s.tokens.balance a.vault) :
    Release s a.vault (.endJob a) := by
  simp only [endJob, endConstraints, bind_eq_ok, loadJob_eq_ok, loadMarket_eq_ok, loadRun_eq_ok,
    require_eq_ok, pure_eq_ok, exists_const, Prod.exists, Prod.mk.injEq] at success
  obtain ⟨_, _, ⟨job, present, market, opened, run, live, placed, signed, vaulted, -, started, -, -,
    -, -, -, -, -, -, -, rfl, rfl⟩, tokens, settled, rfl⟩ := success
  refine .endJob ⟨present, ?_, market, placed ▸ opened, vaulted⟩ live started signed.symm
  intro free
  rw [settle_free settled free] at less
  exact lt_irrefl _ less

theorem released_finish {a : Accounts.Finish} {ipfsResult : IpfsHash}
    (success : finish s a ipfsResult = .ok s')
    (less : s'.tokens.balance a.vault < s.tokens.balance a.vault) :
    Release s a.vault (.finish a ipfsResult) := by
  simp only [finish, finishConstraints, bind_eq_ok, loadJob_eq_ok, loadMarket_eq_ok, loadRun_eq_ok,
    require_eq_ok, pure_eq_ok, exists_const, Prod.exists, Prod.mk.injEq] at success
  obtain ⟨_, _, ⟨job, present, run, live, market, opened, placed, -, queued, -, started, signed,
    vaulted, -, -, -, -, -, -, -, -, -, rfl, rfl⟩, -, tokens, settled, rfl⟩ := success
  refine .finish ⟨present, ?_, market, placed ▸ opened, vaulted⟩ queued live started signed.symm
  intro free
  rw [settle_free settled free] at less
  exact lt_irrefl _ less

/-- What takes tokens out of a vault releases a deposit in it, or closes its market. -/
theorem released [Runtime] {ix : Instruction} (success : process s ix = .ok s')
    (named : ix.vault = some vault) (less : s'.tokens.balance vault < s.tokens.balance vault) :
    Release s vault ix := by
  cases ix with
  | openMarket a expiration price timeout jobType minimum =>
      cases named
      simp only [process, openMarket, bind_eq_ok, require_eq_ok, exists_const] at success
      obtain ⟨-, -, -, fresh, -⟩ := success
      have empty := Tokens.balance_of_absent (Finmap.lookup_eq_none.mpr fresh.2.2.2.2)
      omega
  | close a =>
      cases named
      exact released_close success
  | closeAdmin a =>
      cases named
      exact released_closeAdmin success
  | delist a =>
      cases named
      exact released_delist success less
  | recover a =>
      cases named
      exact released_recover success less
  | endJob a =>
      cases named
      exact released_endJob success less
  | finish a ipfsResult =>
      cases named
      exact released_finish success less
  | _ => cases named

end

end Jobs

namespace Staking

/-- A stake is released by the staker after it was unstaked, or slashed by the authority of the
settings. -/
inductive Release (s : State) (vault : Pubkey) : Instruction → Prop
  | withdraw {a : Accounts.Withdraw} {stake : StakeAccount}
      (present : s.stakes.lookup a.stake = some stake) (vaulted : stake.vault = vault)
      (unstaked : stake.timeUnstake ≠ 0) (signed : a.authority = stake.authority) :
      Release s vault (.withdraw a)
  | slash {a : Accounts.Slash} {amount : Nat} {stake : StakeAccount} {settings : SettingsAccount}
      (present : s.stakes.lookup a.stake = some stake) (vaulted : stake.vault = vault)
      (set : s.settings = some settings) (signed : a.authority = settings.authority)
      (received : a.tokenAccount = settings.tokenAccount) : Release s vault (.slash a amount)

theorem released {s s' : State} {vault : Pubkey} {ix : Instruction}
    (success : process s ix = .ok s')
    (named : ix.vault = some vault) (less : s'.tokens.balance vault < s.tokens.balance vault) :
    Release s vault ix := by
  cases ix with
  | stake a amount duration =>
      cases named
      simp only [process, stake, bind_eq_ok, require_eq_ok, exists_const] at success
      obtain ⟨-, -, -, -, fresh, -⟩ := success
      have empty := Tokens.balance_of_absent (Finmap.lookup_eq_none.mpr fresh.2.2)
      omega
  | close a =>
      cases named
      simp only [process, close, Tokens.load, bind_eq_ok, get_eq_ok, require_eq_ok,
        exists_const] at success
      obtain ⟨-, -, -, -, account, loaded, -, -, -, -, -, -, -, -, empty, -⟩ := success
      have balance := Tokens.balance_of_lookup loaded
      omega
  | withdraw a =>
      cases named
      simp only [process, withdraw, withdrawConstraints, bind_eq_ok, loadStake_eq_ok, require_eq_ok,
        pure_eq_ok, exists_const, Prod.exists, Prod.mk.injEq] at success
      obtain ⟨-, _, ⟨-, -, -, -, stake, present, -, vaulted, signed, unstaked, -, -, rfl⟩, -⟩ :=
        success
      exact .withdraw present vaulted unstaked signed.symm
  | slash a amount =>
      cases named
      simp only [process, slash, State.loadSettings, bind_eq_ok, loadStake_eq_ok, get_eq_ok,
        require_eq_ok, pure_eq_ok, exists_const] at success
      obtain ⟨-, -, stake, present, -, -, _, ⟨settings, set, -, rfl⟩, vaulted, received, signed,
        -⟩ :=
        success
      exact .slash present vaulted set signed.symm received
  | _ => cases named

end Staking

namespace Rewards

/-- What is in the rewards pool is released by those who have a reward account. -/
inductive Release (s : State) (vault : Pubkey) : Instruction → Prop
  | claim {a : Accounts.Claim} {reflection : ReflectionAccount} {reward : RewardAccount}
      (opened : s.reflection = some reflection) (vaulted : reflection.vault = vault)
      (present : s.rewards.lookup a.reward = some reward)
      (signed : a.authority = reward.authority) : Release s vault (.claim a)

theorem released {s s' : State} {vault : Pubkey} {ix : Instruction}
    (success : process s ix = .ok s')
    (named : ix.vault = some vault) (less : s'.tokens.balance vault < s.tokens.balance vault) :
    Release s vault ix := by
  cases ix with
  | init a =>
      cases named
      simp only [process, init, bind_eq_ok, require_eq_ok, exists_const] at success
      obtain ⟨-, -, -, -, fresh, -⟩ := success
      have empty := Tokens.balance_of_absent (Finmap.lookup_eq_none.mpr fresh.2.2)
      omega
  | claim a =>
      cases named
      simp only [process, claim, claimConstraints, bind_eq_ok, loadReflection_eq_ok,
        loadReward_eq_ok, require_eq_ok, pure_eq_ok, exists_const, Prod.exists,
        Prod.mk.injEq] at success
      obtain ⟨_, _, ⟨-, -, -, -, reflection, opened, reward, present, vaulted, signed, -, -, -, -,
        rfl, rfl⟩, -⟩ := success
      exact .claim opened.2 vaulted present signed.symm
  | _ => cases named

end Rewards

namespace Pools

/-- Anybody has the emission of a pool paid to its beneficiary. The rest is released by the
authority of a pool that can be closed. -/
inductive Release (s : State) (vault : Pubkey) : Instruction → Prop
  | claimFee {a : Accounts.ClaimFee} {pool : PoolAccount}
      (present : s.pools.lookup a.pool = some pool) (vaulted : pool.vault = vault)
      (received : a.rewardsVault = pool.beneficiary) (started : pool.startTime < s.clock) :
      Release s vault (.claimFee a)
  | claimTransfer {a : Accounts.ClaimTransfer} {pool : PoolAccount}
      (present : s.pools.lookup a.pool = some pool) (vaulted : pool.vault = vault)
      (received : a.beneficiary = pool.beneficiary) (started : pool.startTime < s.clock) :
      Release s vault (.claimTransfer a)
  | close {a : Accounts.Close} {pool : PoolAccount}
      (present : s.pools.lookup a.pool = some pool) (vaulted : pool.vault = vault)
      (closeable : pool.closeable = true) (signed : a.authority = pool.authority) :
      Release s vault (.close a)

theorem released {s s' : State} {vault : Pubkey} {ix : Instruction}
    (success : process s ix = .ok s')
    (named : ix.vault = some vault) (less : s'.tokens.balance vault < s.tokens.balance vault) :
    Release s vault ix := by
  cases ix with
  | openPool a emission startTime claimType closeable =>
      cases named
      simp only [process, openPool, bind_eq_ok, require_eq_ok, exists_const] at success
      obtain ⟨-, -, -, -, fresh, -⟩ := success
      have empty := Tokens.balance_of_absent (Finmap.lookup_eq_none.mpr fresh.2.2.2)
      change s.tokens.balance a.vault = 0 at empty
      omega
  | claimFee a =>
      cases named
      simp only [process, claimFee, claimFeeConstraints, bind_eq_ok, loadPool_eq_ok, require_eq_ok,
        pure_eq_ok, exists_const, Prod.exists, Prod.mk.injEq] at success
      obtain ⟨_, _, ⟨-, -, -, -, -, -, pool, present, vaulted, started, -, received, -, rfl, rfl⟩,
        -⟩ :=
        success
      exact .claimFee present vaulted.symm received.symm started
  | claimTransfer a =>
      cases named
      simp only [process, claimTransfer, claimTransferConstraints, bind_eq_ok, loadPool_eq_ok,
        require_eq_ok, pure_eq_ok, exists_const, Prod.exists, Prod.mk.injEq] at success
      obtain ⟨_, _, ⟨-, -, -, -, pool, present, vaulted, received, started, -, -, rfl, rfl⟩, -⟩ :=
        success
      exact .claimTransfer present vaulted.symm received.symm started
  | close a =>
      cases named
      simp only [process, close, Tokens.load, bind_eq_ok, get_eq_ok, loadPool_eq_ok, require_eq_ok,
        exists_const] at success
      obtain ⟨account, loaded, -, -, pool, present, signed, vaulted, allowed, -⟩ := success
      have balance : s.tokens.balance a.vault = account.amount := Tokens.balance_of_lookup loaded
      refine .close present vaulted (allowed.resolve_right fun empty => ?_) signed.symm
      omega
  | _ => cases named

end Pools

end Nosana
