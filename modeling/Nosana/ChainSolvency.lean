import Nosana.ChainSimulation
import Nosana.JobsSolvency
import Nosana.RewardsEarnings

set_option autoImplicit false

/- What all programs owe to everybody is there, and never more than what exists. -/
namespace Nosana

open Checked

/-- Amounts that are covered by accounts of one mint add up to no more than its supply. -/
theorem Tokens.sum_le_supply {tokens : Tokens} {mint : Pubkey} (owed : Pubkey → Nat)
    (covered : ∀ key, 0 < owed key → ∃ account, tokens.lookup key = some account ∧
      account.mint = mint ∧ owed key ≤ account.amount) (keys : Finset Pubkey) :
    ∑ key ∈ keys, owed key ≤ tokens.supply mint := by
  refine le_trans (Finset.sum_le_sum fun key _ => ?_) (Finmap.sum_le_total
    (fun _ (account : TokenAccount) => if account.mint = mint then account.amount else 0) tokens
    (fun _ _ _ => Nat.zero_le _) keys)
  rcases Nat.eq_zero_or_pos (owed key) with nothing | some
  · rw [nothing]
    exact Nat.zero_le _
  · obtain ⟨account, present, same, held⟩ := covered key some
    rw [present, Option.elim_some, if_pos same]
    exact held

namespace Rewards

/-- The vault of the pool holds the token that rewards are paid in. -/
def VaultMint (s : State) : Prop :=
  ∀ account, s.tokens.lookup vault = some account → account.mint = id.nosToken

theorem VaultMint.of_kind {s s' : State} (kept : VaultMint s)
    (kind : (s'.tokens.lookup vault).map TokenAccount.kind =
      (s.tokens.lookup vault).map TokenAccount.kind) : VaultMint s' := by
  intro account present
  obtain ⟨old, found, same⟩ := Tokens.exists_of_kind kind.symm present
  rw [← kept old found]
  exact (Prod.mk.inj same).1.symm

theorem vaultMint_step {s s' : State} {action : Action} (kept : VaultMint s)
    (success : step s action = .ok s') : VaultMint s' := by
  cases action with
  | external tokens =>
      simp only [step, bind_eq_ok, require_eq_ok, pure_eq_ok, exists_const] at success
      obtain ⟨external, rfl⟩ := success
      exact kept.of_kind (external.kind_eq rfl)
  | instruction ix =>
      cases process_effect success with
      | opened keyed fresh mint vaulted freshVault =>
          intro account present
          rcases Finmap.lookup_insert_eq_some present with ⟨-, rfl⟩ | ⟨-, earlier⟩
          · exact mint
          · exact kept account earlier
      | feeAdded _ _ _ _ moved => exact kept.of_kind (Tokens.kind_transfer moved vault)
      | claimed _ _ _ _ _ moved => exact kept.of_kind (Tokens.kind_transfer moved vault)
      | entered | claimedNothing | synced | closed => exact kept

theorem run_vaultMint {s : State} (genesis : Genesis s) (actions : List Action) :
    VaultMint (run s actions) := by
  refine Machine.run_invariant ?_ (fun _ _ _ kept success => vaultMint_step kept success) actions
  intro account present
  rw [genesis.vaults vault rfl] at present
  cases present

end Rewards

namespace Jobs

variable {s : State}

/-- A vault that owes something belongs to a market. -/
theorem vault_of_owed (sound : Sound s) {market : Pubkey} (owing : 0 < owed s.jobs market) :
    ∃ account, s.tokens.lookup (.jobsVault market id.nosToken) = some account ∧
      account.mint = id.nosToken := by
  by_contra absent
  have nothing : owed s.jobs market = 0 := by
    apply Finmap.total_eq_zero
    intro key job present
    unfold JobAccount.due
    rw [if_neg]
    rintro ⟨placed, -⟩
    obtain ⟨⟨vault, opened⟩, -⟩ := sound.jobs key job present
    rw [placed] at opened
    obtain ⟨rfl, kind⟩ := sound.vaults market vault opened
    obtain ⟨account, found, same⟩ := Option.map_eq_some_iff.mp kind
    exact absent ⟨account, found, (Prod.mk.inj same).1⟩
  omega

end Jobs

namespace Chain

/-- What is owed from a vault: the deposits of jobs that are not settled, what is staked or has
been unstaked, and the rewards that can be claimed. From the vault of a pool nothing is owed. -/
def State.owed (s : State) : Pubkey → Nat
  | .jobsVault market mint => if mint = id.nosToken then (Jobs.owed s.jobs market).toNat else 0
  | .stakingVault mint authority =>
    match s.network.staking.stakes.lookup (.stakingStake mint authority) with
    | some stake => if stake.timeUnstake = 0 then stake.amount else s.tokens.balance stake.vault
    | none => 0
  | .rewardsVault mint => if mint = id.nosToken then s.network.pool.owed else 0
  | _ => 0

/-- What the sums of the programs are owed is there, in the token that they keep. -/
structure Backed (s : State) : Prop where
  board : Jobs.Sound s.board
  jobs : ∀ market, 0 ≤ Jobs.surplus s.board market
  staking : Staking.Sound s.network.staking
  rewards : s.network.pool.owed ≤ s.tokens.balance Rewards.vault
  mint : Rewards.VaultMint s.network.pool

theorem Backed.covered {s : State} (backed : Backed s) (vault : Pubkey)
    (owing : 0 < s.owed vault) :
    ∃ account, s.tokens.lookup vault = some account ∧ account.mint = id.nosToken ∧
      s.owed vault ≤ account.amount := by
  cases vault with
  | jobsVault market mint =>
      simp only [State.owed] at owing ⊢
      split at owing
      · rename_i same
        have positive : 0 < Jobs.owed s.board.jobs market := Int.lt_toNat.mp owing
        obtain ⟨account, present, nos⟩ := Jobs.vault_of_owed backed.board positive
        have enough := backed.jobs market
        unfold Jobs.surplus Jobs.funds at enough
        rw [Tokens.balance_of_lookup present] at enough
        refine ⟨account, same ▸ present, nos, ?_⟩
        rw [if_pos same]
        show (Jobs.owed s.board.jobs market).toNat ≤ account.amount
        omega
      · exact absurd owing (lt_irrefl 0)
  | stakingVault mint authority =>
      simp only [State.owed] at owing ⊢
      split at owing
      · rename_i stake present
        have standing := backed.staking.stakes _ stake present
        obtain ⟨rfl, rfl⟩ : mint = id.nosToken ∧ authority = stake.authority := by
          simpa using standing.keyed
        obtain ⟨account, found, same⟩ := Option.map_eq_some_iff.mp standing.kind
        have balance : s.tokens.balance stake.vault = account.amount :=
          Tokens.balance_of_lookup found
        have held := standing.held
        rw [standing.vaulted] at found
        refine ⟨account, found, (Prod.mk.inj same).1, ?_⟩
        split
        · rename_i staked
          exact balance ▸ held staked
        · exact le_of_eq balance
      · exact absurd owing (lt_irrefl 0)
  | rewardsVault mint =>
      simp only [State.owed] at owing ⊢
      split at owing
      · rename_i same
        have enough := backed.rewards
        cases present : s.tokens.lookup Rewards.vault with
        | none =>
            rw [Tokens.balance_of_absent present] at enough
            omega
        | some account =>
            rw [Tokens.balance_of_lookup present] at enough
            refine ⟨account, same ▸ present, backed.mint account present, ?_⟩
            rw [if_pos same]
            exact enough
      · exact absurd owing (lt_irrefl 0)
  | _ => exact absurd owing (lt_irrefl 0)

section

variable [Jobs.Runtime] {s : State}

theorem run_backed (genesis : Genesis s) (actions : List Action)
    (ordinary : ∀ event ∈ trace s actions,
      ∀ own ∈ event.project State.board jobsSeen, own.action.Ordinary)
    (tame : ∀ event ∈ trace s actions,
      ∀ own ∈ event.project (fun state => state.network.pool) rewardsSeen, Rewards.Tame own) :
    Backed (run s actions) := by
  have board : Jobs.run s.board ((trace s actions).filterMap jobsSeen) = (run s actions).board :=
    (jobs_part.simulates genesis.coherent actions).2
  have pool : Rewards.run s.network.pool ((trace s actions).filterMap rewardsSeen) =
      (run s actions).network.pool := (rewards_part.simulates genesis.steady actions).2
  have ⟨sound, _, solvent⟩ := Jobs.run_solvent genesis.jobs ((trace s actions).filterMap jobsSeen)
    (jobs_part.forall_trace genesis.coherent ordinary)
  have enough := Rewards.owed_le_balance genesis.network.rewards
    ((trace s actions).filterMap rewardsSeen) (rewards_part.forall_trace genesis.steady tame)
  have mint :=
    Rewards.run_vaultMint genesis.network.rewards ((trace s actions).filterMap rewardsSeen)
  have steady : Steady (run s actions) := Machine.run_invariant genesis.steady
    (fun state action after steady success =>
      staking_part.kept ⟨state, action, after⟩ steady success)
    actions
  rw [board] at sound solvent
  rw [pool] at enough mint
  exact ⟨sound, fun market => (solvent market).1, steady.2.sound, enough, mint⟩

/-- While nobody closes a market, no admin cleans up a job and every fee is tame, every vault of
every program holds what is owed from it, and all that the programs owe together is never more than
what exists. -/
theorem all_vaults_cover (genesis : Genesis s) (actions : List Action)
    (ordinary : ∀ event ∈ trace s actions,
      ∀ own ∈ event.project State.board jobsSeen, own.action.Ordinary)
    (tame : ∀ event ∈ trace s actions,
      ∀ own ∈ event.project (fun state => state.network.pool) rewardsSeen, Rewards.Tame own) :
    (∀ vault, (run s actions).owed vault ≤ (run s actions).tokens.balance vault) ∧
      ∀ vaults : Finset Pubkey,
        ∑ vault ∈ vaults, (run s actions).owed vault ≤ constants.nosTotalSupply := by
  have backed := run_backed genesis actions ordinary tame
  have coherent : Coherent (run s actions) :=
    Machine.run_invariant genesis.coherent (fun _ _ _ => coherent_step) actions
  constructor
  · intro vault
    rcases Nat.eq_zero_or_pos ((run s actions).owed vault) with nothing | owing
    · rw [nothing]
      exact Nat.zero_le _
    · obtain ⟨account, present, -, held⟩ := backed.covered vault owing
      rw [Tokens.balance_of_lookup present]
      exact held
  · intro vaults
    exact (Tokens.sum_le_supply _ backed.covered vaults).trans coherent.wellFormed.capped

end

/-- The job is open, and the stake weighs on the rewards pool. -/
theorem all_vaults_cover_sample :
    (Sample.run (Sample.actions.take 6)).owed Sample.marketVault = 60 ∧
    (Sample.run (Sample.actions.take 6)).owed Network.Sample.vault = 600 ∧
    ∀ vaults : Finset Pubkey, ∑ vault ∈ vaults, (Sample.run (Sample.actions.take 6)).owed vault ≤
      constants.nosTotalSupply := by
  refine ⟨by decide +kernel, by decide +kernel, ?_⟩
  exact (@all_vaults_cover Jobs.Sample.runtime _ Sample.genesis (Sample.actions.take 6)
    (by decide +kernel) (by decide +kernel)).2

end Chain

end Nosana
