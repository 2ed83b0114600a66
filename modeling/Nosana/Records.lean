import Nosana.ChainSimulation

set_option autoImplicit false

/- What others can do to an account: how much of it stays, whatever is done on the chain without the
signature of its owner. -/
namespace Nosana

open Checked

/-! Accounts under a key -/

/-- What is written under one key leaves the others. -/
theorem kept_beside {α : Type} {R : α → α → Prop} {map : Finmap fun _ : Pubkey => α}
    {key other : Pubkey} {entry : α} (value : α) (present : map.lookup key = some entry)
    (rest : R entry entry) (different : key ≠ other) :
    ∃ later, (map.insert other value).lookup key = some later ∧ R entry later :=
  ⟨entry, (Finmap.lookup_insert_of_ne _ different).trans present, rest⟩

/-- What the owner of an account has to sign is not done to the accounts of others. -/
theorem ne_of_signed {α : Type} {map : Finmap fun _ : Pubkey => α} (authority : α → Pubkey)
    {key other signer : Pubkey} {entry found : α} (present : map.lookup key = some entry)
    (inside : map.lookup other = some found) (signed : authority found = signer)
    (silent : signer ≠ authority entry) : key ≠ other := by
  rintro rfl
  cases present.symm.trans inside
  exact silent signed.symm

theorem ne_of_absent {α : Type} {map : Finmap fun _ : Pubkey => α} {key other : Pubkey} {entry : α}
    (present : map.lookup key = some entry) (absent : other ∉ map) : key ≠ other := by
  rintro rfl
  exact absent (Finmap.mem_of_lookup_eq_some present)

namespace Staking

/-- A stake after others could slash it. -/
structure StakeAccount.Slashed (stake later : StakeAccount) : Prop where
  authority : later.authority = stake.authority
  duration : later.duration = stake.duration
  timeUnstake : later.timeUnstake = stake.timeUnstake
  vault : later.vault = stake.vault
  amount : later.amount ≤ stake.amount

namespace StakeAccount

theorem slashed_rfl (stake : StakeAccount) : stake.Slashed stake := ⟨rfl, rfl, rfl, rfl, le_refl _⟩

theorem Slashed.trans {first second third : StakeAccount} (before : first.Slashed second)
    (after : second.Slashed third) : first.Slashed third :=
  ⟨after.authority.trans before.authority, after.duration.trans before.duration,
    after.timeUnstake.trans before.timeUnstake, after.vault.trans before.vault,
    le_trans after.amount before.amount⟩

end StakeAccount

variable {s s' : State} {key : Pubkey} {stake : StakeAccount}

/-- Others can at most slash a stake. -/
theorem process_others {ix : Instruction} (success : process s ix = .ok s')
    (present : s.stakes.lookup key = some stake) (silent : ix.authority ≠ stake.authority) :
    ∃ later, s'.stakes.lookup key = some later ∧ stake.Slashed later := by
  have elsewhere := fun other value => @kept_beside _ StakeAccount.Slashed s.stakes key other stake
    value present stake.slashed_rfl
  have signs := fun other found => @ne_of_signed _ s.stakes StakeAccount.authority key other
    ix.authority stake found present
  cases ix with
  | init a =>
      simp only [process, init, bind_eq_ok, require_eq_ok, pure_eq_ok, exists_const] at success
      obtain ⟨-, -, rfl⟩ := success
      exact ⟨stake, present, stake.slashed_rfl⟩
  | stake a amount duration =>
      simp only [process, Staking.stake, bind_eq_ok, require_eq_ok, pure_eq_ok,
        exists_const] at success
      obtain ⟨-, -, -, -, -, -, fresh, -, -, -, -, -, -, -, tokens, -, rfl⟩ := success
      exact elsewhere _ _ (ne_of_absent present fresh.2.1)
  | unstake a =>
      simp only [process, unstake, bind_eq_ok, loadStake_eq_ok, require_eq_ok, pure_eq_ok,
        exists_const] at success
      obtain ⟨found, inside, signed, -, -, -, -, -, unstaked, -, rfl⟩ := success
      exact elsewhere _ _ (signs _ _ inside signed silent)
  | restake a =>
      simp only [process, restake, bind_eq_ok, loadStake_eq_ok, require_eq_ok, pure_eq_ok,
        exists_const] at success
      obtain ⟨-, -, found, inside, -, -, signed, -, restaked, -, rfl⟩ := success
      exact elsewhere _ _ (signs _ _ inside signed silent)
  | topup a amount =>
      simp only [process, topup, bind_eq_ok, loadStake_eq_ok, require_eq_ok, pure_eq_ok,
        exists_const] at success
      obtain ⟨-, -, -, -, found, inside, -, signed, -, -, -, raised, -, tokens, -, rfl⟩ := success
      exact elsewhere _ _ (signs _ _ inside signed silent)
  | extend a duration =>
      simp only [process, extend, bind_eq_ok, loadStake_eq_ok, require_eq_ok, pure_eq_ok,
        exists_const] at success
      obtain ⟨found, inside, signed, -, -, -, -, -, extended, -, rfl⟩ := success
      exact elsewhere _ _ (signs _ _ inside signed silent)
  | close a =>
      simp only [process, close, bind_eq_ok, loadStake_eq_ok, require_eq_ok, pure_eq_ok,
        exists_const] at success
      obtain ⟨-, -, found, inside, -, -, -, signed, -, -, -, -, -, -, -, -, -, rfl⟩ := success
      exact ⟨stake, (Finmap.lookup_erase_ne (signs _ _ inside signed silent)).trans present,
        stake.slashed_rfl⟩
  | withdraw a =>
      simp only [process, withdraw, bind_eq_ok, Prod.exists] at success
      obtain ⟨_, _, -, amount, -, success⟩ := success
      split at success
      · simp only [bind_eq_ok, pure_eq_ok] at success
        obtain ⟨tokens, -, rfl⟩ := success
        exact ⟨stake, present, stake.slashed_rfl⟩
      · cases success
        exact ⟨stake, present, stake.slashed_rfl⟩
  | slash a amount =>
      simp only [process, slash, bind_eq_ok, loadStake_eq_ok, require_eq_ok, pure_eq_ok,
        exists_const] at success
      obtain ⟨-, -, found, inside, -, -, -, -, -, -, -, -, -, slashed, taken, tokens, -, rfl⟩ :=
        success
      by_cases same : key = a.stake
      · subst same
        cases present.symm.trans inside
        obtain ⟨xnos, rfl⟩ := StakeAccount.slash_eq_ok taken
        exact ⟨_, Finmap.lookup_insert _, rfl, rfl, rfl, rfl, Nat.sub_le _ _⟩
      · exact elsewhere _ _ same
  | updateSettings a =>
      simp only [process, updateSettings, bind_eq_ok, require_eq_ok, pure_eq_ok,
        exists_const] at success
      obtain ⟨-, -, -, -, -, -, rfl⟩ := success
      exact ⟨stake, present, stake.slashed_rfl⟩

end Staking

namespace Rewards

variable {s s' : State} {key : Pubkey} {reward : RewardAccount}

theorem addFee_rewards {a : Accounts.AddFee} {amount : Nat} (success : addFee s a amount = .ok s') :
    s'.rewards = s.rewards := by
  cases addFee_effect success with
  | feeAdded => rfl

/-- Others can neither close a reward account nor give it to somebody else. -/
theorem process_others {ix : Instruction} (success : process s ix = .ok s')
    (present : s.rewards.lookup key = some reward) (silent : reward.authority ∉ ix.signers) :
    ∃ later, s'.rewards.lookup key = some later ∧ later.authority = reward.authority := by
  have elsewhere := fun other value => @kept_beside _
    (fun old next : RewardAccount => next.authority = old.authority) s.rewards key other
    reward value
    present rfl
  have signs := fun other found signer =>
    @ne_of_signed _ s.rewards RewardAccount.authority key other
    signer reward found present
  cases ix with
  | init a =>
      cases init_effect success with
      | opened => exact ⟨reward, present, rfl⟩
  | enter a =>
      cases enter_effect success with
      | entered found owned staked keyed fresh =>
          exact elsewhere _ _ (ne_of_absent present fresh.2.1)
  | addFee a amount => exact ⟨reward, by rw [addFee_rewards success, present], rfl⟩
  | claim a =>
      have constrained : ∃ found, s.rewards.lookup a.reward = some found ∧
          found.authority = a.authority := by
        simp only [process, claim, claimConstraints, bind_eq_ok, loadReward_eq_ok, require_eq_ok,
          pure_eq_ok, exists_const, Prod.exists, Prod.mk.injEq] at success
        obtain ⟨_, _, ⟨-, -, -, -, _, -, found, inside, -, signed, -⟩, -⟩ := success
        exact ⟨found, inside, signed⟩
      obtain ⟨found, inside, signed⟩ := constrained
      have different := signs _ _ _ inside signed
        fun same => silent (same ▸ List.mem_singleton_self _)
      cases claim_effect success with
      | claimedNothing => exact ⟨reward, present, rfl⟩
      | claimed => exact elsewhere _ _ different
  | sync a =>
      cases sync_effect success with
      | synced _ inside =>
          by_cases same : key = a.reward
          · subst same
            cases present.symm.trans inside
            exact ⟨_, Finmap.lookup_insert _, rfl⟩
          · exact elsewhere _ _ same
  | close a =>
      cases close_effect success with
      | closed _ inside owned =>
          have different := signs _ _ _ inside owned
            fun same => silent (same ▸ List.mem_singleton_self _)
          exact ⟨reward, (Finmap.lookup_erase_ne different).trans present, rfl⟩

end Rewards

namespace Nodes

variable {s s' : State} {key : Pubkey} {node : NodeAccount}

/-- A node after others could audit it. -/
def NodeAccount.Audited (node later : NodeAccount) : Prop :=
  later = { node with audited := later.audited }

/-- Others can at most audit a node. -/
theorem process_others {ix : Instruction} (success : process s ix = .ok s')
    (present : s.nodes.lookup key = some node)
    (silent : ∀ a spec, ix = .update a spec → a.authority ≠ node.authority) :
    ∃ later, s'.nodes.lookup key = some later ∧ node.Audited later := by
  have elsewhere := fun other value =>
    @kept_beside _ NodeAccount.Audited s.nodes key other node value
    present rfl
  cases ix with
  | register a spec =>
      obtain ⟨-, fresh, -, written⟩ := register_eq_ok.mp success
      obtain ⟨-, rfl⟩ := exit_eq_ok.mp written
      exact elsewhere _ _ (ne_of_absent present fresh)
  | audit a audited =>
      obtain ⟨found, inside, -, written⟩ := audit_eq_ok.mp success
      obtain ⟨-, rfl⟩ := exit_eq_ok.mp written
      by_cases same : key = a.node
      · subst same
        cases present.symm.trans inside
        exact ⟨_, Finmap.lookup_insert _, rfl⟩
      · exact elsewhere _ _ same
  | update a spec =>
      obtain ⟨found, inside, signed, -, written⟩ := update_eq_ok.mp success
      obtain ⟨-, rfl⟩ := exit_eq_ok.mp written
      exact elsewhere _ _
        (ne_of_signed NodeAccount.authority present inside signed (silent a spec rfl))

end Nodes

namespace Pools

variable {s s' : State} {key : Pubkey} {pool : PoolAccount}

/-- A pool after others could claim from it. -/
structure PoolAccount.Drawn (pool later : PoolAccount) : Prop where
  rest : later = { pool with claimedTokens := later.claimedTokens }
  claimed : pool.claimedTokens ≤ later.claimedTokens

theorem PoolAccount.drawn_rfl (pool : PoolAccount) : pool.Drawn pool := ⟨rfl, le_refl _⟩

theorem PoolAccount.Drawn.trans {first second third : PoolAccount} (before : first.Drawn second)
    (after : second.Drawn third) : first.Drawn third := by
  refine ⟨?_, le_trans before.claimed after.claimed⟩
  rw [after.rest, before.rest]

theorem Claimed.drawn {other : Pubkey} {found claimed : PoolAccount} {amount : Nat}
    (claims : Claimed s other found amount claimed) (present : s.pools.lookup key = some pool) :
    ∃ later, (s.pools.insert other claimed).lookup key = some later ∧ pool.Drawn later := by
  by_cases same : key = other
  · subst same
    cases present.symm.trans claims.present
    obtain ⟨-, -, -, -, rfl⟩ := (PoolAccount.claim_eq_ok claims.started).mp claims.computed
    exact ⟨_, Finmap.lookup_insert _, rfl, Nat.le_add_right _ _⟩
  · exact kept_beside _ present pool.drawn_rfl same

/-- Others can at most claim what a pool pays to its beneficiary, as long as the owner of the
beneficiary's account lets it stay where it is. -/
theorem process_others {ix : Instruction} (success : process s ix = .ok s')
    (present : s.pools.lookup key = some pool) (silent : ix.authority ≠ pool.authority)
    (payee : ∀ account, s.tokens.lookup pool.beneficiary = some account →
      ix.authority ≠ account.owner) :
    ∃ later, s'.pools.lookup key = some later ∧ pool.Drawn later := by
  cases ix with
  | openPool a emission startTime claimType closeable =>
      simp only [process, openPool, bind_eq_ok, require_eq_ok, pure_eq_ok, exists_const] at success
      obtain ⟨-, -, fresh, -, -, -, rfl⟩ := success
      exact kept_beside _ present pool.drawn_rfl (ne_of_absent present fresh.1)
  | claimFee a =>
      cases claimFee_effect success with
      | noted claims => exact claims.drawn present
      | claimedFee claims => exact claims.drawn present
  | claimTransfer a =>
      cases claimTransfer_effect success with
      | claimedTransfer claims => exact claims.drawn present
  | close a =>
      simp only [process, close, bind_eq_ok, loadPool_eq_ok, require_eq_ok, pure_eq_ok,
        exists_const] at success
      obtain ⟨-, -, -, -, found, inside, signed, -, -, -, tokens, -, rfl⟩ := success
      have different := ne_of_signed PoolAccount.authority present inside signed silent
      exact ⟨pool, (Finmap.lookup_erase_ne different).trans present, pool.drawn_rfl⟩
  | updateBeneficiary a =>
      simp only [process, updateBeneficiary, Tokens.load, bind_eq_ok, get_eq_ok, loadPool_eq_ok,
        require_eq_ok, pure_eq_ok, exists_const] at success
      obtain ⟨account, loaded, -, -, found, inside, owned, -, named, rfl⟩ := success
      have different : key ≠ a.pool := by
        rintro rfl
        cases present.symm.trans inside
        exact payee account (named ▸ loaded) owned.symm
      exact kept_beside _ present pool.drawn_rfl different

end Pools

namespace Jobs

variable [Runtime] {s s' : State} {key : Pubkey} {market : MarketAccount}

/-- A market after others could wait in its queue, and be matched. -/
def MarketAccount.Requeued (market later : MarketAccount) : Prop :=
  later = { market with queueType := later.queueType, queue := later.queue }

omit [Runtime] in
theorem requeued_insert {other : Pubkey} {found written : MarketAccount}
    (inside : s.markets.lookup other = some found) (present : s.markets.lookup key = some market)
    (requeued : found.Requeued written) :
    ∃ later, (s.markets.insert other written).lookup key = some later ∧ market.Requeued later := by
  by_cases same : key = other
  · subst same
    cases present.symm.trans inside
    exact ⟨written, Finmap.lookup_insert _, requeued⟩
  · exact kept_beside _ present rfl same

/-- Others can at most change who waits in a market, unless the market admin closes it. -/
theorem process_others {ix : Instruction} (success : process s ix = .ok s')
    (present : s.markets.lookup key = some market) (silent : market.authority ∉ ix.signers)
    (admin : id.marketAdmin ∉ ix.signers) :
    ∃ later, s'.markets.lookup key = some later ∧ market.Requeued later := by
  have signs := fun other found signer =>
    @ne_of_signed _ s.markets MarketAccount.authority key other
    signer market found present
  have unsigned : ∀ signer : Pubkey, ix.signers = [signer] → signer ≠ market.authority := by
    rintro signer signers rfl
    exact silent (signers ▸ List.mem_singleton_self _)
  cases step_effect (show step s (.instruction ix) = .ok s' from success) with
  | openMarket fresh => exact kept_beside _ present rfl (ne_of_absent present fresh.1)
  | @update a expiration price jobType minimum timeout found inside =>
      simp only [process, update, bind_eq_ok, loadMarket_eq_ok, require_eq_ok,
        exists_const] at success
      obtain ⟨other, same, signed, -⟩ := success
      exact kept_beside _ present rfl (signs _ _ _ same signed (unsigned _ rfl))
  | @setSettings a found inside =>
      simp only [process, setSettings, bind_eq_ok, loadMarket_eq_ok, require_eq_ok,
        exists_const] at success
      obtain ⟨other, same, signed, -⟩ := success
      exact kept_beside _ present rfl (signs _ _ _ same signed (unsigned _ rfl))
  | @closeSettings a found inside =>
      simp only [process, closeSettings, bind_eq_ok, loadMarket_eq_ok, require_eq_ok,
        exists_const] at success
      obtain ⟨other, same, signed, -⟩ := success
      exact kept_beside _ present rfl (signs _ _ _ same signed (unsigned _ rfl))
  | @closeMarket a _ _ closing markets =>
      rcases closing with same | same <;> cases same
      · simp only [process, close, bind_eq_ok, loadMarket_eq_ok, require_eq_ok,
          exists_const] at success
        obtain ⟨found, inside, signed, -⟩ := success
        have different := signs _ _ _ inside signed (unsigned _ rfl)
        exact ⟨market, by rw [markets, Finmap.lookup_erase_ne different, present], rfl⟩
      · simp only [process, closeAdmin, bind_eq_ok, loadMarket_eq_ok, require_eq_ok,
          exists_const] at success
        obtain ⟨-, -, signed, -⟩ := success
        exact absurd (List.mem_singleton.mpr signed.symm) admin
  | listQueued posted | listStranded posted | listMatched posted | assign posted =>
      exact requeued_insert posted.present present rfl
  | delist _ _ opened => exact requeued_insert opened present rfl
  | workQueued inside | workMatched inside | workIgnored inside | stop inside =>
      exact requeued_insert inside present rfl
  | _ => exact ⟨market, present, rfl⟩

end Jobs

namespace Chain

variable [Jobs.Runtime] {s s' : State} {owner : Pubkey}

/-- Somebody signs nothing. -/
def Action.silent (owner : Pubkey) : Action → Prop
  | .instruction ix => owner ∉ ix.signers
  | _ => True

instance (owner : Pubkey) (action : Action) : Decidable (action.silent owner) :=
  match action with
  | .instruction ix => inferInstanceAs (Decidable (owner ∉ ix.signers))
  | .tick _ => .isTrue trivial
  | .external _ => .isTrue trivial

theorem stake_kept {action : Action} {key : Pubkey} {stake : Staking.StakeAccount}
    (success : step s action = .ok s') (silent : action.silent stake.authority)
    (present : s.network.staking.stakes.lookup key = some stake) :
    ∃ later, s'.network.staking.stakes.lookup key = some later ∧ stake.Slashed later := by
  cases step_effect success with
  | staking processed =>
      refine Staking.process_others processed present fun signed => silent ?_
      exact signed ▸ List.mem_singleton_self _
  | _ => exact ⟨stake, present, stake.slashed_rfl⟩

theorem reward_kept {action : Action} {key : Pubkey} {reward : Rewards.RewardAccount}
    (success : step s action = .ok s') (silent : action.silent reward.authority)
    (present : s.network.rewards.lookup key = some reward) :
    ∃ later, s'.network.rewards.lookup key = some later ∧ later.authority = reward.authority := by
  cases step_effect success with
  | rewards processed => exact Rewards.process_others processed present silent
  | @pools ix emission processed =>
      refine ⟨reward, ?_, rfl⟩
      show emission.rewards.rewards.lookup key = some reward
      obtain ⟨-, ⟨-, same⟩ | ⟨a, amount, -, -, added⟩⟩ := Pools.process_rewards processed
      · rw [same]
        exact present
      · rw [Rewards.addFee_rewards added]
        exact present
  | _ => exact ⟨reward, present, rfl⟩

theorem node_kept {action : Action} {key : Pubkey} {node : Nodes.NodeAccount}
    (success : step s action = .ok s') (silent : action.silent node.authority)
    (present : s.nodes.nodes.lookup key = some node) :
    ∃ later, s'.nodes.nodes.lookup key = some later ∧ node.Audited later := by
  cases step_effect success with
  | nodes processed =>
      refine Nodes.process_others processed present ?_
      rintro a spec rfl signed
      exact silent (signed ▸ List.mem_singleton_self _)
  | _ => exact ⟨node, present, rfl⟩

theorem pool_kept {action : Action} {key : Pubkey} {pool : Pools.PoolAccount}
    (success : step s action = .ok s') (silent : action.silent pool.authority)
    (payee : ∀ account, s.tokens.lookup pool.beneficiary = some account →
      action.silent account.owner)
    (present : s.pools.lookup key = some pool) :
    ∃ later, s'.pools.lookup key = some later ∧ pool.Drawn later := by
  cases step_effect success with
  | pools processed =>
      refine Pools.process_others processed present ?_ ?_
      · exact fun signed => silent (signed ▸ List.mem_singleton_self _)
      · exact fun account found signed => payee account found (signed ▸ List.mem_singleton_self _)
  | _ => exact ⟨pool, present, pool.drawn_rfl⟩

theorem market_kept {action : Action} {key : Pubkey} {market : Jobs.MarketAccount}
    (success : step s action = .ok s') (silent : action.silent market.authority)
    (admin : action.silent id.marketAdmin) (present : s.markets.lookup key = some market) :
    ∃ later, s'.markets.lookup key = some later ∧ market.Requeued later := by
  cases step_effect success with
  | jobs processed => exact Jobs.process_others processed present silent admin
  | _ => exact ⟨market, present, rfl⟩

/-- Whoever signs nothing keeps their accounts: a stake can at most be slashed, a reward account
stays theirs, a node can at most be audited, a pool can at most be claimed from for its beneficiary,
and a market keeps all of its terms. -/
theorem records_kept_unless_signed (actions : List Action)
    (silent : ∀ event ∈ trace s actions, event.action.silent owner) :
    (∀ key stake, s.network.staking.stakes.lookup key = some stake → stake.authority = owner →
      ∃ later, (run s actions).network.staking.stakes.lookup key = some later ∧
        stake.Slashed later) ∧
    (∀ key reward, s.network.rewards.lookup key = some reward → reward.authority = owner →
      ∃ later, (run s actions).network.rewards.lookup key = some later ∧
        later.authority = reward.authority) ∧
    (∀ key node, s.nodes.nodes.lookup key = some node → node.authority = owner →
      ∃ later, (run s actions).nodes.nodes.lookup key = some later ∧ node.Audited later) ∧
    (∀ key pool, s.pools.lookup key = some pool → pool.authority = owner →
      (∀ event ∈ trace s actions, ∀ account,
        event.before.tokens.lookup pool.beneficiary = some account →
        event.action.silent account.owner) →
      ∃ later, (run s actions).pools.lookup key = some later ∧ pool.Drawn later) ∧
    (∀ key market, s.markets.lookup key = some market → market.authority = owner →
      (∀ event ∈ trace s actions, event.action.silent id.marketAdmin) →
      ∃ later, (run s actions).markets.lookup key = some later ∧ market.Requeued later) := by
  refine ⟨?_, ?_, ?_, ?_, ?_⟩
  · rintro key stake present rfl
    refine Machine.entry_kept (fun _ _ _ before after => before.trans after)
      (fun state : State => state.network.staking.stakes.lookup key) _ present stake.slashed_rfl ?_
      actions silent
    intro _ _ _ current now kept success quiet
    exact stake_kept success (kept.authority ▸ quiet) now
  · rintro key reward present rfl
    refine Machine.entry_kept
      (R := fun old next : Rewards.RewardAccount => next.authority = old.authority)
      (fun _ _ _ before after => after.trans before)
      (fun state : State => state.network.rewards.lookup key) _ present rfl ?_ actions silent
    intro _ _ _ current now kept success quiet
    exact reward_kept success (kept ▸ quiet) now
  · rintro key node present rfl
    refine Machine.entry_kept (R := Nodes.NodeAccount.Audited) ?_
      (fun state : State => state.nodes.nodes.lookup key) _ present rfl ?_ actions silent
    · intro first second third before after
      rw [Nodes.NodeAccount.Audited, after, before]
    · intro _ _ _ current now kept success quiet
      exact node_kept success (by rw [kept]; exact quiet) now
  · rintro key pool present rfl payee
    refine Machine.entry_kept (fun _ _ _ before after => before.trans after)
      (fun state : State => state.pools.lookup key)
      (fun event => event.action.silent pool.authority ∧ ∀ account,
        event.before.tokens.lookup pool.beneficiary = some account →
        event.action.silent account.owner) present pool.drawn_rfl ?_ actions
      fun event member => ⟨silent event member, payee event member⟩
    intro _ _ _ current now kept success quiet
    refine pool_kept success ?_ ?_ now
    · rw [kept.rest]
      exact quiet.1
    · rw [kept.rest]
      exact quiet.2
  · rintro key market present rfl admin
    refine Machine.entry_kept (R := Jobs.MarketAccount.Requeued) ?_
      (fun state : State => state.markets.lookup key)
      (fun event => event.action.silent market.authority ∧ event.action.silent id.marketAdmin)
      present rfl ?_ actions fun event member => ⟨silent event member, admin event member⟩
    · intro first second third before after
      rw [Jobs.MarketAccount.Requeued, after, before]
    · intro _ _ _ current now kept success quiet
      exact market_kept success (by rw [kept]; exact quiet.1) quiet.2 now

omit [Jobs.Runtime] in
/-- Somebody else synchronizes the reward account of the staker. -/
theorem records_kept_unless_signed_sample :
    ∃ later, (@run Jobs.Sample.runtime (Sample.run (Sample.actions.take 3))
        [.instruction (.rewards Network.Sample.account (.sync ⟨Network.Sample.reward,
          Sample.stakeAccount, .rewardsReflection⟩)), .tick 110]).network.staking.stakes.lookup
            Network.Sample.account = some later ∧ Sample.stakeAccount.Slashed later :=
  (@records_kept_unless_signed Jobs.Sample.runtime (Sample.run (Sample.actions.take 3))
    Network.Sample.staker _ (by decide +kernel)).1 Network.Sample.account Sample.stakeAccount
      (by decide +kernel) rfl

end Chain

end Nosana
