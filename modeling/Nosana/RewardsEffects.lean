import Nosana.RewardsProgram

set_option autoImplicit false

/- What every successful instruction of the rewards program does. -/
namespace Nosana.Rewards

open Checked

/-! What the operations on accounts do when they succeed -/

theorem addFee_eq_ok {reflection next : ReflectionAccount} {fee : Nat} :
    reflection.addFee fee = .ok next ↔
      reflection.totalXnos + fee < 2 ^ 128 ∧ reflection.totalXnos + fee ≠ 0 ∧
        { reflection with
          totalXnos := reflection.totalXnos + fee
          rate := reflection.totalReflection / (reflection.totalXnos + fee) } = next := by
  simp only [ReflectionAccount.addFee, add, div, bind_eq_ok, checked_eq_ok, pure_eq_ok]
  constructor
  · rintro ⟨_, ⟨fits, rfl⟩, _, ⟨some, rfl⟩, rfl⟩
    exact ⟨fits, some, rfl⟩
  · rintro ⟨fits, some, rfl⟩
    exact ⟨_, ⟨fits, rfl⟩, _, ⟨some, rfl⟩, rfl⟩

theorem addRewardsAccount_eq_ok {reflection next : ReflectionAccount}
    {xnos rewardXnos points : Nat}
    (success : reflection.addRewardsAccount xnos rewardXnos = .ok (points, next)) :
    points = (xnos + rewardXnos) * reflection.rate ∧
      next = { reflection with
        totalReflection := reflection.totalReflection + points
        totalXnos := reflection.totalXnos + xnos } := by
  simp only [ReflectionAccount.addRewardsAccount, add, mul, bind_eq_ok, checked_eq_ok, pure_eq_ok,
    Prod.mk.injEq] at success
  obtain ⟨_, ⟨-, rfl⟩, _, ⟨-, rfl⟩, _, ⟨-, rfl⟩, _, ⟨-, rfl⟩, rfl, rfl⟩ := success
  exact ⟨rfl, rfl⟩

theorem removeRewardsAccount_eq_ok {reflection next : ReflectionAccount} {points xnos : Nat} :
    reflection.removeRewardsAccount points xnos = .ok next ↔
      xnos ≤ reflection.totalXnos ∧ points ≤ reflection.totalReflection ∧
        { reflection with
          totalReflection := reflection.totalReflection - points
          totalXnos := reflection.totalXnos - xnos } = next := by
  simp only [ReflectionAccount.removeRewardsAccount, sub, bind_eq_ok, checked_eq_ok, pure_eq_ok]
  constructor
  · rintro ⟨_, ⟨covered, rfl⟩, _, ⟨owned, rfl⟩, rfl⟩
    exact ⟨covered, owned, rfl⟩
  · rintro ⟨covered, owned, rfl⟩
    exact ⟨_, ⟨covered, rfl⟩, _, ⟨owned, rfl⟩, rfl⟩

theorem getAmount_eq_ok {reward : RewardAccount} {rate amount : Nat} :
    reward.getAmount rate = .ok amount ↔
      rate ≠ 0 ∧ reward.xnos ≤ reward.reflection / rate ∧
        reward.reflection / rate - reward.xnos = amount := by
  simp only [RewardAccount.getAmount, sub, div, bind_eq_ok, checked_eq_ok]
  constructor
  · rintro ⟨_, ⟨positive, rfl⟩, covered, rfl⟩
    exact ⟨positive, covered, rfl⟩
  · rintro ⟨positive, covered, rfl⟩
    exact ⟨_, ⟨positive, rfl⟩, covered, rfl⟩

theorem removeRewardsAccount_rate {reflection removed : ReflectionAccount} {points xnos : Nat}
    (left : reflection.removeRewardsAccount points xnos = .ok removed) :
    removed.rate = reflection.rate := by
  obtain ⟨-, -, rfl⟩ := removeRewardsAccount_eq_ok.mp left
  rfl

theorem addRewardsAccount_rate {reflection added : ReflectionAccount} {points xnos more : Nat}
    (entered : reflection.addRewardsAccount xnos more = .ok (points, added)) :
    added.rate = reflection.rate := by
  obtain ⟨-, rfl⟩ := addRewardsAccount_eq_ok entered
  rfl

/-- What an account is worth is what was staked and what it can claim. -/
theorem getAmount_worth {reward : RewardAccount} {rate amount : Nat}
    (pending : reward.getAmount rate = .ok amount) :
    reward.xnos + amount = reward.reflection / rate := by
  obtain ⟨-, covered, rfl⟩ := getAmount_eq_ok.mp pending
  exact Nat.add_sub_cancel' covered

@[simp] theorem loadReflection_eq_ok {s : State} {key : Pubkey} {reflection : ReflectionAccount} :
    s.loadReflection key = .ok reflection ↔
      key = .rewardsReflection ∧ s.reflection = some reflection := by
  simp only [State.loadReflection, bind_eq_ok, require_eq_ok, get_eq_ok, exists_const]

@[simp] theorem loadReward_eq_ok {s : State} {key : Pubkey} {reward : RewardAccount} :
    s.loadReward key = .ok reward ↔ s.rewards.lookup key = some reward := get_eq_ok _ _ _

theorem claimConstraints_eq_ok {s : State} {a : Accounts.Claim} {reflection : ReflectionAccount}
    {reward : RewardAccount} (success : claimConstraints s a = .ok (reflection, reward)) :
    s.reflection = some reflection ∧ s.rewards.lookup a.reward = some reward ∧
      reflection.vault = a.vault ∧ a.user ≠ a.vault := by
  simp only [claimConstraints, Tokens.load, bind_eq_ok, get_eq_ok, loadReflection_eq_ok,
    loadReward_eq_ok, require_eq_ok, pure_eq_ok, exists_const, Prod.mk.injEq] at success
  obtain ⟨-, -, -, -, other, ⟨-, found⟩, account, owner, vaulted, -, -, -, -, apart, rfl, rfl⟩ :=
    success
  exact ⟨found, owner, vaulted, apart⟩

/-- A claim found a reward account with something to claim or without. -/
structure Claimable (s : State) (a : Accounts.Claim) (old : ReflectionAccount)
    (reward : RewardAccount) (amount : Nat) : Prop where
  found : s.reflection = some old
  present : s.rewards.lookup a.reward = some reward
  vaulted : old.vault = a.vault
  apart : a.user ≠ a.vault
  pending : reward.getAmount old.rate = .ok amount

inductive Effect (s : State) : Instruction → State → Prop
  | opened {a : Accounts.Init} (keyed : a.reflection = .rewardsReflection)
      (fresh : s.Vacant a.reflection) (mint : a.mint = id.nosToken)
      (vaulted : a.vault = .rewardsVault a.mint) (freshVault : s.Vacant a.vault) :
      Effect s (.init a)
        { s with
          reflection := some (ReflectionAccount.zeroed.init a.vault)
          tokens := s.tokens.insert a.vault (.holding a.mint a.vault 0) }
  | entered {a : Accounts.Enter} {old added : ReflectionAccount} {points : Nat}
      (found : s.reflection = some old) (owned : a.stake.authority = a.authority)
      (staked : a.stake.timeUnstake = 0) (keyed : a.reward = pda.nosanaRewards a.authority)
      (fresh : s.Vacant a.reward)
      (bought : old.addRewardsAccount a.stake.xnos 0 = .ok (points, added)) :
      Effect s (.enter a)
        { s with
          reflection := some added
          rewards := s.rewards.insert a.reward
            (RewardAccount.zeroed.init a.authority points a.stake.xnos) }
  | feeAdded {a : Accounts.AddFee} {amount : Nat} {old raised : ReflectionAccount}
      {tokens : Tokens} (found : s.reflection = some old) (vaulted : old.vault = a.vault)
      (apart : a.user ≠ a.vault) (paid : old.addFee amount = .ok raised)
      (moved : s.tokens.transfer a.user a.vault a.authority amount = .ok tokens) :
      Effect s (.addFee a amount) { s with reflection := some raised, tokens := tokens }
  | claimedNothing {a : Accounts.Claim} {old : ReflectionAccount} {reward : RewardAccount}
      (claims : Claimable s a old reward 0) : Effect s (.claim a) s
  | claimed {a : Accounts.Claim} {old removed added : ReflectionAccount} {reward : RewardAccount}
      {amount points : Nat} {tokens : Tokens} (claims : Claimable s a old reward amount)
      (some : 0 < amount)
      (left : old.removeRewardsAccount reward.reflection (reward.xnos + amount) = .ok removed)
      (bought : removed.addRewardsAccount a.stake.xnos 0 = .ok (points, added))
      (signed : ∃ mint, a.vault = .rewardsVault mint)
      (moved : s.tokens.transfer a.vault a.user a.vault amount = .ok tokens) :
      Effect s (.claim a)
        { s with
          reflection := Option.some added
          rewards := s.rewards.insert a.reward (reward.update points a.stake.xnos)
          tokens := tokens }
  | synced {a : Accounts.Sync} {old removed added : ReflectionAccount} {reward : RewardAccount}
      {amount points : Nat} (found : s.reflection = some old)
      (present : s.rewards.lookup a.reward = some reward) (staked : a.stake.timeUnstake = 0)
      (owned : a.stake.authority = reward.authority)
      (left : old.removeRewardsAccount reward.reflection reward.xnos = .ok removed)
      (pending : reward.getAmount removed.rate = .ok amount)
      (bought : removed.addRewardsAccount a.stake.xnos amount = .ok (points, added)) :
      Effect s (.sync a)
        { s with
          reflection := some added
          rewards := s.rewards.insert a.reward (reward.update points a.stake.xnos) }
  | closed {a : Accounts.Close} {old removed : ReflectionAccount} {reward : RewardAccount}
      (found : s.reflection = some old) (present : s.rewards.lookup a.reward = some reward)
      (owned : reward.authority = a.authority)
      (left : old.removeRewardsAccount reward.reflection reward.xnos = .ok removed) :
      Effect s (.close a)
        { s with reflection := some removed, rewards := s.rewards.erase a.reward }

section

variable {s s' : State}

theorem transferFromVault_eq_ok {tokens paid : Tokens} {vault destination : Pubkey} {amount : Nat}
    (success : transferFromVault tokens vault destination amount = .ok paid) :
    (∃ mint, vault = .rewardsVault mint) ∧
      tokens.transfer vault destination vault amount = .ok paid := by
  simp only [transferFromVault, bind_eq_ok, require_eq_ok, exists_const] at success
  obtain ⟨account, -, signed, moved⟩ := success
  exact ⟨⟨account.mint, signed⟩, moved⟩

theorem init_effect {a : Accounts.Init} (success : init s a = .ok s') :
    Effect s (.init a) s' := by
  simp only [init, bind_eq_ok, require_eq_ok, pure_eq_ok, exists_const] at success
  obtain ⟨mint, keyed, fresh, vaulted, freshVault, rfl⟩ := success
  exact .opened keyed fresh mint vaulted freshVault

theorem enter_effect {a : Accounts.Enter} (success : enter s a = .ok s') :
    Effect s (.enter a) s' := by
  simp only [enter, bind_eq_ok, loadReflection_eq_ok, require_eq_ok, pure_eq_ok, exists_const,
    Prod.exists] at success
  obtain ⟨old, ⟨-, found⟩, owned, staked, keyed, fresh, points, added, bought, rfl⟩ := success
  exact .entered found owned staked keyed fresh bought

theorem addFee_effect {a : Accounts.AddFee} {amount : Nat} (success : addFee s a amount = .ok s') :
    Effect s (.addFee a amount) s' := by
  simp only [addFee, Tokens.load, bind_eq_ok, get_eq_ok, loadReflection_eq_ok, require_eq_ok,
    pure_eq_ok, exists_const] at success
  obtain ⟨-, -, old, ⟨-, found⟩, -, -, vaulted, apart, raised, paid, tokens, moved, rfl⟩ := success
  exact .feeAdded found vaulted apart paid moved

theorem claim_effect {a : Accounts.Claim} (success : claim s a = .ok s') :
    Effect s (.claim a) s' := by
  simp only [claim, bind_eq_ok, Prod.exists] at success
  obtain ⟨old, reward, constraints, amount, pending, success⟩ := success
  obtain ⟨found, present, vaulted, apart⟩ := claimConstraints_eq_ok constraints
  have claims : Claimable s a old reward amount := ⟨found, present, vaulted, apart, pending⟩
  split at success
  · rename_i nothing
    subst nothing
    cases success
    exact .claimedNothing claims
  · rename_i paying
    simp only [add, narrow, bind_eq_ok, checked_eq_ok, pure_eq_ok, Prod.exists] at success
    obtain ⟨_, ⟨-, rfl⟩, removed, left, points, added, bought, _, ⟨-, rfl⟩, tokens, paid, rfl⟩ :=
      success
    obtain ⟨signed, moved⟩ := transferFromVault_eq_ok paid
    exact .claimed claims (Nat.pos_of_ne_zero paying) left bought signed moved

theorem sync_effect {a : Accounts.Sync} (success : sync s a = .ok s') : Effect s (.sync a) s' := by
  simp only [sync, bind_eq_ok, loadReflection_eq_ok, loadReward_eq_ok, require_eq_ok, pure_eq_ok,
    exists_const, Prod.exists] at success
  obtain ⟨reward, present, old, ⟨-, found⟩, staked, owned, removed, left, amount, pending, points,
    added, bought, rfl⟩ := success
  exact .synced found present staked owned left pending bought

theorem close_effect {a : Accounts.Close} (success : close s a = .ok s') :
    Effect s (.close a) s' := by
  simp only [close, bind_eq_ok, loadReflection_eq_ok, loadReward_eq_ok, require_eq_ok, pure_eq_ok,
    exists_const] at success
  obtain ⟨old, ⟨-, found⟩, reward, present, owned, removed, left, rfl⟩ := success
  exact .closed found present owned left

theorem process_effect {ix : Instruction} (success : process s ix = .ok s') : Effect s ix s' := by
  cases ix with
  | init a => exact init_effect success
  | enter a => exact enter_effect success
  | addFee a amount => exact addFee_effect success
  | claim a => exact claim_effect success
  | sync a => exact sync_effect success
  | close a => exact close_effect success

end

end Nosana.Rewards
