import Nosana.RewardsPool

set_option autoImplicit false

/- `sync` gives an account new points for its current stake and its pending rewards, and moves
no value. -/
namespace Nosana.Rewards

open Checked

/-- What the reward account at an address can claim. -/
def State.claimableAt (s : State) (key : Pubkey) : Except Error Nat := do
  let reflection ← s.loadReflection .rewardsReflection
  let reward ← s.loadReward key
  reward.getAmount reflection.rate

/-- A removal gives back what an addition brought. -/
theorem removeRewardsAccount_added {removed : ReflectionAccount} {points xnos rewardXnos : Nat}
    {added : ReflectionAccount}
    (entered : removed.addRewardsAccount xnos rewardXnos = .ok (points, added)) :
    added.removeRewardsAccount points xnos = .ok removed := by
  obtain ⟨-, rfl⟩ := addRewardsAccount_eq_ok entered
  rw [removeRewardsAccount_eq_ok]
  refine ⟨Nat.le_add_left _ _, Nat.le_add_left _ _, ?_⟩
  simp only [Nat.add_sub_cancel]

/-- An account that gave up its points and got new ones leaves the totals as if it had not. -/
theorem removeRewardsAccount_rejoined {reflection removed added direct later : ReflectionAccount}
    {old points staked xnos amount : Nat}
    (left : reflection.removeRewardsAccount old staked = .ok removed)
    (entered : removed.addRewardsAccount xnos amount = .ok (points, added))
    (taken : reflection.removeRewardsAccount old (staked + amount) = .ok direct)
    (retaken : added.removeRewardsAccount points (xnos + amount) = .ok later) : direct = later := by
  obtain ⟨-, -, rfl⟩ := removeRewardsAccount_eq_ok.mp left
  obtain ⟨-, rfl⟩ := addRewardsAccount_eq_ok entered
  obtain ⟨-, -, rfl⟩ := removeRewardsAccount_eq_ok.mp taken
  obtain ⟨-, -, rfl⟩ := removeRewardsAccount_eq_ok.mp retaken
  simp only [Nat.add_sub_cancel, ReflectionAccount.mk.injEq, true_and, and_true]
  omega

/-- The points that were given for a stake and a pending reward are worth both. -/
theorem getAmount_update {reward : RewardAccount} {rate xnos amount : Nat} (positive : rate ≠ 0) :
    (reward.update ((xnos + amount) * rate) xnos).getAmount rate = .ok amount := by
  rw [getAmount_eq_ok]
  simp only [RewardAccount.update, Nat.mul_div_cancel _ (Nat.pos_of_ne_zero positive)]
  exact ⟨positive, Nat.le_add_right _ _, Nat.add_sub_cancel_left _ _⟩

theorem sync_eq_ok {s s' : State} {a : Accounts.Sync} :
    sync s a = .ok s' ↔ ∃ reward reflection removed amount points added,
      s.rewards.lookup a.reward = some reward ∧
      (a.reflection = .rewardsReflection ∧ s.reflection = some reflection) ∧
      a.stake.timeUnstake = 0 ∧ a.stake.authority = reward.authority ∧
      reflection.removeRewardsAccount reward.reflection reward.xnos = .ok removed ∧
      reward.getAmount removed.rate = .ok amount ∧
      removed.addRewardsAccount a.stake.xnos amount = .ok (points, added) ∧
      { s with
        reflection := some added
        rewards := s.rewards.insert a.reward (reward.update points a.stake.xnos) } = s' := by
  simp only [sync, bind_eq_ok, loadReward_eq_ok, loadReflection_eq_ok, require_eq_ok, pure_eq_ok,
    exists_const, Prod.exists]
  constructor
  · rintro ⟨reward, present, reflection, pool, active, own, removed, left, amount, pending, points,
      added, entered, same⟩
    exact ⟨reward, reflection, removed, amount, points, added, present, pool, active, own, left,
      pending, entered, same⟩
  · rintro ⟨reward, reflection, removed, amount, points, added, present, pool, active, own, left,
      pending, entered, same⟩
    exact ⟨reward, present, reflection, pool, active, own, removed, left, amount, pending, points,
      added, entered, same⟩

theorem claimableAt_eq {s : State} {reflection : ReflectionAccount} {key : Pubkey}
    {reward : RewardAccount} (pool : s.reflection = some reflection)
    (present : s.rewards.lookup key = some reward) :
    s.claimableAt key = reward.getAmount reflection.rate := by
  simp [State.claimableAt, State.loadReflection, State.loadReward, pool, present,
    require, Checked.get, bind, Except.bind]

/-- What an account can claim depends on the rate and the account. -/
theorem claimableAt_congr {s s' : State} {key : Pubkey}
    (rate : s'.reflection.map ReflectionAccount.rate = s.reflection.map ReflectionAccount.rate)
    (same : s'.rewards.lookup key = s.rewards.lookup key) :
    s'.claimableAt key = s.claimableAt key := by
  cases before : s.reflection <;> cases after : s'.reflection <;>
    simp_all [State.claimableAt, State.loadReflection, State.loadReward, require, Checked.get,
      bind, Except.bind]

section

variable {s s' : State} {a : Accounts.Sync}

/-- Synchronizing once more finds the account as it has to be. -/
theorem sync_again (success : sync s a = .ok s') : sync s' a = .ok s' := by
  obtain ⟨reward, reflection, removed, amount, points, added, present, pool, active, own, left,
    pending, entered, rfl⟩ := sync_eq_ok.mp success
  obtain ⟨bought, -⟩ := addRewardsAccount_eq_ok entered
  obtain ⟨positive, -, -⟩ := getAmount_eq_ok.mp pending
  refine sync_eq_ok.mpr ⟨reward.update points a.stake.xnos, added, removed, amount, points, added,
    Finmap.lookup_insert _, ⟨pool.1, rfl⟩, active, own, removeRewardsAccount_added entered, ?_,
    entered, ?_⟩
  · rw [bought]
    exact getAmount_update positive
  · simp only [Finmap.insert_insert]
    rfl

/-- What a claim that pays does. -/
theorem claim_paid {c : Accounts.Claim} {reflection : ReflectionAccount} {reward : RewardAccount}
    {amount : Nat} (pool : s.reflection = some reflection)
    (present : s.rewards.lookup c.reward = some reward)
    (pending : reward.getAmount reflection.rate = .ok amount) (positive : 0 < amount)
    (success : claim s c = .ok s') :
    ∃ removed points added tokens,
      reflection.removeRewardsAccount reward.reflection (reward.xnos + amount) = .ok removed ∧
      removed.addRewardsAccount c.stake.xnos 0 = .ok (points, added) ∧
      s.tokens.transfer c.vault c.user c.vault amount = .ok tokens ∧
      { s with
        reflection := some added
        rewards := s.rewards.insert c.reward (reward.update points c.stake.xnos)
        tokens := tokens } = s' := by
  cases claim_effect success with
  | claimedNothing claims =>
      cases pool.symm.trans claims.found
      cases present.symm.trans claims.present
      cases pending.symm.trans claims.pending
      exact absurd positive (Nat.lt_irrefl 0)
  | claimed claims _ left bought _ moved =>
      cases pool.symm.trans claims.found
      cases present.symm.trans claims.present
      cases pending.symm.trans claims.pending
      exact ⟨_, _, _, _, left, bought, moved, rfl⟩

/-- A payout from the synchronized account ends where a payout without it does. -/
theorem sync_claim_eq (success : sync s a = .ok s') {c : Accounts.Claim}
    (account : c.reward = a.reward) {amount : Nat}
    (claimable : s.claimableAt a.reward = .ok amount) (some : 0 < amount) {alone after : State}
    (direct : claim s c = .ok alone) (later : claim s' c = .ok after) : after = alone := by
  obtain ⟨reward, reflection, removed, _, points, added, present, ⟨-, pool⟩, -, -, left, pending,
    entered, rfl⟩ := sync_eq_ok.mp success
  have rate := removeRewardsAccount_rate left
  have kept := addRewardsAccount_rate entered
  rw [claimableAt_eq pool present, ← rate, pending] at claimable
  cases claimable
  have fresh : (reward.update points a.stake.xnos).getAmount added.rate = .ok amount := by
    rw [(addRewardsAccount_eq_ok entered).1, kept]
    exact getAmount_update (getAmount_eq_ok.mp pending).1
  rw [rate] at pending
  obtain ⟨_, _, _, tokens, taken, given, moved, rfl⟩ :=
    claim_paid pool (account ▸ present) pending some direct
  obtain ⟨_, _, _, _, retaken, regiven, again, rfl⟩ :=
    claim_paid rfl (account ▸ Finmap.lookup_insert _) fresh some later
  cases removeRewardsAccount_rejoined left entered taken retaken
  cases given.symm.trans regiven
  cases moved.symm.trans again
  simp only [account, Finmap.insert_insert]
  rfl

/-- Synchronizing moves no value: what each account can claim stays, a second time changes
nothing, and a claim that pays ends in the same state, payments included, as it would have without,
whatever stake it sees. -/
theorem sync_is_value_neutral {s s' : State} {a : Accounts.Sync} (success : sync s a = .ok s') :
    s'.reflection.map ReflectionAccount.rate = s.reflection.map ReflectionAccount.rate ∧
    s'.tokens = s.tokens ∧ (∃ amount, s.claimableAt a.reward = .ok amount) ∧
    (∀ key, s'.claimableAt key = s.claimableAt key) ∧ sync s' a = .ok s' ∧
    ∀ c : Accounts.Claim, c.reward = a.reward → ∀ amount, s.claimableAt a.reward = .ok amount →
      0 < amount → ∀ alone after, claim s c = .ok alone → claim s' c = .ok after →
        after = alone := by
  obtain ⟨reward, reflection, removed, amount, points, added, present, ⟨-, pool⟩, -, -, left,
    pending, entered, rfl⟩ := sync_eq_ok.mp success
  have kept := addRewardsAccount_rate entered
  have rate : added.rate = reflection.rate := kept.trans (removeRewardsAccount_rate left)
  have rates : (some added).map ReflectionAccount.rate =
      s.reflection.map ReflectionAccount.rate := by
    rw [pool]
    exact congrArg some rate
  have before : s.claimableAt a.reward = .ok amount := by
    rw [claimableAt_eq pool present, ← removeRewardsAccount_rate left]
    exact pending
  refine ⟨rates, rfl, ⟨amount, before⟩, fun key => ?_, sync_again success, ?_⟩
  · by_cases own : key = a.reward
    · rw [own, before, claimableAt_eq rfl (Finmap.lookup_insert _),
        (addRewardsAccount_eq_ok entered).1, kept]
      exact getAmount_update (getAmount_eq_ok.mp pending).1
    · exact claimableAt_congr rates (Finmap.lookup_insert_of_ne _ own)
  · intro c account amount claimable paying alone after direct later
    exact sync_claim_eq success account claimable paying direct later

end

namespace Sample

/-- The staker has entered with 100 tokens, and a fee of 10 was paid. -/
def rewarded : State := run [init, enter 100, addFee 10]

def syncing (xnos : Nat) : Accounts.Sync :=
  ⟨pda.nosanaRewards staker, stake xnos, .rewardsReflection⟩

/-- The stake has grown to 150 tokens. -/
def synced : State := run [init, enter 100, addFee 10, .instruction (.sync (syncing 150))]

end Sample

theorem sync_is_value_neutral_sample :
    Sample.synced.reflection.map ReflectionAccount.rate =
      Sample.rewarded.reflection.map ReflectionAccount.rate ∧
    Sample.synced.tokens = Sample.rewarded.tokens ∧
    (∃ amount, Sample.rewarded.claimableAt (Sample.syncing 150).reward = .ok amount) ∧
    (∀ key, Sample.synced.claimableAt key = Sample.rewarded.claimableAt key) ∧
    sync Sample.synced (Sample.syncing 150) = .ok Sample.synced ∧
    ∀ c : Accounts.Claim, c.reward = (Sample.syncing 150).reward →
      ∀ amount, Sample.rewarded.claimableAt (Sample.syncing 150).reward = .ok amount →
      0 < amount → ∀ alone after, claim Sample.rewarded c = .ok alone →
        claim Sample.synced c = .ok after → after = alone :=
  sync_is_value_neutral rfl

end Nosana.Rewards
