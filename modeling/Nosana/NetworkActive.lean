import Nosana.NetworkSimulation

set_option autoImplicit false

/- Whoever has a reward account has a stake that is not unstaked. -/
namespace Nosana

open Checked

namespace Staking

/-- The stake of an authority exists and is not unstaked. -/
def State.Active (s : State) (authority : Pubkey) : Prop :=
  ∃ stake, s.stakes.lookup (pda.nosanaStaking authority) = some stake ∧
    stake.authority = authority ∧ stake.timeUnstake = 0

/-- The instructions by which tokens leave a stake: they unstake it, withdraw from it or
close it. -/
def Instruction.releases (stake : Pubkey) : Instruction → Prop
  | .unstake a => a.stake = stake
  | .withdraw a => a.stake = stake
  | .close a => a.stake = stake
  | _ => False

variable {s s' : State}

/-- An unstaked authority has shown that its reward account is closed. -/
theorem unstake_closed {a : Accounts.Unstake} (success : unstake s a = .ok s') :
    ∃ stake, s.stakes.lookup a.stake = some stake ∧ stake.authority = a.authority ∧
      a.reward.key = pda.nosanaRewards a.authority ∧ accountIsClosed a.reward = .ok true := by
  simp only [unstake, bind_eq_ok, loadStake_eq_ok, require_eq_ok, exists_const] at success
  obtain ⟨stake, present, owned, -, keyed, closed, shown, rfl, -⟩ := success
  exact ⟨stake, present, owned, keyed, shown⟩

theorem close_unstaked {a : Accounts.Close} (success : close s a = .ok s') :
    ∃ stake, s.stakes.lookup a.stake = some stake ∧ stake.timeUnstake ≠ 0 := by
  simp only [close, bind_eq_ok, loadStake_eq_ok, require_eq_ok, exists_const] at success
  obtain ⟨-, -, stake, present, vault, -, -, -, unstaked, -⟩ := success
  exact ⟨stake, present, unstaked⟩

theorem withdraw_unstaked {a : Accounts.Withdraw} (success : withdraw s a = .ok s') :
    ∃ stake, s.stakes.lookup a.stake = some stake ∧ stake.timeUnstake ≠ 0 := by
  simp only [withdraw, bind_eq_ok, Prod.exists] at success
  obtain ⟨account, stake, constraints, -⟩ := success
  have ⟨present, _, _, _, unstaked, _⟩ := withdrawConstraints_eq_ok constraints
  exact ⟨stake, present, unstaked⟩

/-- Only the stake of somebody who is unstaked goes away. -/
theorem unstaked_of_closed {action : Action} {key : Pubkey} {stake : StakeAccount}
    (present : s.stakes.lookup key = some stake) (success : step s action = .ok s')
    (gone : s'.stakes.lookup key = none) : stake.timeUnstake ≠ 0 := by
  have stays : ∀ {other : Pubkey} {value : StakeAccount},
      (s.stakes.insert other value).lookup key ≠ none := by
    intro other value
    rw [Finmap.lookup_insert_eq_ite]
    split
    · simp
    · simp [present]
  cases step_effect success with
  | settings | tick | external | withdraw => cases gone.symm.trans present
  | stake | unstake | restake | topup | extend | slash => exact absurd gone stays
  | @close a _ _ found loaded =>
      by_cases same : a.stake = key
      · subst same
        simp only [step, bind_eq_ok] at success
        obtain ⟨-, -, closed⟩ := success
        obtain ⟨other, again, unstaked⟩ := close_unstaked closed
        cases present.symm.trans again
        exact unstaked
      · rw [Finmap.lookup_erase_ne (Ne.symm same), present] at gone
        cases gone

/-- An active stake stays active until it is unstaked. -/
theorem active_step {action : Action} {authority : Pubkey} (sound : Sound s)
    (active : s.Active authority) (success : step s action = .ok s') :
    s'.Active authority ∨ ∃ a, action = .instruction (.unstake a) ∧
      a.reward.key = pda.nosanaRewards authority ∧ accountIsClosed a.reward = .ok true := by
  obtain ⟨stake, present, owned, staked⟩ := active
  rcases step_turn sound present success with ⟨gone, -⟩ | turn
  · exact absurd staked (unstaked_of_closed present success gone)
  · cases turn with
    | kept after => exact Or.inl ⟨_, after, owned, staked⟩
    | @unstaked a xnos unstakes same =>
        cases unstakes
        simp only [step, bind_eq_ok] at success
        obtain ⟨-, -, unstaked⟩ := success
        obtain ⟨other, again, authorized, keyed, closed⟩ := unstake_closed unstaked
        rw [same, present] at again
        cases again
        rw [← authorized, owned] at keyed
        exact Or.inr ⟨a, rfl, keyed, closed⟩
    | restaked _ _ after => exact Or.inl ⟨_, after, owned, rfl⟩
    | raised _ after => exact Or.inl ⟨_, after, owned, staked⟩
    | extended _ _ after => exact Or.inl ⟨_, after, owned, staked⟩
    | withdrawn after => exact Or.inl ⟨_, after, owned, staked⟩
    | slashed _ _ _ after => exact Or.inl ⟨_, after, owned, staked⟩

end Staking

namespace Rewards

/-- A reward account after an instruction was there before, or its authority has entered with
a stake that is not unstaked. -/
theorem reward_step {s s' : State} {ix : Instruction} (success : process s ix = .ok s')
    {key : Pubkey} {reward : RewardAccount} (after : s'.rewards.lookup key = some reward) :
    (∃ old, s.rewards.lookup key = some old ∧ old.authority = reward.authority) ∨
      ∃ a, ix = .enter a ∧ key = pda.nosanaRewards reward.authority ∧
        a.stake.authority = reward.authority ∧ a.stake.timeUnstake = 0 := by
  have updated : ∀ {other : Pubkey} {old : RewardAccount} {points xnos : Nat},
      s.rewards.lookup other = some old →
      (s.rewards.insert other (old.update points xnos)).lookup key = some reward →
      ∃ old, s.rewards.lookup key = some old ∧ old.authority = reward.authority := by
    intro other old points xnos present inside
    rcases Finmap.lookup_insert_eq_some inside with ⟨rfl, rfl⟩ | ⟨-, earlier⟩
    · exact ⟨old, present, rfl⟩
    · exact ⟨reward, earlier, rfl⟩
  cases process_effect success with
  | opened | feeAdded | claimedNothing => exact Or.inl ⟨reward, after, rfl⟩
  | @entered a _ _ _ _ owned staked keyed =>
      rcases Finmap.lookup_insert_eq_some after with ⟨rfl, rfl⟩ | ⟨-, earlier⟩
      · exact Or.inr ⟨a, rfl, keyed, owned, staked⟩
      · exact Or.inl ⟨reward, earlier, rfl⟩
  | claimed claims => exact Or.inl (updated claims.present after)
  | synced _ present => exact Or.inl (updated present after)
  | closed => exact Or.inl ⟨reward, (Finmap.lookup_erase_eq_some after).2, rfl⟩

end Rewards

namespace Network

/-- Every reward account is at the address of its authority, whose stake is active. -/
def Guarded (s : State) : Prop :=
  ∀ key reward, s.rewards.lookup key = some reward →
    key = pda.nosanaRewards reward.authority ∧ s.staking.Active reward.authority

/-- A reward account that passes for closed does not exist. -/
theorem State.Shows.absent {s : State} {info : AccountInfo} (shows : s.Shows info)
    (closed : accountIsClosed info = .ok true) : info.key ∉ s.rewards := by
  intro live
  have ⟨owner, data⟩ := shows live
  have long : 8 ≤ info.data.length := by
    have size := congrArg List.length data
    rw [List.length_take] at size
    change _ = 8 at size
    omega
  unfold accountIsClosed at closed
  rw [owner, if_neg (by decide), if_pos long, data] at closed
  cases closed

theorem guarded_step {s s' : State} {action : Action} (coherent : Coherent s) (guarded : Guarded s)
    (success : step s action = .ok s') : Guarded s' := by
  obtain ⟨faithful, users, success⟩ := step_eq_ok success
  intro key reward after
  cases action with
  | staking ix =>
      simp only [process, bind_eq_ok, pure_eq_ok] at success
      obtain ⟨staking, processed, rfl⟩ := success
      obtain ⟨keyed, active⟩ := guarded key reward after
      rcases Staking.active_step coherent.sound active (staking_step users processed) with
        still | ⟨a, unstakes, same, closed⟩
      · exact ⟨keyed, still⟩
      · cases unstakes
        have absent := State.Shows.absent faithful closed
        rw [same, ← keyed] at absent
        exact absurd (Finmap.mem_of_lookup_eq_some after) absent
  | rewards stake ix =>
      simp only [process, bind_eq_ok, pure_eq_ok] at success
      obtain ⟨pool, processed, rfl⟩ := success
      rcases Rewards.reward_step processed after with
        ⟨old, present, same⟩ | ⟨a, rfl, keyed, owned, staked⟩
      · rw [← same]
        exact guarded key old present
      · have loaded : s.staking.stakes.lookup stake = some a.stake := faithful a.stake rfl
        have standing := coherent.sound.stakes stake a.stake loaded
        rw [standing.keyed, owned] at loaded
        exact ⟨keyed, a.stake, loaded, owned, staked⟩
  | tick now | external tokens =>
      simp only [process, bind_eq_ok, pure_eq_ok] at success
      obtain ⟨-, -, rfl⟩ := success
      exact guarded key reward after

/-- The stake of somebody with a reward account stays where it is. -/
theorem Guarded.keeps {s next : State} (guarded : Guarded s) {key : Pubkey}
    {reward : Rewards.RewardAccount} (present : s.rewards.lookup key = some reward)
    {ix : Staking.Instruction} (releases : ix.releases (pda.nosanaStaking reward.authority)) :
    step s (.staking ix) ≠ .ok next := by
  intro success
  obtain ⟨faithful, -, success⟩ := step_eq_ok success
  simp only [process, bind_eq_ok] at success
  obtain ⟨staking, processed, -⟩ := success
  obtain ⟨keyed, stake, found, owned, staked⟩ := guarded key reward present
  unfold Staking.Instruction.releases at releases
  split at releases
  · rename_i a
    obtain ⟨other, again, authorized, same, closed⟩ := Staking.unstake_closed processed
    rw [releases, found] at again
    cases again
    have absent := State.Shows.absent faithful closed
    rw [same, ← authorized, owned, ← keyed] at absent
    exact absent (Finmap.mem_of_lookup_eq_some present)
  · rename_i a
    obtain ⟨other, again, unstaked⟩ := Staking.withdraw_unstaked processed
    rw [releases, found] at again
    cases again
    exact unstaked staked
  · rename_i a
    obtain ⟨other, again, unstaked⟩ := Staking.close_unstaked processed
    rw [releases, found] at again
    cases again
    exact unstaked staked
  · exact releases

/-- In every state of every run, a reward account is at the address of its authority, the
authority has a stake that is not unstaked, and that stake can not be unstaked, withdrawn
from or closed. -/
theorem rewards_only_for_active {s : State} (genesis : Genesis s) (actions : List Action) :
    ∀ state ∈ reached s actions, ∀ key reward, state.rewards.lookup key = some reward →
      key = pda.nosanaRewards reward.authority ∧
      (∃ stake, state.staking.stakes.lookup (pda.nosanaStaking reward.authority) = some stake ∧
        stake.authority = reward.authority ∧ stake.timeUnstake = 0) ∧
      ∀ ix : Staking.Instruction, ix.releases (pda.nosanaStaking reward.authority) →
        ∀ next, step state (.staking ix) ≠ .ok next := by
  have start : Guarded s := by
    intro key reward present
    have none : s.rewards = ∅ := genesis.rewards.rewards
    simp [none] at present
  have kept : ∀ state ∈ reached s actions, Coherent state ∧ Guarded state :=
    Machine.reached_invariant ⟨genesis.coherent, start⟩
      (fun _ _ _ before success =>
        ⟨coherent_step before.1 success, guarded_step before.1 before.2 success⟩) actions
  intro state member key reward present
  have guarded := (kept state member).2
  have ⟨keyed, active⟩ := guarded key reward present
  exact ⟨keyed, active, fun ix releases next => guarded.keeps present releases⟩

theorem rewards_only_for_active_sample :
    ∃ state ∈ reached Sample.start Sample.leaving, ∃ reward,
      state.rewards.lookup Sample.reward = some reward ∧
      ∃ stake, state.staking.stakes.lookup (pda.nosanaStaking reward.authority) = some stake ∧
        stake.authority = reward.authority ∧ stake.timeUnstake = 0 := by
  have entered : ∃ state ∈ reached Sample.start Sample.leaving,
      (state.rewards.lookup Sample.reward).isSome = true := by decide +kernel
  obtain ⟨state, member, some⟩ := entered
  obtain ⟨reward, present⟩ := Option.isSome_iff_exists.mp some
  exact ⟨state, member, reward, present,
    (rewards_only_for_active Sample.genesis Sample.leaving state member _ reward present).2.1⟩

/-- Five of the six steps succeed: the first attempt to unstake does not. -/
example : (trace Sample.start Sample.leaving).length = 5 := by decide +kernel

end Network

end Nosana
