import Nosana.RewardsSolvency
import Nosana.StakingWithdraw

set_option autoImplicit false

/- How a stake is dissolved: it leaves the rewards pool, is unstaked, waits for its duration, is
withdrawn and closed. -/
namespace Nosana

open Checked

namespace Rewards

/-- In a solvent pool everybody can close their reward account. -/
theorem close_of_solvent {history : List Event} {reflection : ReflectionAccount} {s : State}
    (opened : s.reflection = some reflection) (books : Books history reflection s)
    (solvent : (reflection.pool s.rewards).Solvent) {key : Pubkey} {reward : RewardAccount}
    (present : s.rewards.lookup key = some reward) :
    ∃ left, close s ⟨.rewardsReflection, key, reward.authority⟩ =
      .ok { s with reflection := some left, rewards := s.rewards.erase key } := by
  obtain ⟨left, removed⟩ := removeRewardsAccount_of_solvent books solvent present
    (solvent.principal_le_worth present)
  refine ⟨left, ?_⟩
  simp only [close, bind_eq_ok, loadReflection_eq_ok, loadReward_eq_ok, require_eq_ok, pure_eq_ok,
    exists_const]
  exact ⟨reflection, ⟨trivial, opened⟩, reward, present, rfl, left, removed, rfl⟩

end Rewards

namespace Staking

variable {s : State} {key : Pubkey} {stake : StakeAccount}

theorem step_of_process {s' : State} {ix : Instruction} (signed : isVault ix.authority = false)
    (success : process s ix = .ok s') : step s (.instruction ix) = .ok s' := by
  simp only [step, bind_eq_ok, require_eq_ok]
  exact ⟨(), signed, success⟩

/-- A stake as it is once it is unstaked. -/
def StakeAccount.unstakedAt (self : StakeAccount) (now : Int) : StakeAccount :=
  { self with timeUnstake := now, xnos := 0 }

@[simp] theorem StakeAccount.unstakedAt_vault (self : StakeAccount) (now : Int) :
    (self.unstakedAt now).vault = self.vault := rfl

@[simp] theorem StakeAccount.unstakedAt_authority (self : StakeAccount) (now : Int) :
    (self.unstakedAt now).authority = self.authority := rfl

/-- Whoever has no reward account can unstake. -/
theorem unstake_ok (sound : Sound s) (present : s.stakes.lookup key = some stake)
    (staked : stake.timeUnstake = 0) :
    unstake s ⟨key, ⟨pda.nosanaRewards stake.authority, id.systemProgram, 0, []⟩, stake.authority⟩ =
      .ok { s with stakes := s.stakes.insert key (stake.unstakedAt s.clock) } := by
  have started : s.clock ≠ 0 := (ne_of_lt sound.clock.1).symm
  have unstaked : stake.unstake s.clock = .ok (stake.unstakedAt s.clock) := by
    unfold StakeAccount.unstake StakeAccount.updateXnos
    exact if_pos started
  simp only [unstake, bind_eq_ok, loadStake_eq_ok, require_eq_ok, pure_eq_ok, exists_const]
  exact ⟨stake, present, rfl, staked, trivial, true, rfl, rfl, _, unstaked, rfl⟩

/-- Once the duration is over, an emptied stake can be closed. -/
theorem close_ok (standing : Standing s key stake) (present : s.stakes.lookup key = some stake)
    (unstaked : stake.timeUnstake ≠ 0) (expired : stake.timeUnstake + stake.duration < s.clock)
    (sound : Sound s) (empty : s.tokens.balance stake.vault = 0) {user : Pubkey}
    (wallet : user ∈ s.tokens) (apart : user ≠ stake.vault) :
    close s ⟨user, key, stake.vault, stake.authority⟩ =
      .ok { s with stakes := s.stakes.erase key, tokens := s.tokens.erase stake.vault } := by
  obtain ⟨account, loaded, kind⟩ := Option.map_eq_some_iff.mp standing.kind
  obtain ⟨mine, held⟩ := Finmap.mem_iff.mp wallet
  rw [Tokens.balance_of_lookup loaded] at empty
  have longest : stake.duration < 2 ^ 63 := lt_of_le_of_lt standing.bounded.longest (by decide)
  have time := standing.time
  have clock := sound.clock.2
  unfold Signed at clock
  simp only [close, Tokens.load, bind_eq_ok, get_eq_ok, loadStake_eq_ok, require_eq_ok, pure_eq_ok,
    toSigned, addSigned, checked_eq_ok, exists_const]
  refine ⟨mine, held, stake, present, account, loaded, rfl, rfl, unstaked, _, ⟨?_, rfl⟩, _,
    ⟨?_, rfl⟩, expired, empty, apart, ?_, trivial⟩
  · omega
  · unfold Signed
    omega
  · rw [(Prod.mk.inj kind).1]
    exact standing.vaulted

/-- What a stake is withdrawn from when its duration is over: everything that is left, which goes
to the account that the staker names. -/
theorem withdraw_rest (sound : Sound s) (present : s.stakes.lookup key = some stake)
    (unstaked : stake.timeUnstake ≠ 0) (late : stake.duration ≤ stake.since s.clock)
    (signed : isVault stake.authority = false) {user : Pubkey}
    (wallet : (s.tokens.lookup user).map TokenAccount.mint = some id.nosToken)
    (apart : user ≠ stake.vault) :
    ∃ tokens : Tokens, Machine.exec step s
        (.instruction (.withdraw ⟨user, stake.vault, key, stake.authority⟩)) =
        { s with tokens := tokens } ∧ Sound { s with tokens := tokens } ∧
      tokens.balance stake.vault = 0 ∧
      tokens.balance user = s.tokens.balance user + s.tokens.balance stake.vault ∧
      user ∈ tokens := by
  have standing := sound.stakes key stake present
  obtain ⟨account, loaded, kind⟩ := Option.map_eq_some_iff.mp standing.kind
  obtain ⟨mine, held, mint⟩ := Option.map_eq_some_iff.mp wallet
  have released : stake.withdraw (s.tokens.balance stake.vault) s.clock =
      .ok (s.tokens.balance stake.vault) :=
    StakeAccount.withdraw_of_late (standing.timely sound) late
  cases outcome : step s (.instruction (.withdraw ⟨user, stake.vault, key, stake.authority⟩)) with
  | error reason =>
      refine ⟨s.tokens, Machine.exec_of_error outcome, sound, ?_⟩
      suffices empty : s.tokens.balance stake.vault = 0 by
        rw [empty]
        exact ⟨rfl, rfl, Finmap.mem_of_lookup_eq_some held⟩
      by_contra some
      have constraints : withdrawConstraints s ⟨user, stake.vault, key, stake.authority⟩ =
          .ok (account, stake) := by
        simp only [withdrawConstraints, Tokens.load, bind_eq_ok, get_eq_ok, loadStake_eq_ok,
          require_eq_ok, pure_eq_ok, exists_const]
        rw [Tokens.balance_of_lookup loaded] at some
        exact ⟨mine, held, account, loaded, stake, present, some, rfl, rfl, unstaked, apart, rfl⟩
      obtain ⟨after, success, -⟩ := withdraw_of_released standing sound.tokens (le_refl _) released
        constraints wallet
      have stepped : step s (.instruction (.withdraw ⟨user, stake.vault, key, stake.authority⟩)) =
          .ok after :=
        step_of_process signed success
      cases outcome.symm.trans stepped
  | ok after =>
      rw [Machine.exec_of_ok outcome]
      have sound' := sound_step sound outcome
      cases step_effect outcome with
      | settings plain => rcases plain with ⟨_, same⟩ | ⟨_, same⟩ <;> cases same
      | @withdraw _ _ _ amount tokens found _ _ again computed paid =>
          cases present.symm.trans found
          rw [← Tokens.balance_of_lookup again, released] at computed
          cases computed
          refine ⟨tokens, rfl, sound', ?_⟩
          rcases paid with ⟨empty, rfl⟩ | moved
          · rw [empty]
            exact ⟨rfl, rfl, Finmap.mem_of_lookup_eq_some held⟩
          · have left := Tokens.balance_source moved apart.symm
            have added := Tokens.balance_destination moved apart.symm
            obtain ⟨other, there, -⟩ := Tokens.exists_of_kind (Tokens.kind_transfer moved user) held
            exact ⟨by omega, added, Finmap.mem_of_lookup_eq_some there⟩

/-- The steps by which a stake is dissolved. -/
def exit (stake : StakeAccount) (key user : Pubkey) (now : Int) : List Action :=
  [.instruction (.unstake
      ⟨key, ⟨pda.nosanaRewards stake.authority, id.systemProgram, 0, []⟩, stake.authority⟩),
    .tick (now + stake.duration + 1),
    .instruction (.withdraw ⟨user, stake.vault, key, stake.authority⟩),
    .instruction (.close ⟨user, key, stake.vault, stake.authority⟩)]

/-- Whatever happened before, a stake can be dissolved, and everything in its vault is paid out. -/
theorem run_exit (sound : Sound s) (present : s.stakes.lookup key = some stake)
    (staked : stake.timeUnstake = 0) (signed : isVault stake.authority = false) {user : Pubkey}
    (wallet : (s.tokens.lookup user).map TokenAccount.mint = some id.nosToken)
    (apart : user ≠ stake.vault) (fits : Signed 64 (s.clock + stake.duration + 1)) :
    ∃ tokens : Tokens, run s (exit stake key user s.clock) =
        { s with
          stakes := (s.stakes.insert key (stake.unstakedAt s.clock)).erase key
          tokens := tokens.erase stake.vault
          clock := s.clock + stake.duration + 1 } ∧
      tokens.balance user = s.tokens.balance user + s.tokens.balance stake.vault := by
  -- unstake
  have first : step s (.instruction (.unstake
      ⟨key, ⟨pda.nosanaRewards stake.authority, id.systemProgram, 0, []⟩, stake.authority⟩)) =
      .ok { s with stakes := s.stakes.insert key (stake.unstakedAt s.clock) } :=
    step_of_process signed (unstake_ok sound present staked)
  have soundFirst := sound_step sound first
  -- wait
  have second : step { s with stakes := s.stakes.insert key (stake.unstakedAt s.clock) }
      (.tick (s.clock + stake.duration + 1)) = .ok { s with
        stakes := s.stakes.insert key (stake.unstakedAt s.clock)
        clock := s.clock + stake.duration + 1 } := by
    simp only [step, bind_eq_ok, require_eq_ok, pure_eq_ok]
    exact ⟨(), ⟨by omega, fits⟩, trivial⟩
  have soundSecond := sound_step soundFirst second
  have there : (s.stakes.insert key (stake.unstakedAt s.clock)).lookup key =
      some (stake.unstakedAt s.clock) := Finmap.lookup_insert _
  have started : s.clock ≠ 0 := (ne_of_lt sound.clock.1).symm
  have late : stake.duration ≤
      (stake.unstakedAt s.clock).since (s.clock + stake.duration + 1) := by
    show stake.duration ≤ (s.clock + stake.duration + 1 - s.clock).toNat
    omega
  -- withdraw and close
  obtain ⟨tokens, third, soundThird, empty, added, inside⟩ :=
    withdraw_rest soundSecond there started late signed wallet apart
  refine ⟨tokens, ?_, added⟩
  have fourth := @step_of_process _ _ (.close ⟨user, key, stake.vault, stake.authority⟩) signed
    (close_ok (soundThird.stakes key _ there) there started
      (show s.clock + (stake.duration : Int) < s.clock + stake.duration + 1 by omega) soundThird
      empty inside apart)
  simp only [StakeAccount.unstakedAt_vault, StakeAccount.unstakedAt_authority] at third
  unfold run exit
  rw [Machine.run_cons, Machine.exec_of_ok first, Machine.run_cons, Machine.exec_of_ok second,
    Machine.run_cons, third, Machine.run_cons, Machine.exec_of_ok fourth, Machine.run_nil]
  rfl

end Staking

end Nosana
