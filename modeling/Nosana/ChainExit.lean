import Nosana.ChainSimulation
import Nosana.NetworkActive
import Nosana.StakingExit

set_option autoImplicit false

/- Nobody is kept in: whatever others have done, a staker can take everything out again. -/
namespace Nosana

open Checked

/-- A stake after a step was there before, or its authority has signed. -/
theorem Staking.authority_step {s s' : State} {ix : Instruction}
    (success : step s (.instruction ix) = .ok s') {key : Pubkey} {stake : StakeAccount}
    (after : s'.stakes.lookup key = some stake) :
    stake.authority = ix.authority ∨
      ∃ other old, s.stakes.lookup other = some old ∧ old.authority = stake.authority := by
  have updated : ∀ {other : Pubkey} {old next : StakeAccount},
      s.stakes.lookup other = some old →
      (s.stakes.insert other next).lookup key = some stake → old.authority = next.authority →
      ∃ other old, s.stakes.lookup other = some old ∧ old.authority = stake.authority := by
    intro other old next present inside same
    rcases Finmap.lookup_insert_eq_some inside with ⟨rfl, rfl⟩ | ⟨-, earlier⟩
    · exact ⟨_, old, present, same⟩
    · exact ⟨key, stake, earlier, rfl⟩
  cases step_effect success with
  | settings | withdraw => exact Or.inr ⟨key, stake, after, rfl⟩
  | stake =>
      rcases Finmap.lookup_insert_eq_some after with ⟨rfl, rfl⟩ | ⟨-, earlier⟩
      · exact Or.inl rfl
      · exact Or.inr ⟨key, stake, earlier, rfl⟩
  | unstake present | restake present | topup present | extend present | slash present =>
      exact Or.inr (updated present after rfl)
  | close => exact Or.inr ⟨key, stake, (Finmap.lookup_erase_eq_some after).2, rfl⟩

namespace Chain

def State.withStaking (s : State) (staking : Staking.State) : State :=
  { s with network := { s.network with staking := staking } }

/-- The action of the chain that an action of the staking program is. -/
def Action.ofStaking : Staking.Action → Action
  | .instruction ix => .instruction (.staking ix)
  | .tick now => .tick now
  | .external tokens => .external tokens

section

variable [Jobs.Runtime] {s : State}

/-- An instruction of the staking program does there what the program does. -/
theorem exec_staking {ix : Staking.Instruction} (faithful : (Instruction.staking ix).Faithful s)
    (user : isVault ix.authority = false) :
    Machine.exec step s (.instruction (.staking ix)) =
      s.withStaking (Machine.exec Staking.step s.network.staking (.instruction ix)) := by
  have users : (Instruction.staking ix).SignedByUsers := fun signer signs => by
    rw [List.mem_singleton.mp signs]
    exact user
  have own := (not_isVault users (List.mem_singleton_self _)).2.1
  cases outcome : Staking.process s.network.staking ix with
  | ok staking =>
      have whole : step s (.instruction (.staking ix)) = .ok (s.withStaking staking) := by
        simp only [step, process, bind_eq_ok, require_eq_ok, pure_eq_ok]
        exact ⟨(), ⟨faithful, users⟩, staking, outcome, rfl⟩
      rw [Machine.exec_of_ok whole, Machine.exec_of_ok (Staking.step_of_process own outcome)]
  | error reason =>
      have whole : step s (.instruction (.staking ix)) = .error reason := by
        simp only [step, process, bind_eq_error, require_eq_ok]
        exact Or.inr ⟨(), ⟨faithful, users⟩, Or.inl outcome⟩
      have part : Staking.step s.network.staking (.instruction ix) = .error reason := by
        simp only [Staking.step, bind_eq_error, require_eq_ok]
        exact Or.inr ⟨(), own, outcome⟩
      rw [Machine.exec_of_error whole, Machine.exec_of_error part]
      rfl

theorem exec_tick (now : Int) : Machine.exec step s (.tick now) =
    s.withStaking (Machine.exec Staking.step s.network.staking (.tick now)) := by
  by_cases later : s.clock ≤ now ∧ Signed 64 now
  · have whole : step s (.tick now) = .ok (s.withClock now) := by
      simp only [step, bind_eq_ok, require_eq_ok, pure_eq_ok]
      exact ⟨(), later, trivial⟩
    have part : Staking.step s.network.staking (.tick now) =
        .ok { s.network.staking with clock := now } := by
      simp only [Staking.step, bind_eq_ok, require_eq_ok, pure_eq_ok]
      exact ⟨(), later, trivial⟩
    rw [Machine.exec_of_ok whole, Machine.exec_of_ok part]
    rfl
  · have whole : step s (.tick now) = .error .notAdmissible := by
      simp only [step, bind_eq_error, require_eq_error]
      exact Or.inl ⟨later, trivial⟩
    have part : Staking.step s.network.staking (.tick now) = .error .notAdmissible := by
      simp only [Staking.step, bind_eq_error, require_eq_error]
      exact Or.inl ⟨later, trivial⟩
    rw [Machine.exec_of_error whole, Machine.exec_of_error part]
    rfl

omit [Jobs.Runtime] in
/-- Whoever is no vault is no vault of any program. -/
theorem isVault_eq_false {key : Pubkey} (user : isVault key = false) : Jobs.isVault key = false ∧
    Staking.isVault key = false ∧ Rewards.isVault key = false ∧ Pools.isVault key = false := by
  simpa [isVault, and_assoc] using user

/-- What somebody does in the staking program alone, when they have no reward account. -/
theorem run_staking (actions : List Staking.Action)
    (alone : ∀ action ∈ actions, (∃ now, action = .tick now) ∨
      ∃ ix, action = .instruction ix ∧ isVault ix.authority = false ∧
        ∀ a, ix = .unstake a → a.reward.key ∉ s.network.rewards) :
    run s (actions.map Action.ofStaking) =
      s.withStaking (Staking.run s.network.staking actions) := by
  induction actions generalizing s with
  | nil => rfl
  | cons action rest ih =>
      have next : Machine.exec step s (Action.ofStaking action) =
          s.withStaking (Machine.exec Staking.step s.network.staking action) := by
        rcases alone action List.mem_cons_self with ⟨now, rfl⟩ | ⟨ix, rfl, user, closed⟩
        · exact exec_tick now
        · apply exec_staking _ user
          cases ix with
          | unstake a => exact fun open' => absurd open' (closed a rfl)
          | _ => trivial
      rw [List.map_cons, run, Machine.run_cons, next]
      exact ih fun later member => alone later (List.mem_cons_of_mem _ member)

/-- The step by which somebody leaves the rewards pool. -/
def leave (authority : Pubkey) : Action :=
  .instruction (.rewards (pda.nosanaStaking authority)
    (.close ⟨.rewardsReflection, pda.nosanaRewards authority, authority⟩))

/-- Whoever has a reward account can close it, which touches nothing else. -/
theorem exec_leave {history : List Rewards.Event} (funded : Rewards.Funded history s.network.pool)
    (guarded : Network.Guarded s.network) {authority : Pubkey} (user : isVault authority = false) :
    (Machine.exec step s (leave authority)).network.staking = s.network.staking ∧
      (Machine.exec step s (leave authority)).network.rewards.lookup
        (pda.nosanaRewards authority) = none := by
  cases outcome : step s (leave authority) with
  | ok after =>
      rw [Machine.exec_of_ok outcome]
      cases step_effect outcome with
      | rewards processed =>
          cases Rewards.process_effect processed with
          | closed => exact ⟨rfl, Finmap.lookup_erase _ _⟩
  | error reason =>
      rw [Machine.exec_of_error outcome]
      refine ⟨rfl, ?_⟩
      cases present : s.network.rewards.lookup (pda.nosanaRewards authority) with
      | none => rfl
      | some reward =>
          have same : authority = reward.authority := by
            simpa [pda.nosanaRewards] using (guarded _ _ present).1
          rcases funded with blank | ⟨reflection, opened, books, solvent⟩
          · have nobody : s.network.rewards = ∅ := blank.rewards
            simp [nobody] at present
          · obtain ⟨left, closed⟩ := Rewards.close_of_solvent opened books solvent present
            rw [← same] at closed
            have stepped : ∃ after, step s (leave authority) = .ok after := by
              simp only [leave, step, process, bind_eq_ok, require_eq_ok, pure_eq_ok]
              refine ⟨_, (), ⟨?_, ?_⟩, _, closed, rfl⟩
              · intro stake read
                cases read
              · intro signer signs
                rw [List.mem_singleton.mp signs]
                exact user
            obtain ⟨after, success⟩ := stepped
            cases outcome.symm.trans success

/-- Every stake belongs to somebody who can sign. -/
def UserStakes (s : State) : Prop :=
  ∀ key stake, s.network.staking.stakes.lookup key = some stake → isVault stake.authority = false

theorem userStakes_step {s' : State} {action : Action} (stakes : UserStakes s)
    (success : step s action = .ok s') : UserStakes s' := by
  cases step_effect success with
  | @staking ix staking processed =>
      have ⟨_, users⟩ := step_allowed success
      have signs : ix.authority ∈ (Instruction.staking ix).signers := List.mem_singleton_self _
      intro key stake after
      rcases Staking.authority_step
        (Staking.step_of_process (not_isVault users signs).2.1 processed) after with
        signed | ⟨other, old, present, same⟩
      · rw [signed]
        exact users _ signs
      · rw [← same]
        exact stakes other old present
  | _ => exact stakes

/-- The steps by which a stake is dissolved that may still be in the rewards pool. -/
def exit (stake : Staking.StakeAccount) (user : Pubkey) (now : Int) : List Action :=
  leave stake.authority ::
    (Staking.exit stake (pda.nosanaStaking stake.authority) user now).map Action.ofStaking

theorem run_exit {history : List Rewards.Event} (funded : Rewards.Funded history s.network.pool)
    (coherent : Network.Coherent s.network) (guarded : Network.Guarded s.network) {key : Pubkey}
    {stake : Staking.StakeAccount} (present : s.network.staking.stakes.lookup key = some stake)
    (staked : stake.timeUnstake = 0) (free : isVault stake.authority = false) {user : Pubkey}
    (wallet : (s.tokens.lookup user).map TokenAccount.mint = some id.nosToken)
    (apart : user ≠ stake.vault) (fits : Signed 64 (s.clock + stake.duration + 1)) :
    (run s (exit stake user s.clock)).network.rewards.lookup
        (pda.nosanaRewards stake.authority) = none ∧
      ∃ tokens : Tokens, (run s (exit stake user s.clock)).network.staking =
          { s.network.staking with
            stakes := (s.network.staking.stakes.insert key (stake.unstakedAt s.clock)).erase key
            tokens := tokens.erase stake.vault
            clock := s.clock + stake.duration + 1 } ∧
        tokens.balance user = s.tokens.balance user + s.tokens.balance stake.vault := by
  have own := (isVault_eq_false free).2.1
  have keyed : key = pda.nosanaStaking stake.authority :=
    (coherent.sound.stakes key stake present).keyed
  have ⟨left, closed⟩ := exec_leave funded guarded free
  obtain ⟨tokens, dissolved, paid⟩ :=
    Staking.run_exit coherent.sound present staked own wallet apart fits
  have reached : run s (exit stake user s.clock) =
      (Machine.exec step s (leave stake.authority)).withStaking
        (Staking.run s.network.staking (Staking.exit stake key user s.clock)) := by
    unfold exit
    rw [run, Machine.run_cons, ← keyed, ← left]
    apply run_staking
    intro action member
    simp only [Staking.exit, List.mem_cons, List.not_mem_nil, or_false] at member
    rcases member with rfl | rfl | rfl | rfl
    · refine Or.inr ⟨_, rfl, free, ?_⟩
      rintro _ ⟨⟩
      exact Finmap.lookup_eq_none.mp closed
    · exact Or.inl ⟨_, rfl⟩
    · exact Or.inr ⟨_, rfl, free, fun _ other => by cases other⟩
    · exact Or.inr ⟨_, rfl, free, fun _ other => by cases other⟩
  rw [reached]
  exact ⟨closed, tokens, dissolved, paid⟩

/-- After every run whose fees are tame, every staker can take out the whole vault of the stake,
alone and with nothing but the duration to wait for. -/
theorem staker_can_leave (genesis : Genesis s) (past : List Action)
    (tame : ∀ event ∈ trace s past,
      ∀ own ∈ event.project (fun state => state.network.pool) rewardsSeen, Rewards.Tame own)
    {key : Pubkey} {stake : Staking.StakeAccount}
    (present : (run s past).network.staking.stakes.lookup key = some stake)
    (staked : stake.timeUnstake = 0) {user : Pubkey}
    (wallet : ((run s past).tokens.lookup user).map TokenAccount.mint = some id.nosToken)
    (apart : user ≠ stake.vault) (fits : Signed 64 ((run s past).clock + stake.duration + 1)) :
    let last := run (run s past) (exit stake user (run s past).clock)
    (∀ ix, .instruction ix ∈ exit stake user (run s past).clock →
        ix.signers = [stake.authority]) ∧
      last.network.rewards.lookup (pda.nosanaRewards stake.authority) = none ∧
      last.network.staking.stakes.lookup key = none ∧ last.tokens.lookup stake.vault = none ∧
      last.tokens.balance user =
        (run s past).tokens.balance user + (run s past).tokens.balance stake.vault := by
  have network : Network.run s.network ((trace s past).filterMap networkSeen) =
      (run s past).network := (network_part.simulates genesis.coherent past).2
  have pool : Rewards.run s.network.pool ((trace s past).filterMap rewardsSeen) =
      (run s past).network.pool := (rewards_part.simulates genesis.steady past).2
  have funded := Rewards.run_funded genesis.network.rewards ((trace s past).filterMap rewardsSeen)
    (rewards_part.forall_trace genesis.steady tame)
  have kept : Network.Coherent (run s past).network ∧ Network.Guarded (run s past).network := by
    rw [← network]
    refine Machine.run_invariant (P := fun state => Network.Coherent state ∧ Network.Guarded state)
      ⟨genesis.network.coherent, fun other reward inside => ?_⟩
      (fun _ _ _ before success => ⟨Network.coherent_step before.1 success,
        Network.guarded_step before.1 before.2 success⟩) _
    have nobody : s.network.rewards = ∅ := genesis.network.rewards.rewards
    simp [nobody] at inside
  have users : UserStakes (run s past) := by
    refine Machine.run_invariant (fun other stake inside => ?_)
      (fun _ _ _ stakes success => userStakes_step stakes success) past
    have nobody : s.network.staking.stakes = ∅ := genesis.network.staking.stakes
    simp [nobody] at inside
  rw [pool] at funded
  generalize run s past = state at *
  have ⟨left, tokens, dissolved, paid⟩ := run_exit funded kept.1 kept.2 present staked
    (users key stake present) wallet apart fits
  refine ⟨fun ix member => ?_, left, ?_, ?_, ?_⟩
  · simp only [exit, leave, Staking.exit, List.map_cons, List.map_nil, Action.ofStaking,
      List.mem_cons, List.not_mem_nil, or_false, Action.instruction.injEq, reduceCtorEq,
      false_or] at member
    rcases member with rfl | rfl | rfl | rfl <;> rfl
  · rw [dissolved]
    exact Finmap.lookup_erase _ _
  · rw [State.tokens, dissolved]
    exact Finmap.lookup_erase _ _
  · rw [State.tokens, dissolved]
    show Tokens.balance (tokens.erase stake.vault) user = _
    rw [Tokens.balance_erase_of_ne apart]
    exact paid

end

/-- The staker is in the rewards pool, and takes out the 600 tokens of the stake. -/
theorem staker_can_leave_sample :
    (@run Jobs.Sample.runtime (Sample.run (Sample.actions.take 3))
        (exit Sample.stakeAccount Network.Sample.wallet 100)).tokens.balance Network.Sample.wallet =
      (Sample.run (Sample.actions.take 3)).tokens.balance Network.Sample.wallet +
        (Sample.run (Sample.actions.take 3)).tokens.balance Network.Sample.vault ∧
    (Sample.run (Sample.actions.take 3)).tokens.balance Network.Sample.vault = 600 := by
  have ⟨_, _, _, _, paid⟩ := @staker_can_leave Jobs.Sample.runtime _ Sample.genesis
    (Sample.actions.take 3) (by decide +kernel) Network.Sample.account Sample.stakeAccount
    (by decide +kernel) rfl Network.Sample.wallet (by decide +kernel) (by decide)
    (by decide +kernel)
  exact ⟨paid, by decide +kernel⟩

end Chain

end Nosana
