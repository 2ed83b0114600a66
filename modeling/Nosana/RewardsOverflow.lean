import Nosana.Network
import Nosana.RewardsLevel
import Nosana.RewardsSolvency

set_option autoImplicit false

/- When the arithmetic of the pool stays within `u128`. The first rate leaves room for the
total supply, but what enters the pool is weighted with the duration of the stake. -/
namespace Nosana.Rewards

open Checked

/-- Measured in weighted tokens the pool does not grow beyond the total supply, and no fee
raises its rate. -/
def Instruction.Within (s : State) : Instruction → Prop
  | .enter a => ∀ reflection ∈ s.reflection,
      reflection.totalXnos + a.stake.xnos ≤ constants.nosTotalSupply
  | .sync a => ∀ reflection ∈ s.reflection, ∀ reward ∈ s.rewards.lookup a.reward,
      reflection.totalXnos + a.stake.xnos ≤ constants.nosTotalSupply + reward.xnos
  | .claim a => ∀ reflection ∈ s.reflection, ∀ reward ∈ s.rewards.lookup a.reward,
      reflection.totalXnos + a.stake.xnos ≤
        constants.nosTotalSupply + reward.reflection / reflection.rate
  | .addFee _ amount => ∀ reflection ∈ s.reflection,
      reflection.totalXnos + amount ≤ constants.nosTotalSupply ∧
        (0 < reflection.rate →
          reflection.surplus < reflection.totalXnos + amount * (reflection.rate + 1))
  | _ => True

instance (s : State) (ix : Instruction) : Decidable (ix.Within s) := by
  unfold Instruction.Within
  split <;> infer_instance

def Event.Within (event : Event) : Prop :=
  match event.action with
  | .instruction ix => ix.Within event.before
  | _ => True

instance : (event : Event) → Decidable event.Within
  | ⟨before, .instruction ix, _⟩ => inferInstanceAs (Decidable (ix.Within before))
  | ⟨_, .external _, _⟩ => inferInstanceAs (Decidable True)

/-- The limits of the pool. -/
def ReflectionAccount.Capped (self : ReflectionAccount)
    (rewards : Finmap fun _ : Pubkey => RewardAccount) : Prop :=
  (self.pool rewards).Capped ReflectionAccount.initialRate constants.nosTotalSupply

/-- The first rate times the total supply is at most `u128::MAX`. -/
theorem initialRate_mul_supply_lt :
    ReflectionAccount.initialRate * constants.nosTotalSupply < 2 ^ 128 := by decide

/-! The instructions -/

theorem addRewardsAccount_ne_overflow {reflection : ReflectionAccount} {xnos rewardXnos : Nat}
    (some : xnos + rewardXnos < 2 ^ 128)
    (points : reflection.totalReflection + (xnos + rewardXnos) * reflection.rate < 2 ^ 128)
    (total : reflection.totalXnos + xnos < 2 ^ 128) :
    reflection.addRewardsAccount xnos rewardXnos ≠ .error (.panic .overflow) := by
  have product : (xnos + rewardXnos) * reflection.rate < 2 ^ 128 := by omega
  have success : reflection.addRewardsAccount xnos rewardXnos =
      .ok ((xnos + rewardXnos) * reflection.rate, { reflection with
        totalReflection := reflection.totalReflection + (xnos + rewardXnos) * reflection.rate
        totalXnos := reflection.totalXnos + xnos }) := by
    simp only [ReflectionAccount.addRewardsAccount, add, mul, bind_eq_ok, checked_eq_ok,
      pure_eq_ok]
    exact ⟨_, ⟨some, rfl⟩, _, ⟨product, rfl⟩, _, ⟨points, rfl⟩, _, ⟨total, rfl⟩, rfl⟩
  exact ne_error_of_ok success _

theorem addRewardsAccount_overflows {reflection : ReflectionAccount} {xnos : Nat}
    (beyond : 2 ^ 128 ≤ reflection.totalReflection + xnos * reflection.rate) :
    reflection.addRewardsAccount xnos 0 = .error (.panic .overflow) := by
  cases outcome : reflection.addRewardsAccount xnos 0 with
  | ok result =>
      simp only [ReflectionAccount.addRewardsAccount, add, mul, Nat.add_zero, bind_eq_ok,
        checked_eq_ok] at outcome
      obtain ⟨_, ⟨-, rfl⟩, _, ⟨-, rfl⟩, _, ⟨fits, -⟩, -⟩ := outcome
      omega
  | error reason =>
      simp only [ReflectionAccount.addRewardsAccount, add, mul, bind_eq_error, checked_eq_error,
        fault_eq_panic, pure_ne_error, and_false, exists_false, or_false] at outcome
      rcases outcome with ⟨-, rfl⟩ | ⟨-, -, ⟨-, rfl⟩ | ⟨-, -, ⟨-, rfl⟩ | ⟨-, -, -, rfl⟩⟩⟩ <;> rfl

/-- In a pool with room for the tokens, entering does not overflow. -/
theorem addRewardsAccount_of_room {reflection : ReflectionAccount} {xnos : Nat}
    (room : SharePool.Room ReflectionAccount.initialRate constants.nosTotalSupply reflection.rate
      reflection.totalReflection reflection.totalXnos)
    (fits : reflection.totalXnos + xnos ≤ constants.nosTotalSupply) :
    reflection.addRewardsAccount xnos 0 ≠ .error (.panic .overflow) := by
  have limit := initialRate_mul_supply_lt
  have supply : constants.nosTotalSupply < 2 ^ 128 := by decide
  have points := (room.add fits).points_le
  exact addRewardsAccount_ne_overflow (by omega) (by rw [Nat.add_zero]; omega) (by omega)

section

variable {s s' : State} {reflection : ReflectionAccount}

theorem enter_ne_overflow (present : s.reflection = some reflection)
    (capped : reflection.Capped s.rewards) {a : Accounts.Enter}
    (within : Instruction.Within s (.enter a)) : enter s a ≠ .error (.panic .overflow) := by
  apply bind_ne_error (by simp [State.loadReflection])
  intro other found
  cases present.symm.trans (loadReflection_eq_ok.mp found).2
  iterate 4
    apply bind_ne_error (by simp)
    intro _ _
  apply bind_ne_error (addRewardsAccount_of_room capped (within reflection present))
  rintro ⟨points, added⟩ _
  exact ne_error_of_ok rfl _

theorem claim_ne_overflow {history : List Event} (present : s.reflection = some reflection)
    (books : Books history reflection s) (capped : reflection.Capped s.rewards)
    {a : Accounts.Claim} (within : Instruction.Within s (.claim a)) :
    claim s a ≠ .error (.panic .overflow) := by
  have limit := initialRate_mul_supply_lt
  have bounded : reflection.totalReflection ≤ _ := SharePool.Room.points_le capped
  apply bind_ne_error (claimConstraints_ne_panic s a _)
  rintro ⟨other, reward⟩ constraints
  obtain ⟨found, owner, -, -⟩ := claimConstraints_eq_ok constraints
  cases present.symm.trans found
  have owned := books.reflection_le owner
  have room := within reflection present reward owner
  apply bind_ne_error (by simp [RewardAccount.getAmount])
  intro amount pending
  obtain ⟨-, covered, rfl⟩ := getAmount_eq_ok.mp pending
  split
  · exact ne_error_of_ok rfl _
  · have worth : reward.reflection / reflection.rate ≤ reward.reflection := Nat.div_le_self _ _
    apply bind_ne_error (by simp [add]; omega)
    intro tokens added
    simp only [add, checked_eq_ok] at added
    have whole : tokens = reward.reflection / reflection.rate := by omega
    apply bind_ne_error (by simp [ReflectionAccount.removeRewardsAccount])
    intro removed left
    obtain ⟨paid, -, rfl⟩ := removeRewardsAccount_eq_ok.mp left
    apply bind_ne_error
    · apply addRewardsAccount_of_room
      · apply SharePool.Room.take capped paid
        rw [whole]
        exact Nat.div_mul_le_self _ _
      · show reflection.totalXnos - tokens + a.stake.xnos ≤ _
        omega
    rintro ⟨points, again⟩ _
    apply bind_ne_error (by simp [narrow])
    intro payout _
    apply bind_ne_error (transferFromVault_ne_panic _ _ _ _ _)
    intro paid _
    exact ne_error_of_ok rfl _

theorem sync_ne_overflow (present : s.reflection = some reflection)
    (capped : reflection.Capped s.rewards) {a : Accounts.Sync}
    (within : Instruction.Within s (.sync a)) : sync s a ≠ .error (.panic .overflow) := by
  have limit := initialRate_mul_supply_lt
  apply bind_ne_error (by simp [State.loadReward])
  intro reward loaded
  have owner := loadReward_eq_ok.mp loaded
  apply bind_ne_error (by simp [State.loadReflection])
  intro other found
  cases present.symm.trans (loadReflection_eq_ok.mp found).2
  iterate 2
    apply bind_ne_error (by simp)
    intro _ _
  apply bind_ne_error (by simp [ReflectionAccount.removeRewardsAccount])
  intro removed left
  obtain ⟨paid, owned, rfl⟩ := removeRewardsAccount_eq_ok.mp left
  apply bind_ne_error (by simp [RewardAccount.getAmount])
  intro amount pending
  obtain ⟨positive, covered, rfl⟩ := getAmount_eq_ok.mp pending
  change reflection.rate ≠ 0 at positive
  change reward.xnos ≤ reward.reflection / reflection.rate at covered
  apply bind_ne_error
  · have fits : reflection.totalXnos - reward.xnos + a.stake.xnos ≤ constants.nosTotalSupply := by
      have room := within reflection present reward owner
      omega
    have worth : (reward.xnos + (reward.reflection / reflection.rate - reward.xnos)) *
        reflection.rate ≤ reward.reflection := by
      rw [Nat.add_sub_cancel' covered]
      exact Nat.div_mul_le_self _ _
    have points := ((SharePool.Room.exchange capped paid owned worth).add fits).points_le
    rw [Nat.add_assoc, ← Nat.add_mul, Nat.add_comm _ a.stake.xnos] at points
    have grows := Nat.le_mul_of_pos_right
      (a.stake.xnos + (reward.reflection / reflection.rate - reward.xnos))
      (Nat.pos_of_ne_zero positive)
    have supply : constants.nosTotalSupply < 2 ^ 128 := by decide
    change reflection.totalReflection - reward.reflection +
      (a.stake.xnos + (reward.reflection / reflection.rate - reward.xnos)) * reflection.rate ≤ _
      at points
    apply addRewardsAccount_ne_overflow
    · show a.stake.xnos + (reward.reflection / reflection.rate - reward.xnos) < _
      omega
    · exact lt_of_le_of_lt points limit
    · exact lt_of_le_of_lt fits supply
  · rintro ⟨points, added⟩ _
    exact ne_error_of_ok rfl _

/-- The value of the pool stays within the supply. -/
theorem totalXnos_le {ix : Instruction} {next : ReflectionAccount}
    (present : s.reflection = some reflection) (within : ix.Within s)
    (bounded : reflection.totalXnos ≤ constants.nosTotalSupply) (success : process s ix = .ok s')
    (after : s'.reflection = some next) : next.totalXnos ≤ constants.nosTotalSupply := by
  cases process_effect success with
  | opened keyed fresh => exact absurd ⟨keyed, by simp [present]⟩ fresh.1
  | entered found _ _ _ _ entered =>
      cases present.symm.trans found
      cases after
      obtain ⟨-, rfl⟩ := addRewardsAccount_eq_ok entered
      exact within reflection present
  | feeAdded found _ _ paid =>
      cases present.symm.trans found
      cases after
      obtain ⟨-, -, rfl⟩ := addFee_eq_ok.mp paid
      exact (within reflection present).1
  | claimedNothing =>
      cases present.symm.trans after
      exact bounded
  | @claimed a _ _ _ reward amount _ _ claims _ left entered =>
      cases present.symm.trans claims.found
      cases after
      have room := within reflection present reward claims.present
      have worth := getAmount_worth claims.pending
      obtain ⟨paid, -, rfl⟩ := removeRewardsAccount_eq_ok.mp left
      obtain ⟨-, rfl⟩ := addRewardsAccount_eq_ok entered
      show reflection.totalXnos - (reward.xnos + amount) + a.stake.xnos ≤ _
      omega
  | @synced a _ _ _ reward _ _ found owner _ _ left _ entered =>
      cases present.symm.trans found
      cases after
      have room := within reflection present reward owner
      obtain ⟨paid, -, rfl⟩ := removeRewardsAccount_eq_ok.mp left
      obtain ⟨-, rfl⟩ := addRewardsAccount_eq_ok entered
      show reflection.totalXnos - reward.xnos + a.stake.xnos ≤ _
      omega
  | closed found _ _ left =>
      cases present.symm.trans found
      cases after
      obtain ⟨-, -, rfl⟩ := removeRewardsAccount_eq_ok.mp left
      exact (Nat.sub_le _ _).trans bounded

/-- At the first rate, with nothing but what accounts brought in, entering overflows exactly
when the pool would grow beyond the supply. -/
theorem enter_overflows_iff (present : s.reflection = some reflection)
    (first : reflection.rate = ReflectionAccount.initialRate)
    (exact : reflection.totalReflection = reflection.rate * reflection.totalXnos)
    (bounded : reflection.totalXnos ≤ constants.nosTotalSupply) {a : Accounts.Enter}
    (constraints : a.reflection = .rewardsReflection ∧ a.stake.authority = a.authority ∧
      a.stake.timeUnstake = 0 ∧ a.reward = pda.nosanaRewards a.authority ∧ s.Vacant a.reward) :
    enter s a = .error (.panic .overflow) ↔
      constants.nosTotalSupply < reflection.totalXnos + a.stake.xnos := by
  constructor
  · intro failed
    by_contra small
    have capped : reflection.Capped s.rewards :=
      ⟨bounded, Or.inl ⟨first, by rw [← first]; exact le_of_eq exact⟩⟩
    refine enter_ne_overflow present capped (fun other found => ?_) failed
    cases present.symm.trans found
    exact Nat.le_of_not_lt small
  · intro large
    obtain ⟨seeds, owned, staked, keyed, fresh⟩ := constraints
    have beyond : 2 ^ 128 ≤ reflection.totalReflection + a.stake.xnos * reflection.rate := by
      have limit : 2 ^ 128 ≤ ReflectionAccount.initialRate * (constants.nosTotalSupply + 1) := by
        decide
      rw [exact, Nat.mul_comm a.stake.xnos, ← Nat.mul_add, first]
      exact limit.trans (Nat.mul_le_mul_left _ large)
    simp only [enter, bind_eq_error, loadReflection_eq_ok, require_eq_ok]
    exact Or.inr ⟨reflection, ⟨seeds, present⟩, Or.inr ⟨(), owned, Or.inr ⟨(), staked,
      Or.inr ⟨(), keyed, Or.inr ⟨(), fresh, Or.inl (addRewardsAccount_overflows beyond)⟩⟩⟩⟩⟩

end

/-! Whole runs -/

section

variable {s s' : State} {reflection : ReflectionAccount}

theorem addFee_ne_overflow (present : s.reflection = some reflection) {a : Accounts.AddFee}
    {amount : Nat} (within : Instruction.Within s (.addFee a amount)) :
    addFee s a amount ≠ .error (.panic .overflow) := by
  have supply : constants.nosTotalSupply < 2 ^ 128 := by decide
  apply bind_ne_error (by simp [Tokens.load])
  intro _ _
  apply bind_ne_error (by simp [State.loadReflection])
  intro other found
  cases present.symm.trans (loadReflection_eq_ok.mp found).2
  have fits := (within reflection present).1
  apply bind_ne_error (by simp [Tokens.load])
  intro _ _
  iterate 2
    apply bind_ne_error (by simp)
    intro _ _
  apply bind_ne_error
  · apply bind_ne_error (by simp; omega)
    intro _ _
    simp
  · intro raised _
    apply bind_ne_error
    · exact Tokens.transfer_ne_panic _ _ _ _ _ _
    · intro tokens _
      exact ne_error_of_ok rfl _

theorem process_ne_overflow_of_absent (absent : s.reflection = none) (ix : Instruction) :
    process s ix ≠ .error (.panic .overflow) := by
  cases ix with
  | init a => simp [process, init]
  | enter a => simp [process, enter, State.loadReflection, absent]
  | addFee a amount => simp [process, addFee, State.loadReflection, Tokens.load, absent]
  | claim a => simp [process, claim, claimConstraints, State.loadReflection, Tokens.load, absent]
  | sync a => simp [process, sync, State.loadReflection, State.loadReward, absent]
  | close a => simp [process, close, State.loadReflection, absent]

theorem process_ne_overflow {history : List Event} (present : s.reflection = some reflection)
    (books : Books history reflection s) (capped : reflection.Capped s.rewards)
    {ix : Instruction} (within : ix.Within s) : process s ix ≠ .error (.panic .overflow) := by
  cases ix with
  | init a => simp [process, init]
  | enter a => exact enter_ne_overflow present capped within
  | addFee a amount => exact addFee_ne_overflow present within
  | claim a => exact claim_ne_overflow present books capped within
  | sync a => exact sync_ne_overflow present capped within
  | close a =>
      simp [process, close, State.loadReflection, State.loadReward,
        ReflectionAccount.removeRewardsAccount]

end

/-- What a run within the supply keeps. -/
def Limited (history : List Event) (s : State) : Prop :=
  Blank history s ∨ ∃ reflection, s.reflection = some reflection ∧ Books history reflection s ∧
    (reflection.pool s.rewards).Settled ∧ reflection.Capped s.rewards

section

variable {s s' : State} {reflection : ReflectionAccount} {action : Action}

/-- The program opens with an empty pool. -/
theorem opened_empty (absent : s.reflection = none) (success : step s action = .ok s')
    (opened : s'.reflection = some reflection) :
    reflection.totalReflection = 0 ∧ reflection.totalXnos = 0 := by
  cases action with
  | external tokens =>
      simp only [step, bind_eq_ok, pure_eq_ok] at success
      obtain ⟨-, -, rfl⟩ := success
      cases absent.symm.trans opened
  | instruction ix =>
      obtain ⟨a, rfl⟩ := init_of_absent absent success
      cases init_effect success
      cases opened
      exact ⟨rfl, rfl⟩

theorem level_of_within {event : Event} (within : event.Within) : Level event := by
  unfold Level
  split
  · rename_i a amount fee
    unfold Event.Within at within
    rw [fee] at within
    exact fun old present => (within old present).2
  · trivial

theorem Limited.next {past : List Event} (limited : Limited past s)
    (success : step s action = .ok s') (within : Event.Within ⟨s, action, s'⟩) :
    Limited (past ++ [⟨s, action, s'⟩]) s' := by
  rcases limited with blank | ⟨old, present, books, settled, capped⟩
  · rcases blank.next success with still | ⟨reflection, opened, rate, nobody, books⟩
    · exact Or.inl still
    · obtain ⟨points, value⟩ := opened_empty blank.reflection success opened
      refine Or.inr ⟨reflection, opened, books, settled_of_opened nobody rate, ?_,
        Or.inl ⟨rate, ?_⟩⟩
      · show reflection.totalXnos ≤ _
        rw [value]
        exact Nat.zero_le _
      · show reflection.totalReflection ≤ _
        rw [points]
        exact Nat.zero_le _
  · obtain ⟨next, turn⟩ := step_turn present books.vaulted success
    have kept := (rateNotRaised_iff_level success).mpr (level_of_within within)
    have lowered := turn.move.lowered books.points settled (turn.rate_le present kept)
    have bounded : next.totalXnos ≤ constants.nosTotalSupply := by
      cases action with
      | external tokens =>
          have same : s'.reflection = s.reflection := by
            simp only [step, bind_eq_ok, pure_eq_ok] at success
            obtain ⟨-, -, rfl⟩ := success
            rfl
          have after : s'.reflection = some next := turn.after
          rw [same, present] at after
          cases after
          exact capped.1
      | instruction ix => exact totalXnos_le present within capped.1 success turn.after
    exact Or.inr ⟨next, turn.after, books.next turn, turn.settled present books settled kept,
      turn.move.capped settled capped bounded lowered⟩

end

/-- While the pool, measured in weighted tokens, stays within the total supply and no fee
raises its rate, no instruction that keeps it so overflows. At the first rate that is the
exact limit for entering. -/
theorem no_overflow_within_supply {s : State} (genesis : Genesis s) (actions : List Action)
    (within : ∀ event ∈ trace s actions, Event.Within event) :
    ∀ state ∈ reached s actions,
      (∀ ix : Instruction, ix.Within state → process state ix ≠ .error (.panic .overflow)) ∧
      ∀ reflection ∈ state.reflection, reflection.rate = ReflectionAccount.initialRate →
        reflection.totalReflection = reflection.rate * reflection.totalXnos →
        ∀ a : Accounts.Enter, a.reflection = .rewardsReflection ∧
            a.stake.authority = a.authority ∧ a.stake.timeUnstake = 0 ∧
            a.reward = pda.nosanaRewards a.authority ∧ state.Vacant a.reward →
          (process state (.enter a) = .error (.panic .overflow) ↔
            constants.nosTotalSupply < reflection.totalXnos + a.stake.xnos) := by
  intro state member
  obtain ⟨past, blank | ⟨reflection, present, books, settled, capped⟩⟩ :=
    Machine.guarded_reached Event.Within (show Limited [] s from Or.inl genesis.blank)
      (fun _ _ _ _ limited success now => limited.next success now) actions within state member
  · refine ⟨fun ix _ => process_ne_overflow_of_absent blank.reflection ix,
      fun reflection present => ?_⟩
    rw [blank.reflection] at present
    cases present
  · refine ⟨fun ix inside => process_ne_overflow present books capped inside, ?_⟩
    intro other found first exact a constraints
    cases present.symm.trans found
    exact enter_overflows_iff present first exact capped.1 constraints

theorem no_overflow_within_supply_sample :
    (∀ event ∈ Sample.trace Sample.rewarding, Event.Within event) ∧
      ∀ state ∈ reached Sample.start Sample.rewarding, ∀ ix : Instruction, ix.Within state →
        process state ix ≠ .error (.panic .overflow) := by
  have within : ∀ event ∈ Sample.trace Sample.rewarding, Event.Within event := by decide +kernel
  exact ⟨within, fun state member =>
    (no_overflow_within_supply Sample.genesis Sample.rewarding within state member).1⟩

/-- Half of the supply, staked for a year, can not enter an empty pool. -/
theorem heavy_entry_overflows :
    ¬ ∀ state ∈ Network.reached Network.Sample.start Network.Sample.weighty,
      state.staking.stakes.total (fun _ stake => stake.amount) ≤ constants.nosTotalSupply →
      Network.step state Network.Sample.heavyEntry ≠ .error (.panic .overflow) := by
  intro safe
  have heavy : ∃ state ∈ Network.reached Network.Sample.start Network.Sample.weighty,
      state.staking.stakes.total (fun _ stake => stake.amount) ≤ constants.nosTotalSupply ∧
        failure (Network.step state Network.Sample.heavyEntry) = some (.panic .overflow) := by
    decide +kernel
  obtain ⟨state, member, supplied, failed⟩ := heavy
  exact safe state member supplied (failure_eq_some.mp failed)

end Nosana.Rewards
