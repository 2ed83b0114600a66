import Nosana.RewardsBookkeeping

set_option autoImplicit false

/- The pool owes no more than it has, and so its instructions do not underflow. -/
namespace Nosana.Rewards

open Checked

/-- A fee is tame when it does not raise the rate and leaves it no lower than the tokens of the
pool. -/
def Tame (event : Event) : Prop :=
  match event.action with
  | .instruction (.addFee _ _) => ∀ old ∈ event.before.reflection,
      ∀ next ∈ event.after.reflection, next.totalXnos ≤ next.rate ∧ next.rate ≤ old.rate
  | _ => True

instance (event : Event) : Decidable (Tame event) := by
  unfold Tame
  exact Action.decidableAddFee _ _

/-- The instructions that take a reward account out of the pool. -/
def Instruction.leaves : Instruction → Bool
  | .claim _ => true
  | .sync _ => true
  | .close _ => true
  | _ => false

/-! Failures that can not happen -/

theorem transferFromVault_ne_panic (tokens : Tokens) (vault destination : Pubkey) (amount : Nat)
    (fault : Fault) :
    transferFromVault tokens vault destination amount ≠ .error (.panic fault) := by
  apply bind_ne_error
  · simp [Tokens.load]
  · intro account _
    apply bind_ne_error
    · simp
    · intro _ _
      exact Tokens.transfer_ne_panic _ _ _ _ _ _

theorem claimConstraints_ne_panic (s : State) (a : Accounts.Claim) (fault : Fault) :
    claimConstraints s a ≠ .error (.panic fault) := by
  simp [claimConstraints, Tokens.load, State.loadReflection, State.loadReward]

theorem addRewardsAccount_ne_underflow (reflection : ReflectionAccount) (xnos rewardXnos : Nat) :
    reflection.addRewardsAccount xnos rewardXnos ≠ .error (.panic .underflow) := by
  simp [ReflectionAccount.addRewardsAccount]

/-- The rest of the solvent pool's accounts: what one of them has to get, it can take. -/
theorem getAmount_of_solvent {reflection : ReflectionAccount} {s : State}
    (solvent : (reflection.pool s.rewards).Solvent) {key : Pubkey} {reward : RewardAccount}
    (present : s.rewards.lookup key = some reward) :
    reward.getAmount reflection.rate =
      .ok (reward.reflection / reflection.rate - reward.xnos) := by
  apply getAmount_eq_ok.mpr
  refine ⟨Nat.ne_of_gt solvent.positive, ?_, rfl⟩
  exact solvent.principal_le_worth present

theorem removeRewardsAccount_of_solvent {history : List Event} {reflection : ReflectionAccount}
    {s : State} (books : Books history reflection s)
    (solvent : (reflection.pool s.rewards).Solvent) {key : Pubkey} {reward : RewardAccount}
    (present : s.rewards.lookup key = some reward) {xnos : Nat}
    (bounded : xnos ≤ reward.reflection / reflection.rate) :
    ∃ next, reflection.removeRewardsAccount reward.reflection xnos = .ok next := by
  have worth := solvent.worth_le_value present
  exact ⟨_, removeRewardsAccount_eq_ok.mpr
    ⟨bounded.trans worth, books.reflection_le present, rfl⟩⟩

/-- In a solvent pool a claim never takes more out of the totals than is in them. -/
theorem claim_ne_underflow {history : List Event} {reflection : ReflectionAccount} {s : State}
    (present : s.reflection = some reflection) (books : Books history reflection s)
    (solvent : (reflection.pool s.rewards).Solvent) (a : Accounts.Claim) :
    claim s a ≠ .error (.panic .underflow) := by
  apply bind_ne_error (claimConstraints_ne_panic s a _)
  rintro ⟨other, reward⟩ constraints
  obtain ⟨found, owner, -, -⟩ := claimConstraints_eq_ok constraints
  cases present.symm.trans found
  have pending := getAmount_of_solvent solvent owner
  have covered : reward.xnos ≤ reward.reflection / reflection.rate :=
    solvent.principal_le_worth owner
  apply bind_ne_error (ne_error_of_ok pending _)
  intro amount success
  cases pending.symm.trans success
  split
  · exact ne_error_of_ok rfl _
  · apply bind_ne_error (by simp [add])
    intro tokens added
    simp only [add, checked_eq_ok] at added
    have left := removeRewardsAccount_of_solvent books solvent owner
      (show tokens ≤ reward.reflection / reflection.rate by omega)
    apply bind_ne_error (ne_error_of_ok left.choose_spec _)
    intro removed _
    apply bind_ne_error (addRewardsAccount_ne_underflow _ _ _)
    rintro ⟨points, again⟩ _
    apply bind_ne_error (by simp [narrow])
    intro payout _
    apply bind_ne_error (transferFromVault_ne_panic _ _ _ _ _)
    intro paid _
    exact ne_error_of_ok rfl _

theorem sync_ne_underflow {history : List Event} {reflection : ReflectionAccount} {s : State}
    (present : s.reflection = some reflection) (books : Books history reflection s)
    (solvent : (reflection.pool s.rewards).Solvent) (a : Accounts.Sync) :
    sync s a ≠ .error (.panic .underflow) := by
  apply bind_ne_error (by simp [State.loadReward])
  intro reward loaded
  have owner := loadReward_eq_ok.mp loaded
  apply bind_ne_error (by simp [State.loadReflection])
  intro other found
  cases present.symm.trans (loadReflection_eq_ok.mp found).2
  apply bind_ne_error (by simp)
  intro _ _
  apply bind_ne_error (by simp)
  intro _ _
  obtain ⟨next, left⟩ := removeRewardsAccount_of_solvent books solvent owner
    (show reward.xnos ≤ _ from solvent.principal_le_worth owner)
  apply bind_ne_error (ne_error_of_ok left _)
  intro removed success
  have kept := removeRewardsAccount_rate success
  apply bind_ne_error
  · rw [kept]
    exact ne_error_of_ok (getAmount_of_solvent solvent owner) _
  · intro amount _
    apply bind_ne_error (addRewardsAccount_ne_underflow _ _ _)
    rintro ⟨points, added⟩ _
    exact ne_error_of_ok rfl _

theorem close_ne_underflow {history : List Event} {reflection : ReflectionAccount} {s : State}
    (present : s.reflection = some reflection) (books : Books history reflection s)
    (solvent : (reflection.pool s.rewards).Solvent) (a : Accounts.Close) :
    close s a ≠ .error (.panic .underflow) := by
  apply bind_ne_error (by simp [State.loadReflection])
  intro other found
  cases present.symm.trans (loadReflection_eq_ok.mp found).2
  apply bind_ne_error (by simp [State.loadReward])
  intro reward loaded
  have owner := loadReward_eq_ok.mp loaded
  apply bind_ne_error (by simp)
  intro _ _
  obtain ⟨next, left⟩ := removeRewardsAccount_of_solvent books solvent owner
    (show reward.xnos ≤ _ from solvent.principal_le_worth owner)
  apply bind_ne_error (ne_error_of_ok left _)
  intro removed _
  exact ne_error_of_ok rfl _

theorem process_ne_underflow {history : List Event} {reflection : ReflectionAccount} {s : State}
    (present : s.reflection = some reflection) (books : Books history reflection s)
    (solvent : (reflection.pool s.rewards).Solvent) {ix : Instruction}
    (leaves : ix.leaves = true) : process s ix ≠ .error (.panic .underflow) := by
  cases ix with
  | init a => cases leaves
  | enter a => cases leaves
  | addFee a amount => cases leaves
  | claim a => exact claim_ne_underflow present books solvent a
  | sync a => exact sync_ne_underflow present books solvent a
  | close a => exact close_ne_underflow present books solvent a

/-! Whole runs -/

/-- A pool that nobody has entered is solvent. -/
theorem solvent_of_empty {reflection : ReflectionAccount}
    {rewards : Finmap fun _ : Pubkey => RewardAccount} (none : rewards = ∅)
    (positive : 0 < reflection.rate) : (reflection.pool rewards).Solvent := by
  subst none
  refine ⟨positive, ?_, Nat.zero_le _⟩
  intro key member present
  cases (Finmap.lookup_empty key).symm.trans present

theorem Turn.solvent {past : List Event} {event : Event} {old next : ReflectionAccount}
    (turn : Turn event old next) (present : event.before.reflection = some old)
    (books : Books past old event.before) (solvent : (old.pool event.before.rewards).Solvent)
    (tame : Tame event) : (next.pool event.after.rewards).Solvent := by
  apply turn.move.solvent books.points solvent
  have rated := turn.rated
  unfold rateAfter at rated
  unfold Tame at tame
  split at rated
  · rename_i a amount fee
    rw [fee] at tame
    obtain ⟨large, lowered⟩ := tame old present next turn.after
    exact Or.inr ⟨lowered, large⟩
  · exact Or.inl rated

/-- What a run of tame fees keeps. -/
def Funded (history : List Event) (s : State) : Prop :=
  Blank history s ∨ ∃ reflection, s.reflection = some reflection ∧ Books history reflection s ∧
    (reflection.pool s.rewards).Solvent

theorem run_funded {s : State} (genesis : Genesis s) (actions : List Action)
    (tame : ∀ event ∈ trace s actions, Tame event) : Funded (trace s actions) (run s actions) := by
  refine Machine.guarded_induction (P := Funded) Tame (Or.inl genesis.blank) ?_ actions tame
  intro past state action after funded success _ tamed
  rcases funded with blank | ⟨old, present, books, solvent⟩
  · rcases blank.next success with still | ⟨reflection, opened, rate, nobody, books⟩
    · exact Or.inl still
    · refine Or.inr ⟨reflection, opened, books, solvent_of_empty nobody ?_⟩
      rw [rate]
      exact ReflectionAccount.initialRate_pos
  · obtain ⟨next, turn⟩ := step_turn present books.vaulted success
    exact Or.inr ⟨next, turn.after, books.next turn, turn.solvent present books solvent tamed⟩

/-- What all accounts together could claim at a rate. -/
def State.claimable (s : State) (rate : Nat) : Nat :=
  s.rewards.total fun _ reward => reward.reflection / rate - reward.xnos

theorem claimable_add_xnos {reflection : ReflectionAccount} {s : State}
    (solvent : (reflection.pool s.rewards).Solvent) :
    s.claimable reflection.rate + s.xnos = (reflection.pool s.rewards).liability := by
  unfold State.claimable State.xnos
  rw [← Finmap.total_add]
  apply Finmap.total_congr
  intro key reward present
  exact Nat.sub_add_cancel (solvent.principal_le_worth present)

/-- Rewards are solvent while every fee leaves a rate that is not raised and not below the
tokens of the pool: each account's reflection is worth what it entered with, the pool has
what all reflection is worth, no instruction underflows, and what can be claimed was paid
in. -/
theorem rewards_solvent {s : State} (genesis : Genesis s) (actions : List Action)
    (tame : ∀ event ∈ trace s actions, Tame event) {reflection : ReflectionAccount}
    (present : (run s actions).reflection = some reflection) :
    (∀ key reward, (run s actions).rewards.lookup key = some reward →
      reward.xnos ≤ reward.reflection / reflection.rate) ∧
    (run s actions).rewards.total (fun _ reward => reward.reflection / reflection.rate) ≤
      reflection.totalXnos ∧
    (∀ ix : Instruction, ix.leaves = true →
      process (run s actions) ix ≠ .error (.panic .underflow)) ∧
    ((run s actions).claimable reflection.rate : Int) ≤
      fees (trace s actions) - payouts (trace s actions) := by
  rcases run_funded genesis actions tame with blank | ⟨other, found, books, solvent⟩
  · rw [blank.reflection] at present
    cases present
  · cases found.symm.trans present
    refine ⟨fun key reward inside => solvent.principal_le_worth inside, solvent.backed,
      fun ix leaves => process_ne_underflow present books solvent leaves, ?_⟩
    have owed := claimable_add_xnos solvent
    have backed : (reflection.pool (run s actions).rewards).liability ≤ reflection.totalXnos :=
      solvent.backed
    have value := books.value
    change _ = (run s actions).xnos + _ at value
    omega

theorem rewards_solvent_sample :
    (∀ event ∈ Sample.trace Sample.rewarding, Tame event) ∧
      ∃ reflection, (Sample.run Sample.rewarding).reflection = some reflection ∧
        ((Sample.run Sample.rewarding).claimable reflection.rate : Int) ≤
          fees (Sample.trace Sample.rewarding) - payouts (Sample.trace Sample.rewarding) := by
  have tame : ∀ event ∈ Sample.trace Sample.rewarding, Tame event := by decide +kernel
  cases present : (Sample.run Sample.rewarding).reflection with
  | none => exact absurd present (by decide +kernel)
  | some reflection =>
      have solvent := rewards_solvent Sample.genesis Sample.rewarding tame present
      exact ⟨tame, reflection, rfl, solvent.2.2.2⟩

end Nosana.Rewards
