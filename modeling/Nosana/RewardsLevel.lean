import Nosana.RewardsRate
import Mathlib.Tactic.Ring

set_option autoImplicit false

/- When the rate of the pool never rises, and every account can take out what it entered with. -/
namespace Nosana.Rewards

open Checked

/-- A fee does not raise a positive rate. -/
def RateNotRaised (event : Event) : Prop :=
  match event.action with
  | .instruction (.addFee _ _) => ∀ old ∈ event.before.reflection,
      ∀ next ∈ event.after.reflection, 0 < old.rate → next.rate ≤ old.rate
  | _ => True

instance (event : Event) : Decidable (RateNotRaised event) := by
  unfold RateNotRaised
  exact Action.decidableAddFee _ _

/-- At a positive rate every account's reflection is worth the tokens it entered with, so
that its pending reward does not underflow. -/
def Redeemable (s : State) : Prop :=
  ∀ reflection ∈ s.reflection, 0 < reflection.rate →
    ∀ key reward, s.rewards.lookup key = some reward →
      reward.xnos ≤ reward.reflection / reflection.rate ∧
        reward.getAmount reflection.rate ≠ .error (.panic .underflow)

/-- What the rounding of earlier fees has left of the reflection beyond the rate times the
tokens; less than nothing when rewards were left behind. -/
def ReflectionAccount.surplus (self : ReflectionAccount) : Int :=
  self.totalReflection - self.rate * self.totalXnos

/-- The surplus is too small to give every token of the pool, the fee included, one more
unit of the rate. -/
def Level (event : Event) : Prop :=
  match event.action with
  | .instruction (.addFee _ amount) => ∀ old ∈ event.before.reflection, 0 < old.rate →
      old.surplus < old.totalXnos + amount * (old.rate + 1)
  | _ => True

instance (event : Event) : Decidable (Level event) := by
  unfold Level
  exact Action.decidableAddFee _ _

theorem quotient_le_iff {points value amount rate : Nat} (some : 0 < value + amount) :
    points / (value + amount) ≤ rate ↔
      (points - rate * value : Int) < value + amount * (rate + 1) := by
  rw [← Nat.lt_succ_iff, Nat.div_lt_iff_lt_mul some]
  have expand : ((rate.succ * (value + amount) : Nat) : Int) =
      rate * value + (value + amount * (rate + 1)) := by
    push_cast
    ring
  omega

/-- A fee raises the rate exactly when it is not level. -/
theorem rateNotRaised_iff_level {event : Event}
    (success : step event.before event.action = .ok event.after) :
    RateNotRaised event ↔ Level event := by
  unfold RateNotRaised Level
  split
  · rename_i a amount fee
    rw [fee] at success
    obtain ⟨old, next, before, after, some, rate⟩ := addFee_rate success
    simp only [before, after, Option.mem_some, forall_eq', rate, ReflectionAccount.surplus]
    exact forall_congr' fun _ => quotient_le_iff some
  · exact Iff.rfl

/-- What a run without raised rates keeps. -/
def Level.Kept (history : List Event) (s : State) : Prop :=
  Blank history s ∨ ∃ reflection, s.reflection = some reflection ∧ Books history reflection s ∧
    (reflection.pool s.rewards).Settled

theorem Turn.rate_le {event : Event} {old next : ReflectionAccount} (turn : Turn event old next)
    (present : event.before.reflection = some old) (kept : RateNotRaised event)
    (positive : 0 < old.rate) : next.rate ≤ old.rate := by
  have rated := turn.rated
  unfold rateAfter at rated
  unfold RateNotRaised at kept
  split at rated
  · rename_i a amount fee
    rw [fee] at kept
    exact kept old present next turn.after positive
  · exact le_of_eq rated

theorem Turn.settled {past : List Event} {event : Event} {old next : ReflectionAccount}
    (turn : Turn event old next) (present : event.before.reflection = some old)
    (books : Books past old event.before) (settled : (old.pool event.before.rewards).Settled)
    (kept : RateNotRaised event) : (next.pool event.after.rewards).Settled :=
  turn.move.settled books.points settled (turn.rate_le present kept)

theorem Level.Kept.redeemable {history : List Event} {s : State} (kept : Level.Kept history s) :
    Redeemable s := by
  intro reflection present positive key reward inside
  rcases kept with blank | ⟨other, found, -, settled⟩
  · rw [blank.reflection] at present
    cases present
  · cases found.symm.trans present
    rcases settled with ⟨-, covered⟩ | ⟨zero, -⟩
    · have worth : reward.xnos ≤ reward.reflection / reflection.rate :=
        (Nat.le_div_iff_mul_le positive).mpr (covered key reward inside)
      exact ⟨worth, ne_error_of_ok (getAmount_eq_ok.mpr ⟨Nat.ne_of_gt positive, worth, rfl⟩) _⟩
    · exact absurd zero (Nat.ne_of_gt positive)

/-- A pool that was just opened. -/
theorem settled_of_opened {reflection : ReflectionAccount}
    {rewards : Finmap fun _ : Pubkey => RewardAccount} (none : rewards = ∅)
    (rate : reflection.rate = ReflectionAccount.initialRate) :
    (reflection.pool rewards).Settled := by
  subst none
  refine Or.inl ⟨?_, fun key member present => ?_⟩
  · show 0 < reflection.rate
    rw [rate]
    exact ReflectionAccount.initialRate_pos
  · cases (Finmap.lookup_empty key).symm.trans present

theorem Level.Kept.next {past : List Event} {s s' : State} {action : Action}
    (kept : Level.Kept past s) (success : step s action = .ok s')
    (notRaised : RateNotRaised ⟨s, action, s'⟩) : Level.Kept (past ++ [⟨s, action, s'⟩]) s' := by
  rcases kept with blank | ⟨old, present, books, settled⟩
  · rcases blank.next success with still | ⟨reflection, opened, rate, nobody, books⟩
    · exact Or.inl still
    · exact Or.inr ⟨reflection, opened, books, settled_of_opened nobody rate⟩
  · obtain ⟨next, turn⟩ := step_turn present books.vaulted success
    exact Or.inr ⟨next, turn.after, books.next turn,
      turn.settled present books settled notRaised⟩

/-- No fee of a run raises a positive rate, and in all its states every account can take out
what it entered with, exactly when every fee is level. -/
theorem rate_never_raised_iff_level {s : State} (genesis : Genesis s) (actions : List Action) :
    ((∀ event ∈ trace s actions, RateNotRaised event) ∧
      ∀ state ∈ reached s actions, Redeemable state) ↔
    ∀ event ∈ trace s actions, Level event := by
  have same : (∀ event ∈ trace s actions, RateNotRaised event) ↔
      ∀ event ∈ trace s actions, Level event :=
    forall₂_congr fun event member => rateNotRaised_iff_level (Machine.mem_trace_step member)
  rw [← same]
  constructor
  · exact fun holds => holds.1
  · intro kept
    refine ⟨kept, fun state member => ?_⟩
    obtain ⟨past, holds⟩ := Machine.guarded_reached RateNotRaised
      (show Level.Kept [] s from Or.inl genesis.blank)
      (fun _ _ _ _ holds success now => holds.next success now) actions kept state member
    exact holds.redeemable

theorem rate_never_raised_iff_level_sample :
    ((∀ event ∈ trace Sample.start Sample.rewarding, RateNotRaised event) ∧
      ∀ state ∈ reached Sample.start Sample.rewarding, Redeemable state) ↔
    ∀ event ∈ trace Sample.start Sample.rewarding, Level event :=
  rate_never_raised_iff_level Sample.genesis Sample.rewarding

namespace Sample

/-- A stake of the shortest duration, small enough that its weight is its amount. -/
def entry (owner : Pubkey) (tokens : Nat) : Staking.StakeAccount :=
  ⟨tokens, owner, Staking.StakeAccount.durationMin, 0, .stakingVault id.nosToken owner, tokens⟩

def enterAs (owner : Pubkey) (tokens : Nat) : Action :=
  .instruction (.enter ⟨.rewardsReflection, entry owner tokens, pda.nosanaRewards owner, owner⟩)

def syncAs (owner : Pubkey) (tokens : Nat) : Action :=
  .instruction (.sync ⟨pda.nosanaRewards owner, entry owner tokens, .rewardsReflection⟩)

def claimAs (owner : Pubkey) (tokens : Nat) : Action :=
  .instruction (.claim ⟨wallet staker, vault, .rewardsReflection, pda.nosanaRewards owner,
    entry owner tokens, owner⟩)

def closeAs (owner : Pubkey) : Action :=
  .instruction (.close ⟨.rewardsReflection, pda.nosanaRewards owner, owner⟩)

/-- The first staker leaves, and a fee of nothing spreads what rounding has left over. -/
def shrinking : List Action :=
  [init, enterAs staker 2, enterAs (.address 3) 1, addFee 7, syncAs staker 2, addFee 4,
    claimAs staker 2, closeAs staker, enterAs (.address 4) 1, addFee 0]

end Sample

/-- A fee of nothing raises the rate, and the account that entered last can not claim. -/
theorem zero_fee_raises_rate :
    (¬ ∀ event ∈ trace Sample.start Sample.shrinking, RateNotRaised event) ∧
      ¬ ∀ state ∈ reached Sample.start Sample.shrinking, Redeemable state := by
  refine ⟨by decide +kernel, fun redeemable => ?_⟩
  have short : ∃ state ∈ reached Sample.start Sample.shrinking, ∃ reflection ∈ state.reflection,
      0 < reflection.rate ∧ ∃ reward ∈ state.rewards.lookup (pda.nosanaRewards (.address 4)),
        ¬ reward.xnos ≤ reward.reflection / reflection.rate := by
    decide +kernel
  obtain ⟨state, member, reflection, present, positive, reward, inside, less⟩ := short
  exact less (redeemable state member reflection present positive _ reward inside).1

end Nosana.Rewards
