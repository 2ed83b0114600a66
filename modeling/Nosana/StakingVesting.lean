import Nosana.StakingState
import Nosana.Vesting

set_option autoImplicit false

/- When the arithmetic of a withdrawal goes through, and what it pays. -/
namespace Nosana.Staking.StakeAccount

open Checked

/-- The precision of the elapsed share of the duration. -/
def precision (self : StakeAccount) (elapsed : Nat) : Nat := u64Max / max self.amount elapsed - 1

/-- The part of the amount that is released after some time. -/
def vested (self : StakeAccount) (elapsed : Nat) : Nat :=
  Vesting.share (self.precision elapsed) self.duration elapsed self.amount

/-- What every stake account of the program satisfies. -/
structure Bounded (stake : StakeAccount) : Prop where
  shortest : durationMin ≤ stake.duration
  longest : stake.duration ≤ durationMax
  supplied : stake.amount ≤ constants.nosTotalSupply

/-- The duration is over, or what has left the vault is part of what is released. -/
def Covered (self : StakeAccount) (balance elapsed : Nat) : Prop :=
  self.duration ≤ elapsed ∨
    (balance ≤ self.amount ∧ self.amount - balance ≤ self.vested elapsed)

instance (self : StakeAccount) (balance elapsed : Nat) : Decidable (self.Covered balance elapsed) :=
  inferInstanceAs (Decidable (_ ∨ _))

variable {self : StakeAccount} {balance elapsed later : Nat}

theorem Bounded.duration_pos (bounded : self.Bounded) : 0 < self.duration :=
  lt_of_lt_of_le (by decide) bounded.shortest

/-- Before the end of the duration amount and elapsed time are small against `u64`. -/
theorem Bounded.quotient (bounded : self.Bounded) (early : elapsed < self.duration)
    (some : 0 < max self.amount elapsed) : 2 ≤ u64Max / max self.amount elapsed := by
  have short : max self.amount elapsed ≤ constants.nosTotalSupply := by
    have longest := bounded.longest
    have supplied := bounded.supplied
    have limit : durationMax ≤ constants.nosTotalSupply := by decide
    omega
  apply (Nat.le_div_iff_mul_le some).mpr
  calc 2 * max self.amount elapsed
      ≤ 2 * constants.nosTotalSupply := Nat.mul_le_mul_left _ short
    _ ≤ u64Max := by decide

theorem Bounded.precision_pos (bounded : self.Bounded) (early : elapsed < self.duration)
    (some : 0 < max self.amount elapsed) : 0 < self.precision elapsed := by
  have quotient := bounded.quotient early some
  unfold precision
  omega

/-- No product in the formula leaves `u64`. -/
theorem scaled_fits (self : StakeAccount) {factor : Nat}
    (below : factor ≤ max self.amount elapsed) : factor * self.precision elapsed < 2 ^ 64 := by
  have whole := Nat.div_mul_le_self u64Max (max self.amount elapsed)
  have scaled : factor * self.precision elapsed ≤ u64Max := by
    calc factor * self.precision elapsed
        ≤ max self.amount elapsed * (u64Max / max self.amount elapsed) :=
          Nat.mul_le_mul below (Nat.sub_le _ _)
      _ = u64Max / max self.amount elapsed * max self.amount elapsed := Nat.mul_comm _ _
      _ ≤ u64Max := whole
  exact lt_of_le_of_lt scaled (by decide)

theorem weighted_fits (self : StakeAccount) (early : elapsed ≤ self.duration) :
    elapsed * self.precision elapsed / self.duration * self.amount < 2 ^ 64 := by
  have share : elapsed * self.precision elapsed / self.duration ≤ self.precision elapsed := by
    apply Nat.div_le_of_le_mul
    exact Nat.mul_le_mul_right _ early
  apply lt_of_le_of_lt (Nat.mul_le_mul_right _ share)
  rw [Nat.mul_comm]
  exact self.scaled_fits (le_max_left _ _)

/-- Time only adds to what is released. -/
theorem Bounded.vested_mono (bounded : self.Bounded) (further : elapsed ≤ later)
    (early : later < self.duration) : self.vested elapsed ≤ self.vested later := by
  rcases Nat.eq_zero_or_pos elapsed with zero | some
  · rw [zero, vested, Vesting.share_zero]
    exact Nat.zero_le _
  · rcases Nat.eq_or_lt_of_le further with same | further
    · rw [same]
    · by_cases large : later ≤ self.amount
      · have kept : self.precision later = self.precision elapsed := by
          rw [precision, precision, max_eq_left large, max_eq_left (by omega)]
        rw [vested, vested, kept]
        exact Vesting.share_mono (le_of_lt further)
      · apply Vesting.share_le_share_of_fine _ further bounded.duration_pos
        · have longest := bounded.longest
          rw [precision, max_eq_right (by omega)]
          have fine : durationMax + 1 ≤ u64Max / later := by
            apply (Nat.le_div_iff_mul_le (by omega)).mpr
            calc (durationMax + 1) * later
                ≤ (durationMax + 1) * durationMax := Nat.mul_le_mul_left _ (by omega)
              _ ≤ u64Max := by decide
          omega
        · exact bounded.precision_pos (by omega) (by omega)

theorem Bounded.vested_le (bounded : self.Bounded) (early : elapsed < self.duration)
    (some : 0 < max self.amount elapsed) : self.vested elapsed ≤ self.amount :=
  Vesting.share_le_amount (bounded.precision_pos early some) bounded.duration_pos (le_of_lt early)

/-- The time since a stake was unstaked. -/
def since (self : StakeAccount) (now : Int) : Nat := (now - self.timeUnstake).toNat

variable {now : Int}

/-- A time at which a withdrawal can be asked for. -/
structure Timely (stake : StakeAccount) (now : Int) : Prop where
  unstaked : 0 ≤ stake.timeUnstake
  later : stake.timeUnstake ≤ now
  fits : Signed 64 now

theorem Timely.signed (timely : self.Timely now) :
    Signed 64 (now - self.timeUnstake) ∧
      (0 ≤ now - self.timeUnstake ∧ now - self.timeUnstake < 2 ^ 64) := by
  have ⟨unstaked, later, fits⟩ := timely
  have difference := fits.sub later unstaked
  refine ⟨difference, by omega, ?_⟩
  have upper := difference.2
  omega

/-- After the duration everything can be taken out. -/
theorem withdraw_of_late (timely : self.Timely now) (late : self.duration ≤ self.since now) :
    self.withdraw balance now = .ok balance := by
  have ⟨signed, positive⟩ := timely.signed
  simp only [withdraw, subSigned, toUnsigned, bind_eq_ok, checked_eq_ok]
  refine ⟨_, ⟨signed, rfl⟩, _, ⟨positive, rfl⟩, ?_⟩
  rw [if_pos (show self.duration ≤ (now - self.timeUnstake).toNat from late)]
  rfl

/-- Before that, a withdrawal goes through exactly when what has left the vault is part of
what is released, and pays the rest of it. -/
theorem Bounded.withdraw_eq_ok (bounded : self.Bounded) (timely : self.Timely now)
    (early : self.since now < self.duration) {paid : Nat} :
    self.withdraw balance now = .ok paid ↔
      0 < max self.amount (self.since now) ∧ balance ≤ self.amount ∧
        self.amount - balance ≤ self.vested (self.since now) ∧
        self.vested (self.since now) - (self.amount - balance) = paid := by
  have ⟨signed, positive⟩ := timely.signed
  have not : ¬ self.duration ≤ (now - self.timeUnstake).toNat := Nat.not_le_of_lt early
  simp only [withdraw, subSigned, toUnsigned, div, sub, mul, bind_eq_ok, checked_eq_ok]
  constructor
  · rintro ⟨_, ⟨-, rfl⟩, _, ⟨-, rfl⟩, success⟩
    simp only [not, if_false, bind_eq_ok, checked_eq_ok] at success
    obtain ⟨_, ⟨some, rfl⟩, _, ⟨-, rfl⟩, _, ⟨-, rfl⟩, _, ⟨-, rfl⟩, _, ⟨-, rfl⟩, _, ⟨-, rfl⟩, _,
      ⟨below, rfl⟩, covered, rfl⟩ := success
    exact ⟨Nat.pos_of_ne_zero some, below, covered, rfl⟩
  · rintro ⟨some, below, covered, rfl⟩
    have quotient := bounded.quotient early some
    have fine := bounded.precision_pos early some
    refine ⟨_, ⟨signed, rfl⟩, _, ⟨positive, rfl⟩, ?_⟩
    simp only [not, if_false, bind_eq_ok, checked_eq_ok]
    exact ⟨_, ⟨Nat.ne_of_gt some, rfl⟩, _, ⟨by unfold since at quotient; omega, rfl⟩, _,
      ⟨self.scaled_fits (le_max_right _ _), rfl⟩, _, ⟨Nat.ne_of_gt bounded.duration_pos, rfl⟩, _,
      ⟨self.weighted_fits (le_of_lt early), rfl⟩, _, ⟨Nat.ne_of_gt fine, rfl⟩, _, ⟨below, rfl⟩,
      covered, rfl⟩

/-- From some time on every withdrawal from a vault that is not empty goes through, and pays
no more than there is, exactly when the stake is covered at that time. -/
theorem Bounded.withdraws_iff (bounded : self.Bounded) (timely : self.Timely now)
    (some : 0 < balance) :
    (∀ time, now ≤ time → Signed 64 time →
      ∃ paid ≤ balance, self.withdraw balance time = .ok paid) ↔
      self.Covered balance (self.since now) := by
  have ⟨unstaked, started, fits⟩ := timely
  constructor
  · intro always
    obtain ⟨paid, -, success⟩ := always now (le_refl now) fits
    by_cases late : self.duration ≤ self.since now
    · exact Or.inl late
    · obtain ⟨-, below, covered, -⟩ :=
        (bounded.withdraw_eq_ok timely (Nat.lt_of_not_le late)).mp success
      exact Or.inr ⟨below, covered⟩
  · intro covered time later within
    have timely : self.Timely time := ⟨unstaked, started.trans later, within⟩
    have further : self.since now ≤ self.since time := by
      unfold since
      omega
    by_cases late : self.duration ≤ self.since time
    · exact ⟨balance, le_refl balance, withdraw_of_late timely late⟩
    · have early : self.since time < self.duration := Nat.lt_of_not_le late
      obtain ⟨below, released⟩ := covered.resolve_left (by omega)
      have more := bounded.vested_mono further early
      have positive : 0 < max self.amount (self.since time) := by omega
      have part := bounded.vested_le early positive
      refine ⟨self.vested (self.since time) - (self.amount - balance), by omega, ?_⟩
      exact (bounded.withdraw_eq_ok timely early).mpr ⟨positive, below, by omega, rfl⟩

/-- What is covered stays covered. -/
theorem Bounded.covered_mono (bounded : self.Bounded) (further : elapsed ≤ later)
    (covered : self.Covered balance elapsed) : self.Covered balance later := by
  rcases covered with past | ⟨below, released⟩
  · exact Or.inl (past.trans further)
  · by_cases late : self.duration ≤ later
    · exact Or.inl late
    · have more := bounded.vested_mono further (Nat.lt_of_not_le late)
      exact Or.inr ⟨below, released.trans more⟩

end Nosana.Staking.StakeAccount
