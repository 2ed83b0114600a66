import Nosana.StakingWithdraw
import Mathlib.Data.Rat.Floor
import Mathlib.Tactic.FieldSimp
import Mathlib.Tactic.Linarith

set_option autoImplicit false

/- What a staker has withdrawn depends on the time of the last withdrawal only. -/
namespace Nosana.Staking

open Checked

/-! The schedule -/

namespace StakeAccount

/-- What can be out of the vault after some time: all of the amount after the duration, and
before that the elapsed share of it, rounded down. -/
def released (self : StakeAccount) (elapsed : Nat) : Nat :=
  if self.duration ≤ elapsed then self.amount else self.vested elapsed

variable {self : StakeAccount} {elapsed later : Nat}

theorem released_of_late (late : self.duration ≤ elapsed) : self.released elapsed = self.amount :=
  if_pos late

theorem released_of_early (early : elapsed < self.duration) :
    self.released elapsed = self.vested elapsed := if_neg (Nat.not_le_of_lt early)

theorem Bounded.released_zero (bounded : self.Bounded) : self.released 0 = 0 := by
  rw [released_of_early bounded.duration_pos, vested, Vesting.share_zero]

theorem Bounded.released_le (bounded : self.Bounded) (some : 0 < self.amount) :
    self.released elapsed ≤ self.amount := by
  by_cases late : self.duration ≤ elapsed
  · rw [released_of_late late]
  · have early := Nat.lt_of_not_le late
    rw [released_of_early early]
    exact bounded.vested_le early (lt_of_lt_of_le some (le_max_left _ _))

theorem Bounded.released_mono (bounded : self.Bounded) (some : 0 < self.amount)
    (further : elapsed ≤ later) : self.released elapsed ≤ self.released later := by
  by_cases late : self.duration ≤ later
  · rw [released_of_late late]
    exact bounded.released_le some
  · have early := Nat.lt_of_not_le late
    rw [released_of_early early, released_of_early (lt_of_le_of_lt further early)]
    exact bounded.vested_mono further early

/-- Before the end the schedule stays below the straight line, by less than a step of the
precision and one token. -/
theorem Bounded.released_bounds (bounded : self.Bounded) (some : 0 < self.amount)
    (early : elapsed < self.duration) :
    (self.released elapsed : ℚ) ≤ self.amount * elapsed / self.duration ∧
      (self.amount * elapsed / self.duration - self.released elapsed : ℚ) <
        self.amount / self.precision elapsed + 1 := by
  have fine := bounded.precision_pos early (lt_of_lt_of_le some (le_max_left _ _))
  have below : self.vested elapsed * self.duration ≤ elapsed * self.amount :=
    Vesting.share_mul_le fine
  have above : elapsed * self.amount * self.precision elapsed <
      (self.vested elapsed + 1) * self.precision elapsed * self.duration +
        self.amount * self.duration := Vesting.lt_share_mul fine bounded.duration_pos
  have long : (0 : ℚ) < self.duration := by exact_mod_cast bounded.duration_pos
  have scale : (0 : ℚ) < self.precision elapsed := by exact_mod_cast fine
  rw [released_of_early early]
  constructor
  · rw [le_div_iff₀ long]
    have cast : (self.vested elapsed : ℚ) * self.duration ≤ elapsed * self.amount := by
      exact_mod_cast below
    linarith
  · have cast : (elapsed : ℚ) * self.amount * self.precision elapsed <
        (self.vested elapsed + 1) * self.precision elapsed * self.duration +
          self.amount * self.duration := by
      exact_mod_cast above
    have line : (self.amount * elapsed / self.duration : ℚ) <
        self.vested elapsed + 1 + self.amount / self.precision elapsed := by
      rw [div_lt_iff₀ long]
      apply lt_of_mul_lt_mul_right _ (le_of_lt scale)
      calc (self.amount * elapsed * self.precision elapsed : ℚ)
          = elapsed * self.amount * self.precision elapsed := by ring
        _ < (self.vested elapsed + 1) * self.precision elapsed * self.duration +
              self.amount * self.duration := cast
        _ = (self.vested elapsed + 1 + self.amount / self.precision elapsed) * self.duration *
              self.precision elapsed := by
            field_simp
    linarith

end StakeAccount

/-! Withdrawals one after the other -/

/-- A withdrawal when the clock shows the given time. -/
def withdrawAt (a : Accounts.Withdraw) (s : State) (now : Int) : Except Error State :=
  withdraw { s with clock := now } a

/-- What the withdrawals of a schedule leave: the released part is with the user, the rest in
the vault. -/
structure Drawn (a : Accounts.Withdraw) (stake : StakeAccount) (start s : State) (elapsed : Nat) :
    Prop where
  standing : Standing s a.stake stake
  supply : s.tokens.WellFormed constants.nosTotalSupply
  stakes : s.stakes = start.stakes
  kinds : ∀ key, (s.tokens.lookup key).map TokenAccount.kind =
    (start.tokens.lookup key).map TokenAccount.kind
  vault : s.tokens.balance stake.vault + stake.released elapsed = stake.amount
  user : s.tokens.balance a.user = start.tokens.balance a.user + stake.released elapsed

section

variable {start s s' : State} {a : Accounts.Withdraw} {account : TokenAccount}
    {stake : StakeAccount}
  {elapsed : Nat} {now : Int}

/-- The accounts of a withdrawal stay right as long as there is something in the vault. -/
theorem withdrawConstraints_of_kinds
    (constraints : withdrawConstraints start a = .ok (account, stake))
    (stakes : s.stakes = start.stakes)
    (kinds : ∀ key, (s.tokens.lookup key).map TokenAccount.kind =
      (start.tokens.lookup key).map TokenAccount.kind)
    (some : 0 < s.tokens.balance stake.vault) :
    ∃ account, withdrawConstraints s a = .ok (account, stake) := by
  simp only [withdrawConstraints, Tokens.load, bind_eq_ok, get_eq_ok, loadStake_eq_ok,
    require_eq_ok, pure_eq_ok, exists_const, Prod.mk.injEq] at constraints ⊢
  obtain ⟨user, found, vault, loaded, other, present, -, vaulted, owned, unstaked, apart, rfl,
    rfl⟩ := constraints
  obtain ⟨left, atUser, -⟩ := Tokens.exists_of_kind (kinds a.user) found
  obtain ⟨right, atVault, -⟩ := Tokens.exists_of_kind (kinds a.vault) loaded
  rw [vaulted, Tokens.balance_of_lookup atVault] at some
  rw [← stakes] at present
  exact ⟨right, left, atUser, right, atVault, other, present, Nat.ne_of_gt some, vaulted, owned,
    unstaked, apart, rfl, rfl⟩

/-- What a withdrawal computes and moves. -/
theorem withdrawAt_eq_ok (success : withdrawAt a s now = .ok s')
    (present : s.stakes.lookup a.stake = some stake) :
    ∃ paid tokens, stake.withdraw (s.tokens.balance stake.vault) now = .ok paid ∧
      s' = { s with clock := now, tokens := tokens } ∧ a.user ≠ stake.vault ∧
      ((paid = 0 ∧ tokens = s.tokens) ∨
        s.tokens.transfer stake.vault a.user stake.vault paid = .ok tokens) := by
  cases withdraw_effect success with
  | settings plain => rcases plain with ⟨_, other⟩ | ⟨_, other⟩ <;> cases other
  | @withdraw _ other _ paid tokens found unstaked apart loaded released moved =>
      cases present.symm.trans found
      rw [← Tokens.balance_of_lookup loaded] at released
      exact ⟨paid, tokens, released, rfl, apart, moved⟩

/-- A withdrawal at a later time goes through. -/
theorem Drawn.withdraws (drawn : Drawn a stake start s elapsed)
    (constraints : withdrawConstraints start a = .ok (account, stake))
    (mint : (start.tokens.lookup a.user).map TokenAccount.mint = some id.nosToken)
    (timely : stake.Timely now) (further : elapsed ≤ stake.since now)
    (some : 0 < s.tokens.balance stake.vault) : ∃ s', withdrawAt a s now = .ok s' := by
  have bounded := drawn.standing.bounded
  have vault := drawn.vault
  obtain ⟨found, again⟩ := withdrawConstraints_of_kinds constraints drawn.stakes drawn.kinds some
  have positive : 0 < stake.amount := by omega
  have more := bounded.released_mono positive further
  have user : (s.tokens.lookup a.user).map TokenAccount.mint = Option.some id.nosToken := by
    rw [← mint]
    have same := congrArg (Option.map Prod.fst) (drawn.kinds a.user)
    rw [Option.map_map, Option.map_map] at same
    exact same
  suffices computed : ∃ paid ≤ s.tokens.balance stake.vault,
      stake.withdraw (s.tokens.balance stake.vault) now = .ok paid by
    obtain ⟨paid, enough, computed⟩ := computed
    obtain ⟨s', success, -⟩ :=
      withdraw_of_released drawn.standing drawn.supply enough computed again user
    exact ⟨s', success⟩
  by_cases late : stake.duration ≤ stake.since now
  · exact ⟨_, le_refl _, StakeAccount.withdraw_of_late timely late⟩
  · have early := Nat.lt_of_not_le late
    have part : stake.released (stake.since now) ≤ stake.amount := bounded.released_le positive
    rw [StakeAccount.released_of_early early] at more part
    refine ⟨stake.vested (stake.since now) - (stake.amount - s.tokens.balance stake.vault),
      by omega, ?_⟩
    apply (bounded.withdraw_eq_ok timely early).mpr
    exact ⟨lt_of_lt_of_le positive (le_max_left _ _), by omega, by omega, rfl⟩

/-- Together with what was out before, a withdrawal pays what is released. -/
theorem Drawn.paid_add (drawn : Drawn a stake start s elapsed) (timely : stake.Timely now)
    {paid : Nat} (computed : stake.withdraw (s.tokens.balance stake.vault) now = .ok paid) :
    stake.released elapsed + paid = stake.released (stake.since now) := by
  have vault := drawn.vault
  by_cases late : stake.duration ≤ stake.since now
  · rw [StakeAccount.withdraw_of_late timely late] at computed
    cases computed
    rw [StakeAccount.released_of_late late]
    omega
  · have early := Nat.lt_of_not_le late
    obtain ⟨-, below, covered, rfl⟩ :=
      (drawn.standing.bounded.withdraw_eq_ok timely early).mp computed
    rw [StakeAccount.released_of_early early]
    omega

theorem Drawn.next (drawn : Drawn a stake start s elapsed)
    (present : start.stakes.lookup a.stake = some stake) (unstaked : stake.timeUnstake ≠ 0)
    (timely : stake.Timely now) (success : withdrawAt a s now = .ok s') :
    Drawn a stake start s' (stake.since now) := by
  have ⟨bounded, keyed, vaulted, kind, time, held⟩ := drawn.standing
  rw [← drawn.stakes] at present
  obtain ⟨paid, tokens, computed, rfl, apart, moved⟩ := withdrawAt_eq_ok success present
  have total := drawn.paid_add timely computed
  have vault := drawn.vault
  have user := drawn.user
  have later : 0 ≤ stake.timeUnstake ∧ stake.timeUnstake ≤ now := ⟨timely.unstaked, timely.later⟩
  rcases moved with ⟨rfl, rfl⟩ | moved
  · rw [Nat.add_zero] at total
    rw [total] at vault user
    exact ⟨⟨bounded, keyed, vaulted, kind, later, fun staked => absurd staked unstaked⟩,
      drawn.supply, drawn.stakes, drawn.kinds, vault, user⟩
  · have kinds := Tokens.kind_transfer moved
    have left := Tokens.balance_source moved apart.symm
    have received := Tokens.balance_destination moved apart.symm
    refine ⟨⟨bounded, keyed, vaulted, (kinds _).trans kind, later,
      fun staked => absurd staked unstaked⟩, drawn.supply.transfer moved, drawn.stakes,
      fun key => (kinds key).trans (drawn.kinds key), ?_, ?_⟩
    · show tokens.balance stake.vault + _ = _
      omega
    · show tokens.balance a.user = _
      omega

/-- A call that fails finds the vault empty, and then everything was released before. -/
theorem Drawn.exec (drawn : Drawn a stake start s elapsed)
    (constraints : withdrawConstraints start a = .ok (account, stake))
    (mint : (start.tokens.lookup a.user).map TokenAccount.mint = some id.nosToken)
    (positive : 0 < stake.amount) (timely : stake.Timely now)
    (further : elapsed ≤ stake.since now) :
    Drawn a stake start (Machine.exec (withdrawAt a) s now) (stake.since now) := by
  obtain ⟨present, -, -, -, unstaked, -⟩ := withdrawConstraints_eq_ok constraints
  cases outcome : withdrawAt a s now with
  | ok s' =>
      rw [Machine.exec_of_ok outcome]
      exact drawn.next present unstaked timely outcome
  | error reason =>
      rw [Machine.exec_of_error outcome]
      have empty : s.tokens.balance stake.vault = 0 := by
        apply Nat.eq_zero_of_not_pos
        intro some
        obtain ⟨s', success⟩ := drawn.withdraws constraints mint timely further some
        rw [outcome] at success
        cases success
      have ⟨standing, supply, stakes, kinds, vault, user⟩ := drawn
      have more := standing.bounded.released_mono positive further
      have most : stake.released (stake.since now) ≤ stake.amount :=
        standing.bounded.released_le positive
      exact ⟨standing, supply, stakes, kinds, by omega, by omega⟩

theorem StakeAccount.since_mono {self : StakeAccount} {first second : Int}
    (later : first ≤ second) :
    self.since first ≤ self.since second := by
  unfold since
  omega

/-- After any number of calls, what is out is what is released at the last of them. -/
theorem Drawn.run {times : List Int} {first : Int}
    (drawn : Drawn a stake start s (stake.since first))
    (constraints : withdrawConstraints start a = .ok (account, stake))
    (mint : (start.tokens.lookup a.user).map TokenAccount.mint = some id.nosToken)
    (positive : 0 < stake.amount) (ordered : times.Pairwise (· ≤ ·))
    (timely : ∀ now ∈ times, first ≤ now ∧ stake.Timely now) :
    Drawn a stake start (Machine.run (withdrawAt a) s times)
      (stake.since (times.getLastD first)) := by
  induction times generalizing s first with
  | nil => exact drawn
  | cons now rest ih =>
      have ⟨later, inTime⟩ := timely now (List.mem_cons_self ..)
      rw [Machine.run_cons, List.getLastD_cons]
      apply ih (drawn.exec constraints mint positive inTime (StakeAccount.since_mono later))
      · exact (List.pairwise_cons.mp ordered).2
      · intro time member
        exact ⟨(List.pairwise_cons.mp ordered).1 time member,
          (timely time (List.mem_cons_of_mem _ member)).2⟩

/-- The withdrawals of an unstaked stake, at any times that do not decrease, all go through
while there is something in the vault, and have paid together what the schedule releases until
the last of them. The schedule does not decrease and stays close below the straight line. -/
theorem withdrawals_follow_schedule (standing : Standing s a.stake stake)
    (supply : s.tokens.WellFormed constants.nosTotalSupply)
    (constraints : withdrawConstraints s a = .ok (account, stake))
    (mint : (s.tokens.lookup a.user).map TokenAccount.mint = some id.nosToken)
    (full : s.tokens.balance stake.vault = stake.amount) (times : List Int)
    (ordered : times.Pairwise (· ≤ ·))
    (later : ∀ now ∈ times, stake.timeUnstake ≤ now ∧ Signed 64 now) :
    (∀ earlier now rest, times = earlier ++ now :: rest →
      0 < (Machine.run (withdrawAt a) s earlier).tokens.balance stake.vault →
      ∃ s', withdrawAt a (Machine.run (withdrawAt a) s earlier) now = .ok s') ∧
    (∀ last, times.getLast? = some last →
      (Machine.run (withdrawAt a) s times).tokens.balance stake.vault +
        stake.released (stake.since last) = stake.amount ∧
      (Machine.run (withdrawAt a) s times).tokens.balance a.user =
        s.tokens.balance a.user + stake.released (stake.since last)) ∧
    (∀ elapsed longer, elapsed ≤ longer → stake.released elapsed ≤ stake.released longer) ∧
    ∀ elapsed, elapsed < stake.duration →
      (stake.released elapsed : ℚ) ≤ stake.amount * elapsed / stake.duration ∧
      (stake.amount * elapsed / stake.duration - stake.released elapsed : ℚ) <
        stake.amount / stake.precision elapsed + 1 := by
  have bounded := standing.bounded
  have positive : 0 < stake.amount := by
    obtain ⟨-, vaulted, loaded, filled, -⟩ := withdrawConstraints_eq_ok constraints
    rw [vaulted, Tokens.balance_of_lookup loaded] at full
    omega
  have timely : ∀ now ∈ times, stake.timeUnstake ≤ now ∧ stake.Timely now := fun now member =>
    ⟨(later now member).1, standing.time.1, (later now member).1, (later now member).2⟩
  have opening : stake.since stake.timeUnstake = 0 := by
    unfold StakeAccount.since
    rw [Int.sub_self]
    rfl
  have undrawn : Drawn a stake s s (stake.since stake.timeUnstake) := by
    have nothing := bounded.released_zero
    rw [← opening] at nothing
    exact ⟨standing, supply, rfl, fun _ => rfl, by omega, by omega⟩
  refine ⟨?_, ?_, fun _ _ => bounded.released_mono positive,
    fun _ => bounded.released_bounds positive⟩
  · rintro earlier now rest rfl some
    have ⟨before, after, apart⟩ := List.pairwise_append.mp ordered
    have drawn := undrawn.run constraints mint positive before
      fun time member => timely time (List.mem_append_left _ member)
    have ⟨started, inTime⟩ := timely now (List.mem_append_right _ (List.mem_cons_self ..))
    apply drawn.withdraws constraints mint inTime (StakeAccount.since_mono _) some
    rcases List.eq_nil_or_concat earlier with rfl | ⟨front, last, rfl⟩
    · exact started
    · simp only [List.concat_eq_append, List.getLastD_concat]
      exact apart last (by simp) now (List.mem_cons_self ..)
  · intro last found
    have drawn := undrawn.run constraints mint positive ordered timely
    rw [List.getLastD_eq_getLast?, found] at drawn
    exact ⟨drawn.vault, drawn.user⟩

end

namespace Sample

def withdrawal : Accounts.Withdraw := ⟨wallet staker, vault, account, staker⟩

def unstaked : State := Sample.run [stake 600 StakeAccount.durationMin, Sample.unstake]

def opened : StakeAccount := ⟨600, staker, StakeAccount.durationMin, 100, vault, 0⟩

/-- After a week, a minute later, and after the duration. -/
def times : List Int := [604900, 604960, 2000000]

theorem unstaked_sound : Sound unstaked :=
  Machine.run_invariant genesis.sound (fun _ _ _ sound success => sound_step sound success) _

end Sample

theorem withdrawals_follow_schedule_sample :
    (Machine.run (withdrawAt Sample.withdrawal) Sample.unstaked Sample.times).tokens.balance
      Sample.vault + Sample.opened.released (Sample.opened.since 2000000) = 600 := by
  have present : Sample.unstaked.stakes.lookup Sample.account = some Sample.opened := by
    decide +kernel
  have constraints : withdrawConstraints Sample.unstaked Sample.withdrawal =
      .ok (.holding id.nosToken Sample.vault 600, Sample.opened) := rfl
  have follows := withdrawals_follow_schedule (Sample.unstaked_sound.stakes _ _ present)
    Sample.unstaked_sound.tokens constraints (by decide +kernel) (by decide +kernel) Sample.times
    (by decide) (by decide)
  exact (follows.2.1 2000000 rfl).1

end Nosana.Staking
