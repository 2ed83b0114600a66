import Nosana.StakingLifecycle

set_option autoImplicit false

/- What every stake account of a run satisfies, the cached `xnos` included. -/
namespace Nosana.Staking

open Checked

/-! The cached value -/

namespace StakeAccount

/-- What `xnos` stands for: the amount, weighted with up to four times the duration. -/
def weight (self : StakeAccount) : Nat :=
  if self.timeUnstake ≠ 0 then 0
  else (self.duration * xnosPrecision / xnosDiv + xnosPrecision) * self.amount / xnosPrecision

def Cached (stake : StakeAccount) : Prop := stake.xnos = stake.weight

variable {stake next : StakeAccount}

theorem cached_of_updateXnos (success : stake.updateXnos = .ok next) : next.Cached := by
  unfold updateXnos at success
  unfold Cached weight
  split at success
  · rename_i unstaked
    cases success
    rw [if_pos unstaked]
  · rename_i staked
    simp only [mul, div, add, bind_eq_ok, checked_eq_ok, pure_eq_ok] at success
    obtain ⟨_, ⟨-, rfl⟩, _, ⟨-, rfl⟩, _, ⟨-, rfl⟩, _, ⟨-, rfl⟩, _, ⟨-, rfl⟩, rfl⟩ := success
    rw [if_neg staked]

theorem cached_of_topup {amount : Nat} (success : stake.topup amount = .ok next) :
    next.Cached := by
  simp only [topup, bind_eq_ok] at success
  obtain ⟨_, -, updated⟩ := success
  exact cached_of_updateXnos updated

theorem cached_of_slash {amount : Nat} (success : stake.slash amount = .ok next) :
    next.Cached := by
  simp only [slash, bind_eq_ok] at success
  obtain ⟨_, -, updated⟩ := success
  exact cached_of_updateXnos updated

theorem cached_of_extend {duration : Nat} (success : stake.extend duration = .ok next) :
    next.Cached := by
  simp only [extend, bind_eq_ok] at success
  obtain ⟨_, -, updated⟩ := success
  exact cached_of_updateXnos updated

/-- The accounts compute, they move no tokens. -/
theorem slash_ne_token (stake : StakeAccount) (amount : Nat) (error : TokenError) :
    stake.slash amount ≠ .error (.token error) := by
  apply bind_ne_error
  · simp
  · intro rest _
    unfold updateXnos
    split
    · simp
    · simp

/-- The weight of a duration is at most four. -/
theorem Bounded.factor_le (bounded : stake.Bounded) :
    stake.duration * xnosPrecision / xnosDiv + xnosPrecision ≤ 4 * xnosPrecision := by
  have growth : stake.duration * xnosPrecision / xnosDiv ≤ 3 * xnosPrecision := by
    apply Nat.div_le_of_le_mul
    calc stake.duration * xnosPrecision
        ≤ durationMax * xnosPrecision := Nat.mul_le_mul_right _ bounded.longest
      _ = xnosDiv * (3 * xnosPrecision) := by decide
  omega

/-- Refreshing the cache of a bounded stake overflows nowhere. -/
theorem Bounded.updateXnos_ok (bounded : stake.Bounded) :
    stake.updateXnos = .ok { stake with xnos := stake.weight } := by
  unfold updateXnos weight
  split
  · rfl
  · have factor := bounded.factor_le
    have scaled : stake.duration * xnosPrecision < 2 ^ 128 := by
      calc stake.duration * xnosPrecision
          ≤ durationMax * xnosPrecision := Nat.mul_le_mul_right _ bounded.longest
        _ < 2 ^ 128 := by decide
    have weighted : (stake.duration * xnosPrecision / xnosDiv + xnosPrecision) * stake.amount <
        2 ^ 128 := by
      calc (stake.duration * xnosPrecision / xnosDiv + xnosPrecision) * stake.amount
          ≤ 4 * xnosPrecision * constants.nosTotalSupply := Nat.mul_le_mul factor bounded.supplied
        _ < 2 ^ 128 := by decide
    have sum : stake.duration * xnosPrecision / xnosDiv + xnosPrecision < 2 ^ 128 :=
      lt_of_le_of_lt factor (by decide)
    simp only [mul, div, add, bind_eq_ok, checked_eq_ok, pure_eq_ok]
    exact ⟨_, ⟨scaled, rfl⟩, _, ⟨by decide, rfl⟩, _, ⟨sum, rfl⟩, _, ⟨weighted, rfl⟩, _,
      ⟨by decide, rfl⟩, rfl⟩

end StakeAccount

/-! The steps of the program -/

section

variable {s s' : State}

/-- How a step can change the stakes of a state: not at all, by a stake whose cache is fresh,
or by taking one away. -/
inductive Written (before after : Finmap fun _ : Pubkey => StakeAccount) : Prop
  | same (same : after = before)
  | stored {key : Pubkey} {stake : StakeAccount} (cached : stake.Cached)
      (after : after = before.insert key stake)
  | erased {key : Pubkey} (after : after = before.erase key)

theorem process_written {ix : Instruction} (success : process s ix = .ok s') :
    Written s.stakes s'.stakes := by
  cases ix with
  | init a =>
      simp only [process, init, bind_eq_ok, pure_eq_ok] at success
      obtain ⟨-, -, -, -, rfl⟩ := success
      exact .same rfl
  | stake a amount duration =>
      simp only [process, stake, StakeAccount.init, bind_eq_ok, pure_eq_ok, require_eq_ok,
        exists_const] at success
      obtain ⟨-, -, -, -, -, -, -, -, -, -, kept, -, created, updated, tokens, -, rfl⟩ := success
      exact .stored (StakeAccount.cached_of_updateXnos updated) rfl
  | unstake a =>
      simp only [process, unstake, StakeAccount.unstake, bind_eq_ok, pure_eq_ok, require_eq_ok,
        exists_const] at success
      obtain ⟨stake, -, -, -, -, closed, -, -, unstaked, updated, rfl⟩ := success
      exact .stored (StakeAccount.cached_of_updateXnos updated) rfl
  | restake a =>
      simp only [process, restake, StakeAccount.restake, bind_eq_ok, pure_eq_ok, require_eq_ok,
        exists_const] at success
      obtain ⟨vault, -, stake, -, -, -, -, -, restaked, updated, rfl⟩ := success
      exact .stored (StakeAccount.cached_of_updateXnos updated) rfl
  | topup a amount =>
      simp only [process, topup, bind_eq_ok, pure_eq_ok, require_eq_ok, exists_const] at success
      obtain ⟨-, -, -, -, stake, -, -, -, -, -, -, raised, updated, tokens, -, rfl⟩ := success
      exact .stored (StakeAccount.cached_of_topup updated) rfl
  | extend a duration =>
      simp only [process, extend, bind_eq_ok, pure_eq_ok, require_eq_ok, exists_const] at success
      obtain ⟨stake, -, -, -, -, total, -, -, extended, updated, rfl⟩ := success
      exact .stored (StakeAccount.cached_of_extend updated) rfl
  | close a =>
      simp only [process, close, bind_eq_ok, pure_eq_ok, require_eq_ok, exists_const] at success
      obtain ⟨-, -, stake, -, vault, -, -, -, -, duration, -, unlocked, -, -, -, -, -, rfl⟩ :=
        success
      exact .erased rfl
  | withdraw a =>
      simp only [process, withdraw, bind_eq_ok, Prod.exists] at success
      obtain ⟨account, stake, -, amount, -, success⟩ := success
      split at success
      · simp only [bind_eq_ok, pure_eq_ok] at success
        obtain ⟨tokens, -, rfl⟩ := success
        exact .same rfl
      · cases success
        exact .same rfl
  | slash a amount =>
      simp only [process, slash, bind_eq_ok, pure_eq_ok, require_eq_ok, exists_const] at success
      obtain ⟨-, -, stake, -, -, -, settings, -, -, -, -, -, -, slashed, updated, tokens, -, rfl⟩ :=
        success
      exact .stored (StakeAccount.cached_of_slash updated) rfl
  | updateSettings a =>
      simp only [process, updateSettings, bind_eq_ok, pure_eq_ok] at success
      obtain ⟨-, -, -, -, -, -, -, -, rfl⟩ := success
      exact .same rfl

theorem step_written {action : Action} (success : step s action = .ok s') :
    Written s.stakes s'.stakes := by
  cases action with
  | instruction ix =>
      simp only [step, bind_eq_ok] at success
      obtain ⟨-, -, success⟩ := success
      exact process_written success
  | tick now | external tokens =>
      simp only [step, bind_eq_ok, pure_eq_ok] at success
      obtain ⟨-, -, rfl⟩ := success
      exact .same rfl

/-- The caches of all stakes are up to date. -/
def AllCached (s : State) : Prop :=
  ∀ key stake, s.stakes.lookup key = some stake → stake.Cached

theorem cached_step {action : Action} (cached : AllCached s) (success : step s action = .ok s') :
    AllCached s' := by
  intro key stake present
  cases step_written success with
  | same same =>
      rw [same] at present
      exact cached key stake present
  | stored fresh after =>
      rw [after] at present
      rcases Finmap.lookup_insert_eq_some present with ⟨-, rfl⟩ | ⟨-, earlier⟩
      · exact fresh
      · exact cached key stake earlier
  | erased after =>
      rw [after] at present
      exact cached key stake (Finmap.lookup_erase_eq_some present).2

/-- A sound state, with the caches up to date. -/
structure Fresh (s : State) : Prop where
  sound : Sound s
  cached : AllCached s

theorem Genesis.fresh (genesis : Genesis s) : Fresh s := by
  refine ⟨genesis.sound, fun key stake present => ?_⟩
  simp [genesis.stakes] at present

theorem fresh_step {action : Action} (fresh : Fresh s) (success : step s action = .ok s') :
    Fresh s' :=
  ⟨sound_step fresh.sound success, cached_step fresh.cached success⟩

/-- A slash of a vault that holds the amount of its stake does not lack tokens. -/
theorem slash_ne_insufficientFunds {key : Pubkey} {stake : StakeAccount}
    (present : s.stakes.lookup key = some stake)
    (undelegated : s.tokens.Undelegated stake.vault)
    (held : stake.amount ≤ s.tokens.balance stake.vault) {a : Accounts.Slash} {amount : Nat}
    (same : a.stake = key) : slash s a amount ≠ .error (.token .insufficientFunds) := by
  intro failed
  simp only [slash, Tokens.load, State.loadStake, State.loadSettings, bind_eq_error, get_eq_ok,
    get_eq_error, require_eq_error, require_eq_ok, pure_ne_error, reduceCtorEq, and_false,
    false_or, exists_const] at failed
  obtain ⟨-, -, found, again, -, -, none | ⟨settings, -, vaulted, -, -, -, enough, failed⟩⟩ :=
    failed
  · exact none.choose_spec
  · rw [same, present] at again
    cases again
    rcases failed with early | ⟨slashed, updated, failed⟩
    · exact StakeAccount.slash_ne_token _ _ _ early
    · simp only [transferFromVault, Tokens.load, bind_eq_error, get_eq_error, require_eq_error,
        reduceCtorEq, Error.token.injEq, and_false, false_or, or_false] at failed
      obtain ⟨account, -, own, -, failed⟩ := failed
      rw [← vaulted] at failed
      have short := Tokens.balance_lt_amount undelegated failed
      omega

/-- A live stake as the program keeps it. -/
structure WellKept (s : State) (key : Pubkey) (stake : StakeAccount) : Prop where
  shortest : StakeAccount.durationMin ≤ stake.duration
  longest : stake.duration ≤ StakeAccount.durationMax
  unstaked : stake.timeUnstake ≠ 0 → stake.xnos = 0
  staked : stake.timeUnstake = 0 →
    stake.xnos =
      (stake.duration * 10 ^ 15 / StakeAccount.xnosDiv + 10 ^ 15) * stake.amount / 10 ^ 15
  recomputed : stake.updateXnos = .ok stake
  held : stake.timeUnstake = 0 → stake.amount ≤ s.tokens.balance stake.vault
  slashable : stake.timeUnstake = 0 → ∀ a amount, a.stake = key →
    slash s a amount ≠ .error (.token .insufficientFunds)

theorem wellKept (sound : Sound s) (cached : AllCached s) {key : Pubkey} {stake : StakeAccount}
    (present : s.stakes.lookup key = some stake) : WellKept s key stake := by
  have standing := sound.stakes key stake present
  have fresh : stake.xnos = stake.weight := cached key stake present
  refine ⟨standing.bounded.shortest, standing.bounded.longest, fun unstaked => ?_,
    fun staked => ?_, ?_, standing.held,
    fun staked a amount same => slash_ne_insufficientFunds present
      (standing.undelegated sound.tokens) (standing.held staked) same⟩
  · rw [fresh, StakeAccount.weight, if_pos unstaked]
  · rw [fresh, StakeAccount.weight, if_neg (not_not_intro staked)]
    rfl
  · rw [standing.bounded.updateXnos_ok, ← fresh]

end

/-- In every state of every run, every live stake is well kept. -/
theorem stakes_well_kept {s : State} (genesis : Genesis s) (actions : List Action) :
    ∀ state ∈ reached s actions, ∀ key stake, state.stakes.lookup key = some stake →
      WellKept state key stake := by
  have kept : ∀ state ∈ reached s actions, Fresh state :=
    Machine.reached_invariant genesis.fresh (fun _ _ _ => fresh_step) actions
  intro state member key stake
  have fresh := kept state member
  exact wellKept fresh.sound fresh.cached

theorem stakes_well_kept_sample :
    ∃ state ∈ Sample.reached Sample.halfway, ∃ stake,
      state.stakes.lookup Sample.account = some stake ∧ WellKept state Sample.account stake := by
  have made : ∃ state ∈ Sample.reached Sample.halfway,
      (state.stakes.lookup Sample.account).isSome = true := by decide +kernel
  obtain ⟨state, member, some⟩ := made
  obtain ⟨stake, present⟩ := Option.isSome_iff_exists.mp some
  exact ⟨state, member, stake, present,
    stakes_well_kept Sample.genesis Sample.halfway state member Sample.account stake present⟩

end Nosana.Staking
