import Nosana.StakingProgram
import Nosana.StakingVesting

set_option autoImplicit false

/- What every successful step of the staking program does. -/
namespace Nosana.Staking

open Checked

/-! What the operations on a stake account do when they succeed -/

namespace StakeAccount

variable {stake next : StakeAccount}

/-- The update touches nothing else. -/
theorem updateXnos_eq_ok (success : stake.updateXnos = .ok next) :
    ∃ xnos, next = { stake with xnos := xnos } := by
  unfold updateXnos at success
  split at success
  · cases success
    exact ⟨0, rfl⟩
  · simp only [bind_eq_ok, pure_eq_ok] at success
    obtain ⟨-, -, -, -, -, -, -, -, xnos, -, rfl⟩ := success
    exact ⟨xnos, rfl⟩

theorem topup_eq_ok {amount : Nat} (success : stake.topup amount = .ok next) :
    ∃ xnos, next = { stake with amount := stake.amount + amount, xnos := xnos } := by
  simp only [topup, add, bind_eq_ok, checked_eq_ok] at success
  obtain ⟨_, ⟨-, rfl⟩, updated⟩ := success
  exact updateXnos_eq_ok updated

theorem slash_eq_ok {amount : Nat} (success : stake.slash amount = .ok next) :
    ∃ xnos, next = { stake with amount := stake.amount - amount, xnos := xnos } := by
  simp only [slash, sub, bind_eq_ok, checked_eq_ok] at success
  obtain ⟨_, ⟨-, rfl⟩, updated⟩ := success
  exact updateXnos_eq_ok updated

theorem extend_eq_ok {duration : Nat} (success : stake.extend duration = .ok next) :
    ∃ xnos, next = { stake with duration := stake.duration + duration, xnos := xnos } := by
  simp only [extend, add, bind_eq_ok, checked_eq_ok] at success
  obtain ⟨_, ⟨-, rfl⟩, updated⟩ := success
  exact updateXnos_eq_ok updated

end StakeAccount

theorem transferFromVault_eq_ok {tokens result : Tokens} {stake : StakeAccount}
    {vault destination : Pubkey} {amount : Nat}
    (success : transferFromVault tokens stake vault destination amount = .ok result) :
    tokens.transfer vault destination vault amount = .ok result := by
  simp only [transferFromVault, bind_eq_ok] at success
  obtain ⟨-, -, -, -, moved⟩ := success
  exact moved

@[simp] theorem loadStake_eq_ok {s : State} {key : Pubkey} {stake : StakeAccount} :
    s.loadStake key = .ok stake ↔ s.stakes.lookup key = some stake := get_eq_ok _ _ _

inductive Effect (s : State) : Action → State → Prop
  | settings {ix : Instruction} {settings : Option SettingsAccount}
      (plain : (∃ a, ix = .init a) ∨ ∃ a, ix = .updateSettings a) :
      Effect s (.instruction ix) { s with settings := settings }
  | stake {a : Accounts.Stake} {amount duration xnos : Nat} {tokens : Tokens}
      (vaulted : a.vault = .stakingVault id.nosToken a.authority)
      (keyed : a.stake = .stakingStake id.nosToken a.authority)
      (freshVault : s.Vacant a.vault) (fresh : s.Vacant a.stake) (user : a.user ∈ s.tokens)
      (shortest : StakeAccount.durationMin ≤ duration)
      (longest : duration ≤ StakeAccount.durationMax)
      (signed : isVault a.authority = false)
      (paid : Tokens.transfer (s.tokens.insert a.vault (.holding id.nosToken a.vault 0))
        a.user a.vault a.authority amount = .ok tokens) :
      Effect s (.instruction (.stake a amount duration))
        { s with
          stakes := s.stakes.insert a.stake ⟨amount, a.authority, duration, 0, a.vault, xnos⟩
          tokens := tokens }
  | unstake {a : Accounts.Unstake} {stake : StakeAccount} {xnos : Nat}
      (present : s.stakes.lookup a.stake = some stake) (staked : stake.timeUnstake = 0) :
      Effect s (.instruction (.unstake a))
        { s with
          stakes := s.stakes.insert a.stake
            { stake with timeUnstake := s.clock, xnos := xnos } }
  | restake {a : Accounts.Restake} {stake : StakeAccount} {account : TokenAccount} {xnos : Nat}
      (present : s.stakes.lookup a.stake = some stake) (unstaked : stake.timeUnstake ≠ 0)
      (loaded : s.tokens.lookup stake.vault = some account) :
      Effect s (.instruction (.restake a))
        { s with
          stakes := s.stakes.insert a.stake
            { stake with amount := account.amount, timeUnstake := 0, xnos := xnos } }
  | topup {a : Accounts.Topup} {amount : Nat} {stake : StakeAccount} {xnos : Nat}
      {tokens : Tokens} (present : s.stakes.lookup a.stake = some stake)
      (staked : stake.timeUnstake = 0) (apart : a.user ≠ stake.vault)
      (signed : isVault a.authority = false)
      (paid : s.tokens.transfer a.user stake.vault a.authority amount = .ok tokens) :
      Effect s (.instruction (.topup a amount))
        { s with
          stakes := s.stakes.insert a.stake
            { stake with amount := stake.amount + amount, xnos := xnos }
          tokens := tokens }
  | extend {a : Accounts.Extend} {duration : Nat} {stake : StakeAccount} {xnos : Nat}
      (present : s.stakes.lookup a.stake = some stake) (staked : stake.timeUnstake = 0)
      (longest : stake.duration + duration ≤ StakeAccount.durationMax) :
      Effect s (.instruction (.extend a duration))
        { s with
          stakes := s.stakes.insert a.stake
            { stake with duration := stake.duration + duration, xnos := xnos } }
  | close {a : Accounts.Close} {stake : StakeAccount} {account : TokenAccount}
      (present : s.stakes.lookup a.stake = some stake)
      (loaded : s.tokens.lookup stake.vault = some account) :
      Effect s (.instruction (.close a))
        { s with stakes := s.stakes.erase a.stake, tokens := s.tokens.erase stake.vault }
  | withdraw {a : Accounts.Withdraw} {stake : StakeAccount} {account : TokenAccount}
      {amount : Nat} {tokens : Tokens} (present : s.stakes.lookup a.stake = some stake)
      (unstaked : stake.timeUnstake ≠ 0) (apart : a.user ≠ stake.vault)
      (loaded : s.tokens.lookup stake.vault = some account)
      (released : stake.withdraw account.amount s.clock = .ok amount)
      (paid : (amount = 0 ∧ tokens = s.tokens) ∨
        s.tokens.transfer stake.vault a.user stake.vault amount = .ok tokens) :
      Effect s (.instruction (.withdraw a)) { s with tokens := tokens }
  | slash {a : Accounts.Slash} {amount : Nat} {stake : StakeAccount} {xnos : Nat}
      {tokens : Tokens} (present : s.stakes.lookup a.stake = some stake)
      (apart : stake.vault ≠ a.tokenAccount) (enough : amount ≤ stake.amount)
      (paid : s.tokens.transfer stake.vault a.tokenAccount stake.vault amount = .ok tokens) :
      Effect s (.instruction (.slash a amount))
        { s with
          stakes := s.stakes.insert a.stake
            { stake with amount := stake.amount - amount, xnos := xnos }
          tokens := tokens }
  | tick {now : Int} (later : s.clock ≤ now) (fits : Signed 64 now) :
      Effect s (.tick now) { s with clock := now }
  | external {tokens : Tokens}
      (external : Tokens.External isVault constants.nosTotalSupply s.tokens tokens) :
      Effect s (.external tokens) { s with tokens := tokens }

section

variable {s s' : State}

theorem stake_effect {a : Accounts.Stake} {amount duration : Nat}
    (signed : isVault a.authority = false) (success : stake s a amount duration = .ok s') :
    Effect s (.instruction (.stake a amount duration)) s' := by
  simp only [stake, Tokens.load, StakeAccount.init, narrow, bind_eq_ok, get_eq_ok, require_eq_ok,
    checked_eq_ok, pure_eq_ok, exists_const] at success
  obtain ⟨mint, account, loaded, seeds, freshVault, keyed, fresh, shortest, longest, -, _, ⟨-, rfl⟩,
    created, updated, tokens, paid, rfl⟩ := success
  obtain ⟨xnos, rfl⟩ := StakeAccount.updateXnos_eq_ok updated
  rw [mint] at seeds keyed paid
  exact .stake seeds keyed freshVault fresh (Finmap.mem_of_lookup_eq_some loaded) shortest longest
    signed paid

theorem unstake_effect {a : Accounts.Unstake} (success : unstake s a = .ok s') :
    Effect s (.instruction (.unstake a)) s' := by
  simp only [unstake, StakeAccount.unstake, bind_eq_ok, loadStake_eq_ok, require_eq_ok, pure_eq_ok,
    exists_const] at success
  obtain ⟨stake, present, -, staked, -, -, -, -, unstaked, updated, rfl⟩ := success
  obtain ⟨xnos, rfl⟩ := StakeAccount.updateXnos_eq_ok updated
  exact @Effect.unstake s a stake xnos present staked

theorem restake_effect {a : Accounts.Restake} (success : restake s a = .ok s') :
    Effect s (.instruction (.restake a)) s' := by
  simp only [restake, Tokens.load, StakeAccount.restake, bind_eq_ok, get_eq_ok, loadStake_eq_ok,
    require_eq_ok, pure_eq_ok, exists_const] at success
  obtain ⟨account, loaded, stake, present, -, vaulted, -, unstaked, restaked, updated, rfl⟩ :=
    success
  obtain ⟨xnos, rfl⟩ := StakeAccount.updateXnos_eq_ok updated
  rw [← vaulted] at loaded
  exact @Effect.restake s a stake account xnos present unstaked loaded

theorem topup_effect {a : Accounts.Topup} {amount : Nat} (signed : isVault a.authority = false)
    (success : topup s a amount = .ok s') : Effect s (.instruction (.topup a amount)) s' := by
  simp only [topup, Tokens.load, bind_eq_ok, get_eq_ok, loadStake_eq_ok, require_eq_ok, pure_eq_ok,
    exists_const] at success
  obtain ⟨-, -, -, -, stake, present, vaulted, -, staked, apart, -, raised, updated, tokens, paid,
    rfl⟩ := success
  obtain ⟨xnos, rfl⟩ := StakeAccount.topup_eq_ok updated
  rw [← vaulted] at apart paid
  exact .topup present staked apart signed paid

theorem extend_effect {a : Accounts.Extend} {duration : Nat}
    (success : extend s a duration = .ok s') :
    Effect s (.instruction (.extend a duration)) s' := by
  simp only [extend, add, bind_eq_ok, loadStake_eq_ok, require_eq_ok, checked_eq_ok, pure_eq_ok,
    exists_const] at success
  obtain ⟨stake, present, -, staked, -, _, ⟨-, rfl⟩, longest, extended, updated, rfl⟩ := success
  obtain ⟨xnos, rfl⟩ := StakeAccount.extend_eq_ok updated
  exact .extend present staked longest

theorem close_effect {a : Accounts.Close} (success : close s a = .ok s') :
    Effect s (.instruction (.close a)) s' := by
  simp only [close, Tokens.load, bind_eq_ok, get_eq_ok, loadStake_eq_ok, require_eq_ok, pure_eq_ok,
    exists_const] at success
  obtain ⟨-, -, stake, present, account, loaded, vaulted, -, -, -, -, -, -, -, -, -, -, rfl⟩ :=
    success
  rw [← vaulted] at loaded ⊢
  exact .close present loaded

theorem withdrawConstraints_eq_ok {a : Accounts.Withdraw} {account : TokenAccount}
    {stake : StakeAccount} (success : withdrawConstraints s a = .ok (account, stake)) :
    s.stakes.lookup a.stake = some stake ∧ stake.vault = a.vault ∧
      s.tokens.lookup a.vault = some account ∧ account.amount ≠ 0 ∧ stake.timeUnstake ≠ 0 ∧
      a.user ≠ a.vault ∧ a.user ∈ s.tokens := by
  simp only [withdrawConstraints, Tokens.load, bind_eq_ok, get_eq_ok, loadStake_eq_ok,
    require_eq_ok, pure_eq_ok, exists_const, Prod.mk.injEq] at success
  obtain ⟨user, found, vault, loaded, other, present, filled, vaulted, -, unstaked, apart, rfl,
    rfl⟩ := success
  exact ⟨present, vaulted, loaded, filled, unstaked, apart, Finmap.mem_of_lookup_eq_some found⟩

theorem withdraw_effect {a : Accounts.Withdraw} (success : withdraw s a = .ok s') :
    Effect s (.instruction (.withdraw a)) s' := by
  simp only [withdraw, bind_eq_ok, Prod.exists] at success
  obtain ⟨account, stake, constraints, amount, released, success⟩ := success
  obtain ⟨present, vaulted, loaded, -, unstaked, apart, -⟩ := withdrawConstraints_eq_ok constraints
  rw [← vaulted] at loaded apart
  split at success
  · simp only [bind_eq_ok, pure_eq_ok] at success
    obtain ⟨tokens, moved, rfl⟩ := success
    have paid := transferFromVault_eq_ok moved
    rw [← vaulted] at paid
    exact .withdraw present unstaked apart loaded released (Or.inr paid)
  · rename_i nothing
    cases success
    exact .withdraw present unstaked apart loaded released
      (Or.inl ⟨Nat.eq_zero_of_not_pos nothing, rfl⟩)

theorem slash_effect {a : Accounts.Slash} {amount : Nat} (success : slash s a amount = .ok s') :
    Effect s (.instruction (.slash a amount)) s' := by
  simp only [slash, Tokens.load, bind_eq_ok, get_eq_ok, loadStake_eq_ok, require_eq_ok, pure_eq_ok,
    exists_const] at success
  obtain ⟨-, -, stake, present, -, -, settings, -, vaulted, -, -, apart, enough, slashed, updated,
    tokens, moved, rfl⟩ := success
  obtain ⟨xnos, rfl⟩ := StakeAccount.slash_eq_ok updated
  have paid := transferFromVault_eq_ok moved
  rw [← vaulted] at apart paid
  exact .slash present apart enough paid

theorem step_effect {action : Action} (success : step s action = .ok s') : Effect s action s' := by
  cases action with
  | tick now =>
      simp only [step, bind_eq_ok, require_eq_ok, pure_eq_ok, exists_const] at success
      obtain ⟨⟨later, fits⟩, rfl⟩ := success
      exact .tick later fits
  | external tokens =>
      simp only [step, bind_eq_ok, require_eq_ok, pure_eq_ok, exists_const] at success
      obtain ⟨external, rfl⟩ := success
      exact .external external
  | instruction ix =>
      simp only [step, bind_eq_ok, require_eq_ok, exists_const] at success
      obtain ⟨signed, success⟩ := success
      cases ix with
      | init a =>
          simp only [process, init, bind_eq_ok, require_eq_ok, pure_eq_ok, exists_const] at success
          obtain ⟨-, -, rfl⟩ := success
          exact .settings (Or.inl ⟨a, rfl⟩)
      | stake a amount duration => exact stake_effect signed success
      | unstake a => exact unstake_effect success
      | restake a => exact restake_effect success
      | topup a amount => exact topup_effect signed success
      | extend a duration => exact extend_effect success
      | close a => exact close_effect success
      | withdraw a => exact withdraw_effect success
      | slash a amount => exact slash_effect success
      | updateSettings a =>
          simp only [process, updateSettings, bind_eq_ok, require_eq_ok, pure_eq_ok,
            exists_const] at success
          obtain ⟨-, -, -, -, -, -, rfl⟩ := success
          exact .settings (Or.inr ⟨a, rfl⟩)

end

end Nosana.Staking
