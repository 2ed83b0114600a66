import Nosana.RewardsEffects
import Nosana.SharePool

set_option autoImplicit false

/- Every instruction of the rewards program is a move of a pool of shares: reflection are
the points, and the tokens an account entered with are the principal. -/
namespace Nosana.Rewards

open Checked

instance : Share RewardAccount := ⟨RewardAccount.reflection, RewardAccount.xnos⟩

/-- The pool that a reflection account and the reward accounts make up. -/
def ReflectionAccount.pool (self : ReflectionAccount)
    (rewards : Finmap fun _ : Pubkey => RewardAccount) : SharePool Pubkey RewardAccount :=
  ⟨self.rate, self.totalReflection, self.totalXnos, rewards⟩

/-! What an event pays into the pool and out of it -/

/-- The vault of the pool. -/
def vault : Pubkey := .rewardsVault id.nosToken

def feesAdded (event : Event) : Nat :=
  match event.action with
  | .instruction (.addFee _ amount) => amount
  | _ => 0

/-- What a claim took out of the vault. -/
def paidOut (event : Event) : Nat :=
  match event.action with
  | .instruction (.claim _) =>
    event.before.tokens.balance vault - event.after.tokens.balance vault
  | _ => 0

/-- What others put into the vault. -/
def donated (event : Event) : Nat :=
  match event.action with
  | .external _ => event.after.tokens.balance vault - event.before.tokens.balance vault
  | _ => 0

/-- The rate after an action: only a fee changes it. -/
def rateAfter (old : ReflectionAccount) : Action → Nat
  | .instruction (.addFee _ amount) => old.totalReflection / (old.totalXnos + amount)
  | _ => old.rate

/-- A step of the initialized program moves the pool, and its vault holds the difference of
what was paid in and out. -/
structure Turn (event : Event) (old next : ReflectionAccount) : Prop where
  after : event.after.reflection = some next
  vaulted : next.vault = old.vault
  rated : next.rate = rateAfter old event.action
  move : (old.pool event.before.rewards).Move (feesAdded event) (paidOut event)
    (next.pool event.after.rewards)
  balance : event.after.tokens.balance vault + paidOut event =
    event.before.tokens.balance vault + feesAdded event + donated event

/-! The moves behind the operations -/

theorem join_move {old next : ReflectionAccount} {rewards : Finmap fun _ : Pubkey => RewardAccount}
    {key : Pubkey} {points xnos : Nat} (authority : Pubkey) (fresh : key ∉ rewards)
    (entered : old.addRewardsAccount xnos 0 = .ok (points, next)) :
    next.vault = old.vault ∧ next.rate = old.rate ∧ (old.pool rewards).Move 0 0
      (next.pool (rewards.insert key (RewardAccount.zeroed.init authority points xnos))) := by
  obtain ⟨bought, rfl⟩ := addRewardsAccount_eq_ok entered
  exact ⟨rfl, rfl, @SharePool.Move.join _ _ _ _ (old.pool rewards) key
    (RewardAccount.zeroed.init authority points xnos) fresh bought⟩

/-- An account that leaves with a payout enters again with the rest of its reward. -/
theorem reenter_move {old removed next : ReflectionAccount}
    {rewards : Finmap fun _ : Pubkey => RewardAccount} {key : Pubkey} {reward : RewardAccount}
    {payout extra points xnos : Nat} (present : rewards.lookup key = some reward)
    (split : reward.xnos + payout + extra = reward.reflection / old.rate)
    (left : old.removeRewardsAccount reward.reflection (reward.xnos + payout) = .ok removed)
    (entered : removed.addRewardsAccount xnos extra = .ok (points, next)) :
    next.vault = old.vault ∧ next.rate = old.rate ∧ (old.pool rewards).Move 0 payout
      (next.pool (rewards.insert key (reward.update points xnos))) := by
  obtain ⟨covered, owned, rfl⟩ := removeRewardsAccount_eq_ok.mp left
  obtain ⟨bought, rfl⟩ := addRewardsAccount_eq_ok entered
  exact ⟨rfl, rfl, @SharePool.Move.reenter _ _ _ _ (old.pool rewards) key reward
    (reward.update points xnos) payout extra present split covered owned bought⟩

theorem claimed_move {s : State} {a : Accounts.Claim} {old removed added : ReflectionAccount}
    {reward : RewardAccount} {amount points : Nat} (claims : Claimable s a old reward amount)
    (left : old.removeRewardsAccount reward.reflection (reward.xnos + amount) = .ok removed)
    (bought : removed.addRewardsAccount a.stake.xnos 0 = .ok (points, added)) :
    added.vault = old.vault ∧ added.rate = old.rate ∧ (old.pool s.rewards).Move 0 amount
      (added.pool (s.rewards.insert a.reward (reward.update points a.stake.xnos))) :=
  reenter_move claims.present (getAmount_worth claims.pending) left bought

theorem synced_move {old removed added : ReflectionAccount}
    {rewards : Finmap fun _ : Pubkey => RewardAccount} {key : Pubkey} {reward : RewardAccount}
    {amount points xnos : Nat} (present : rewards.lookup key = some reward)
    (left : old.removeRewardsAccount reward.reflection reward.xnos = .ok removed)
    (pending : reward.getAmount removed.rate = .ok amount)
    (bought : removed.addRewardsAccount xnos amount = .ok (points, added)) :
    added.vault = old.vault ∧ added.rate = old.rate ∧ (old.pool rewards).Move 0 0
      (added.pool (rewards.insert key (reward.update points xnos))) := by
  have worth := getAmount_worth pending
  rw [removeRewardsAccount_rate left] at worth
  exact @reenter_move _ _ _ _ _ _ 0 _ _ _ present worth left bought

theorem leave_move {old next : ReflectionAccount}
    {rewards : Finmap fun _ : Pubkey => RewardAccount} {key : Pubkey} {reward : RewardAccount}
    (present : rewards.lookup key = some reward)
    (left : old.removeRewardsAccount reward.reflection reward.xnos = .ok next) :
    next.vault = old.vault ∧ next.rate = old.rate ∧
    (old.pool rewards).Move 0 0 (next.pool (rewards.erase key)) := by
  obtain ⟨covered, owned, rfl⟩ := removeRewardsAccount_eq_ok.mp left
  exact ⟨rfl, rfl,
    @SharePool.Move.leave _ _ _ _ (old.pool rewards) key reward present covered owned⟩

section

variable {s s' : State} {old : ReflectionAccount}

/-- An instruction that moves no tokens. -/
theorem turn_of_same_tokens {event : Event} {next : ReflectionAccount}
    (quiet : feesAdded event = 0 ∧ donated event = 0 ∧ rateAfter old event.action = old.rate)
    (tokens : event.after.tokens = event.before.tokens)
    (after : event.after.reflection = some next) (vaulted : next.vault = old.vault)
    (rated : next.rate = old.rate)
    (move : (old.pool event.before.rewards).Move 0 0 (next.pool event.after.rewards)) :
    Turn event old next := by
  have unpaid : paidOut event = 0 := by
    unfold paidOut
    split
    · rw [tokens, Nat.sub_self]
    · rfl
  refine ⟨after, vaulted, rated.trans quiet.2.2.symm, by rw [quiet.1, unpaid]; exact move, ?_⟩
  rw [quiet.1, quiet.2.1, unpaid, tokens]

theorem feeAdded_turn {a : Accounts.AddFee} {amount : Nat} {raised : ReflectionAccount}
    {tokens : Tokens} (homed : old.vault = vault) (vaulted : old.vault = a.vault)
    (apart : a.user ≠ a.vault) (paid : old.addFee amount = .ok raised)
    (moved : s.tokens.transfer a.user a.vault a.authority amount = .ok tokens) :
    Turn ⟨s, .instruction (.addFee a amount),
      { s with reflection := some raised, tokens := tokens }⟩ old raised := by
  obtain ⟨-, some, rfl⟩ := addFee_eq_ok.mp paid
  have balance := Tokens.balance_transfer moved vault
  rw [homed] at vaulted
  rw [← vaulted] at apart balance
  rw [if_neg apart.symm, if_pos rfl] at balance
  refine ⟨rfl, rfl, rfl, .fee (Nat.pos_of_ne_zero some), ?_⟩
  show tokens.balance vault + 0 = s.tokens.balance vault + amount + 0
  omega

/-- A claim that pays moves its amount out of the vault. -/
theorem claimed_turn {a : Accounts.Claim} {removed added : ReflectionAccount}
    {reward : RewardAccount} {amount points : Nat} {tokens : Tokens} (homed : old.vault = vault)
    (claims : Claimable s a old reward amount)
    (left : old.removeRewardsAccount reward.reflection (reward.xnos + amount) = .ok removed)
    (bought : removed.addRewardsAccount a.stake.xnos 0 = .ok (points, added))
    (moved : s.tokens.transfer a.vault a.user a.vault amount = .ok tokens) :
    Turn ⟨s, .instruction (.claim a), { s with
      reflection := some added
      rewards := s.rewards.insert a.reward (reward.update points a.stake.xnos)
      tokens := tokens }⟩ old added := by
  have ⟨same, rated, move⟩ := claimed_move claims left bought
  have balance := Tokens.balance_transfer moved vault
  have funded := Tokens.amount_le_balance moved
  have apart := claims.apart
  have vaulted := claims.vaulted
  rw [homed] at vaulted
  rw [← vaulted] at apart balance funded
  rw [if_neg apart.symm, if_pos rfl] at balance
  have paid : paidOut ⟨s, .instruction (.claim a), { s with
      reflection := some added
      rewards := s.rewards.insert a.reward (reward.update points a.stake.xnos)
      tokens := tokens }⟩ = amount := by
    show s.tokens.balance vault - tokens.balance vault = amount
    omega
  refine ⟨rfl, same, rated, by rw [paid]; exact move, ?_⟩
  rw [paid]
  exact balance

/-- Every step of the initialized program is a move of its pool. -/
theorem step_turn {action : Action} (present : s.reflection = some old) (homed : old.vault = vault)
    (success : step s action = .ok s') : ∃ next, Turn ⟨s, action, s'⟩ old next := by
  cases action with
  | external tokens =>
      simp only [step, bind_eq_ok, require_eq_ok, pure_eq_ok, exists_const] at success
      obtain ⟨external, rfl⟩ := success
      have grown : s.tokens.balance vault ≤ tokens.balance vault := external.balance_le rfl
      refine ⟨old, present, rfl, rfl, .rest, ?_⟩
      show tokens.balance vault + 0 =
        s.tokens.balance vault + 0 + (tokens.balance vault - s.tokens.balance vault)
      omega
  | instruction ix =>
      cases process_effect (show process s ix = .ok s' from success) with
      | opened keyed fresh => exact absurd ⟨keyed, by simp [present]⟩ fresh.1
      | @entered a _ _ _ found _ _ _ fresh bought =>
          cases present.symm.trans found
          obtain ⟨vaulted, rated, move⟩ := join_move a.authority fresh.2.1 bought
          exact ⟨_, turn_of_same_tokens ⟨rfl, rfl, rfl⟩ rfl rfl vaulted rated move⟩
      | feeAdded found vaulted apart paid moved =>
          cases present.symm.trans found
          exact ⟨_, feeAdded_turn homed vaulted apart paid moved⟩
      | claimedNothing claims =>
          exact ⟨old, turn_of_same_tokens ⟨rfl, rfl, rfl⟩ rfl present rfl rfl .rest⟩
      | claimed claims some left bought signed moved =>
          cases present.symm.trans claims.found
          exact ⟨_, claimed_turn homed claims left bought moved⟩
      | synced found owner _ _ left pending bought =>
          cases present.symm.trans found
          obtain ⟨vaulted, rated, move⟩ := synced_move owner left pending bought
          exact ⟨_, turn_of_same_tokens ⟨rfl, rfl, rfl⟩ rfl rfl vaulted rated move⟩
      | closed found owner _ left =>
          cases present.symm.trans found
          obtain ⟨vaulted, rated, move⟩ := leave_move owner left
          exact ⟨_, turn_of_same_tokens ⟨rfl, rfl, rfl⟩ rfl rfl vaulted rated move⟩

end

end Nosana.Rewards
