import Nosana.Interleaving
import Nosana.RewardsSync

set_option autoImplicit false

/- Between two fees the rate is fixed, and what happens to a reward account follows from its own
operations. The order in which users come makes no difference. -/
namespace Nosana.Rewards

open Checked

/-- The reward account that the operation of a user is about. -/
def Action.account : Action → Option Pubkey
  | .instruction (.enter a) => some a.reward
  | .instruction (.claim a) => some a.reward
  | .instruction (.sync a) => some a.reward
  | .instruction (.close a) => some a.reward
  | _ => none

/-- An account is entered, claimed from, synchronized or closed. -/
def Action.OfUser (action : Action) : Prop := action.account.isSome = true

instance (action : Action) : Decidable action.OfUser := inferInstanceAs (Decidable (_ = true))

/-- What a claim brought its user. -/
def received (event : Event) : Nat :=
  match event.action with
  | .instruction (.claim a) =>
    event.after.tokens.balance a.user - event.before.tokens.balance a.user
  | _ => 0

/-- What an operation does to its account at a rate. -/
def Action.alone (rate : Nat) : Action → Option RewardAccount → Option RewardAccount
  | .instruction (.enter a), _ =>
    some (RewardAccount.zeroed.init a.authority (a.stake.xnos * rate) a.stake.xnos)
  | .instruction (.claim a), some reward =>
    if reward.reflection / rate - reward.xnos = 0 then some reward
    else some (reward.update (a.stake.xnos * rate) a.stake.xnos)
  | .instruction (.sync a), some reward =>
    some (reward.update ((a.stake.xnos + (reward.reflection / rate - reward.xnos)) * rate)
      a.stake.xnos)
  | .instruction (.close _), _ => none
  | _, account => account

/-- What an operation pays for its account at a rate. -/
def Action.payment (rate : Nat) : Action → Option RewardAccount → Nat
  | .instruction (.claim _), some reward => reward.reflection / rate - reward.xnos
  | _, _ => 0

/-- How an operation that paid an amount changes a balance. -/
def moved (key : Pubkey) : Action × Nat → Int
  | (.instruction (.claim a), amount) =>
    (if key = a.user then (amount : Int) else 0) - if key = a.vault then (amount : Int) else 0
  | _ => 0

/-- How much of a vault's own signature an operation that paid an amount used. -/
def signedFor (key : Pubkey) : Action × Nat → Nat
  | (.instruction (.claim a), amount) => if key = a.vault then amount else 0
  | _ => 0

/-- The step of a user: it keeps the rate, changes its account as it would alone, and moves what
the account is worth beyond its stake out of the vault. -/
structure UserTurn (event : Event) (old next : ReflectionAccount) : Prop where
  before : event.before.reflection = some old
  after : event.after.reflection = some next
  kept : (next.rate, next.vault) = (old.rate, old.vault)
  move : (old.pool event.before.rewards).Move 0 (received event) (next.pool event.after.rewards)
  own : event.action.account.bind event.after.rewards.lookup =
    event.action.alone old.rate (event.action.account.bind event.before.rewards.lookup)
  paid : received event =
    event.action.payment old.rate (event.action.account.bind event.before.rewards.lookup)
  frame : ∀ key, some key ≠ event.action.account →
    event.after.rewards.lookup key = event.before.rewards.lookup key
  balance : ∀ key, (event.after.tokens.balance key : Int) =
    event.before.tokens.balance key + moved key (event.action, received event)
  form : ∀ key, (event.after.tokens.lookup key).map TokenAccount.form =
    ((event.before.tokens.lookup key).map TokenAccount.form).map
      fun account => account.charged key (signedFor key (event.action, received event))

section

variable {s s' : State}

theorem enter_user {a : Accounts.Enter} (success : enter s a = .ok s') :
    ∃ old next, UserTurn ⟨s, .instruction (.enter a), s'⟩ old next := by
  cases enter_effect success with
  | @entered _ old added _ found _ _ _ fresh entered =>
      have ⟨vaulted, rated, move⟩ := join_move a.authority fresh.2.1 entered
      have bought := (addRewardsAccount_eq_ok entered).1
      rw [Nat.add_zero] at bought
      refine ⟨old, added, found, rfl, by rw [rated, vaulted], move, ?_, rfl, ?_, ?_, fun key => ?_⟩
      · show (s.rewards.insert a.reward _).lookup a.reward = _
        rw [Finmap.lookup_insert, bought]
        rfl
      · intro key other
        exact Finmap.lookup_insert_of_ne _ fun same => other (congrArg some same)
      · intro key
        exact (Int.add_zero _).symm
      · exact (TokenAccount.map_charged_zero _ key).symm

theorem close_user {a : Accounts.Close} (success : close s a = .ok s') :
    ∃ old next, UserTurn ⟨s, .instruction (.close a), s'⟩ old next := by
  cases close_effect success with
  | @closed _ old removed _ found present _ left =>
      have ⟨vaulted, rated, move⟩ := leave_move present left
      refine ⟨old, removed, found, rfl, by rw [rated, vaulted], move, ?_, rfl, ?_, ?_,
        fun key => ?_⟩
      · exact Finmap.lookup_erase _ _
      · intro key other
        exact Finmap.lookup_erase_ne fun same => other (congrArg some same)
      · intro key
        exact (Int.add_zero _).symm
      · exact (TokenAccount.map_charged_zero _ key).symm

theorem sync_user {a : Accounts.Sync} (success : sync s a = .ok s') :
    ∃ old next, UserTurn ⟨s, .instruction (.sync a), s'⟩ old next := by
  cases sync_effect success with
  | @synced _ old removed added reward amount points found present _ _ left pending entered =>
      have ⟨vaulted, rated, move⟩ := synced_move present left pending entered
      have rate := removeRewardsAccount_rate left
      obtain ⟨-, -, worth⟩ := getAmount_eq_ok.mp pending
      have bought := (addRewardsAccount_eq_ok entered).1
      rw [rate] at worth bought
      refine ⟨old, added, found, rfl, by rw [rated, vaulted], move, ?_, ?_, ?_, ?_, fun key => ?_⟩
      · show (s.rewards.insert a.reward _).lookup a.reward =
          Action.alone old.rate (.instruction (.sync a)) (s.rewards.lookup a.reward)
        rw [Finmap.lookup_insert, bought, present, ← worth]
        rfl
      · show 0 = Action.payment old.rate (.instruction (.sync a)) (s.rewards.lookup a.reward)
        rw [present]
        rfl
      · intro key other
        exact Finmap.lookup_insert_of_ne _ fun same => other (congrArg some same)
      · intro key
        exact (Int.add_zero _).symm
      · exact (TokenAccount.map_charged_zero _ key).symm

/-- A claim with nothing to pay changes nothing. -/
theorem claimedNothing_user {a : Accounts.Claim} {old : ReflectionAccount} {reward : RewardAccount}
    (claims : Claimable s a old reward 0) : UserTurn ⟨s, .instruction (.claim a), s⟩ old old := by
  obtain ⟨-, -, worth⟩ := getAmount_eq_ok.mp claims.pending
  have nothing : received ⟨s, .instruction (.claim a), s⟩ = 0 := Nat.sub_self _
  refine ⟨claims.found, claims.found, rfl, by rw [nothing]; exact .rest, ?_, ?_, fun _ _ => rfl, ?_,
    fun key => ?_⟩
  · show s.rewards.lookup a.reward =
      Action.alone old.rate (.instruction (.claim a)) (s.rewards.lookup a.reward)
    simp only [claims.present, Action.alone, worth, if_true]
  · show _ = Action.payment old.rate (.instruction (.claim a)) (s.rewards.lookup a.reward)
    simp only [nothing, claims.present, Action.payment, worth]
  · intro key
    rw [nothing]
    simp [moved]
  · rw [nothing]
    simp only [signedFor, ite_self, TokenAccount.map_charged_zero]

theorem claimed_user {a : Accounts.Claim} {old removed added : ReflectionAccount}
    {reward : RewardAccount} {amount points : Nat} {tokens : Tokens}
    (claims : Claimable s a old reward amount) (positive : 0 < amount)
    (left : old.removeRewardsAccount reward.reflection (reward.xnos + amount) = .ok removed)
    (entered : removed.addRewardsAccount a.stake.xnos 0 = .ok (points, added))
    (transferred : s.tokens.transfer a.vault a.user a.vault amount = .ok tokens) :
    UserTurn ⟨s, .instruction (.claim a), { s with
      reflection := some added
      rewards := s.rewards.insert a.reward (reward.update points a.stake.xnos)
      tokens := tokens }⟩ old added := by
  have ⟨vaulted, rated, move⟩ := claimed_move claims left entered
  obtain ⟨-, -, worth⟩ := getAmount_eq_ok.mp claims.pending
  have bought := (addRewardsAccount_eq_ok entered).1
  rw [Nat.add_zero, removeRewardsAccount_rate left] at bought
  have credited := Tokens.balance_destination transferred (Ne.symm claims.apart)
  have paid : received ⟨s, .instruction (.claim a), { s with
      reflection := some added
      rewards := s.rewards.insert a.reward (reward.update points a.stake.xnos)
      tokens := tokens }⟩ = amount := by
    show tokens.balance a.user - s.tokens.balance a.user = amount
    omega
  refine ⟨claims.found, rfl, by rw [rated, vaulted], by rw [paid]; exact move, ?_, ?_, ?_, ?_,
    fun key => ?_⟩
  · show (s.rewards.insert a.reward _).lookup a.reward =
      Action.alone old.rate (.instruction (.claim a)) (s.rewards.lookup a.reward)
    simp only [Finmap.lookup_insert, claims.present, Action.alone, worth, Nat.ne_of_gt positive,
      if_false, bought]
  · show _ = Action.payment old.rate (.instruction (.claim a)) (s.rewards.lookup a.reward)
    simp only [paid, claims.present, Action.payment, worth]
  · intro key other
    exact Finmap.lookup_insert_of_ne _ fun same => other (congrArg some same)
  · intro key
    have balance := Tokens.balance_transfer transferred key
    rw [paid]
    show (tokens.balance key : Int) =
      s.tokens.balance key + moved key (.instruction (.claim a), amount)
    simp only [moved]
    split_ifs at balance ⊢ <;> omega
  · rw [paid]
    have form := Tokens.form_transfer transferred (Ne.symm claims.apart) positive key
    by_cases own : key = a.vault
    · subst own
      exact form
    · simpa [signedFor, own] using form

theorem claim_user {a : Accounts.Claim} (success : claim s a = .ok s') :
    ∃ old next, UserTurn ⟨s, .instruction (.claim a), s'⟩ old next := by
  cases claim_effect success with
  | claimedNothing claims => exact ⟨_, _, claimedNothing_user claims⟩
  | claimed claims positive left entered _ transferred =>
      exact ⟨_, _, claimed_user claims positive left entered transferred⟩

theorem user_turn {event : Event} (user : event.action.OfUser)
    (success : step event.before event.action = .ok event.after) :
    ∃ old next, UserTurn event old next := by
  obtain ⟨s, action, s'⟩ := event
  cases action with
  | external tokens => cases user
  | instruction ix =>
      cases ix with
      | init a => cases user
      | addFee a amount => cases user
      | enter a => exact enter_user success
      | claim a => exact claim_user success
      | sync a => exact sync_user success
      | close a => exact close_user success

end

/-- What an account sees of the state: the rate and the vault of the pool, and itself. -/
def State.seen (key : Option Pubkey) (s : State) : Option (Nat × Pubkey) × Option RewardAccount :=
  (s.reflection.map fun reflection => (reflection.rate, reflection.vault),
    key.bind s.rewards.lookup)

def Action.moveSeen (action : Action) :
    Option (Nat × Pubkey) × Option RewardAccount → Option (Nat × Pubkey) × Option RewardAccount
  | (some (rate, vault), account) => (some (rate, vault), action.alone rate account)
  | (none, account) => (none, account)

def Action.paymentSeen (action : Action) : Option (Nat × Pubkey) × Option RewardAccount → Nat
  | (some (rate, _), account) => action.payment rate account
  | (none, _) => 0

/-- An operation concerns its own account only. -/
theorem local_user : Machine.Local step Action.OfUser Action.account State.seen received
    Action.moveSeen Action.paymentSeen where
  own event user success := by
    obtain ⟨old, next, turn⟩ := user_turn user success
    simp only [State.seen, turn.before, turn.after, Option.map_some, turn.kept, Action.moveSeen,
      turn.own]
  given event user success := by
    obtain ⟨old, next, turn⟩ := user_turn user success
    simp only [State.seen, turn.before, Option.map_some, Action.paymentSeen, turn.paid]
  frame event user success key other := by
    obtain ⟨old, next, turn⟩ := user_turn user success
    simp only [State.seen, turn.before, turn.after, Option.map_some, turn.kept]
    cases key with
    | none => rfl
    | some key => exact congrArg (Prod.mk _) (turn.frame key other)

/-- The points that no account holds, and the tokens that no account staked. -/
def State.excess (s : State) : Int × Int :=
  match s.reflection with
  | some reflection =>
    (reflection.totalReflection - (reflection.pool s.rewards).held,
      reflection.totalXnos - (reflection.pool s.rewards).principals)
  | none => 0

/-- How an operation that paid an amount changes the excess. -/
def drained (record : Action × Nat) : Int × Int := (0, -(record.2 : Int))

theorem excess_user {event : Event} (user : event.action.OfUser)
    (success : step event.before event.action = .ok event.after) :
    event.after.excess = event.before.excess + drained (event.action, received event) := by
  obtain ⟨old, next, turn⟩ := user_turn user success
  have points := turn.move.points_flow
  have value := turn.move.flow
  simp only [State.excess, turn.before, turn.after]
  simp only [ReflectionAccount.pool] at points value ⊢
  apply Prod.ext
  · show ((next.totalReflection : Int) - _) = (old.totalReflection - _) + 0
    omega
  · show ((next.totalXnos : Int) - _) = (old.totalXnos - _) + -_
    omega

theorem balance_user {event : Event} (user : event.action.OfUser)
    (success : step event.before event.action = .ok event.after) (key : Pubkey) :
    (event.after.tokens.balance key : Int) =
      event.before.tokens.balance key + moved key (event.action, received event) := by
  obtain ⟨old, next, turn⟩ := user_turn user success
  exact turn.balance key

theorem form_user {event : Event} (user : event.action.OfUser)
    (success : step event.before event.action = .ok event.after) (key : Pubkey) :
    (event.after.tokens.lookup key).map TokenAccount.form =
      ((event.before.tokens.lookup key).map TokenAccount.form).map
        fun account => account.charged key (signedFor key (event.action, received event)) := by
  obtain ⟨old, next, turn⟩ := user_turn user success
  exact turn.form key

theorem signed_comm (key : Pubkey) (account : Option TokenAccount) (first second : Action × Nat) :
    (account.map fun held => held.charged key (signedFor key first)).map
        (fun held => held.charged key (signedFor key second)) =
      (account.map fun held => held.charged key (signedFor key second)).map
        (fun held => held.charged key (signedFor key first)) := by
  rw [Option.map_map, Option.map_map]
  exact congrFun (congrArg Option.map (funext fun held => held.charged_comm key _ _)) account

/-- The pool is determined by its rate and vault, its accounts, and what they do not make up. -/
theorem reflection_eq {s t : State} (rewards : s.rewards = t.rewards)
    (seen : s.seen none = t.seen none) (excess : s.excess = t.excess) :
    s.reflection = t.reflection := by
  have pool := congrArg Prod.fst seen
  simp only [State.seen] at pool
  cases here : s.reflection with
  | none =>
      rw [here, Option.map_none] at pool
      exact (Option.map_eq_none_iff.mp pool.symm).symm
  | some old =>
      rw [here, Option.map_some] at pool
      obtain ⟨next, there, same⟩ := Option.map_eq_some_iff.mp pool.symm
      obtain ⟨rate, vault⟩ := Prod.mk.inj same
      simp only [State.excess, here, there, rewards, SharePool.held, SharePool.principals,
        ReflectionAccount.pool, Prod.mk.injEq] at excess
      rw [there]
      cases old
      cases next
      simp only [Option.some.injEq, ReflectionAccount.mk.injEq] at rate vault excess ⊢
      exact ⟨rate.symm, by omega, by omega, vault.symm⟩

theorem State.eq_of_parts {s t : State} (reflection : s.reflection = t.reflection)
    (rewards : s.rewards = t.rewards) (tokens : s.tokens = t.tokens) : s = t := by
  cases s
  cases t
  rw [State.mk.injEq]
  exact ⟨reflection, rewards, tokens⟩

/-- Operations of users, in two orders that agree on the operations of each account, end in the
same state and pay the same to everybody, if none of them fails. -/
theorem user_order_is_irrelevant {s : State} {first second : List Action}
    (users : ∀ action ∈ first, action.OfUser)
    (same : Machine.SameOrder Action.account first second)
    (firstCompletes : Machine.Completes step s first)
    (secondCompletes : Machine.Completes step s second) :
    run s first = run s second ∧
      Machine.SameOrder (fun record => record.1.account)
        (Machine.records step received s first) (Machine.records step received s second) := by
  have others : ∀ action ∈ second, action.OfUser := fun action member =>
    users action (same.perm.mem_iff.mpr member)
  have ⟨seen, paid⟩ := local_user.reorder users others same firstCompletes secondCompletes
  have rewards : (run s first).rewards = (run s second).rewards := by
    apply Finmap.ext_lookup
    intro key
    exact congrArg Prod.snd (seen (some key))
  have excess : (run s first).excess = (run s second).excess :=
    Machine.measure_reorder State.excess drained (fun _ user success => excess_user user success)
      users others paid.perm
  have tokens : (run s first).tokens = (run s second).tokens := by
    apply Tokens.ext_of_balance
    · intro key
      exact Machine.fold_reorder
        (fun state : State => (state.tokens.lookup key).map TokenAccount.form)
        (fun account record => account.map fun held => held.charged key (signedFor key record))
        (signed_comm key) (fun _ user success => form_user user success key) users others paid.perm
    · intro key
      exact Int.ofNat.inj (Machine.measure_reorder
        (fun state : State => (state.tokens.balance key : Int)) (moved key)
        (fun _ user success => balance_user user success key) users others paid.perm)
  exact ⟨State.eq_of_parts (reflection_eq rewards (seen none) excess) rewards tokens, paid⟩

namespace Sample

def otherStake (xnos : Nat) : Staking.StakeAccount :=
  { Staking.StakeAccount.zeroed with authority := payer, xnos := xnos }

def enterOther (xnos : Nat) : Action :=
  .instruction (.enter ⟨.rewardsReflection, otherStake xnos, pda.nosanaRewards payer, payer⟩)

def syncOther (xnos : Nat) : Action :=
  .instruction (.sync ⟨pda.nosanaRewards payer, otherStake xnos, .rewardsReflection⟩)

/-- One staker claims, another enters and synchronizes. -/
def claimFirst : List Action := [claim 100, enterOther 50, syncOther 70]

def claimSecond : List Action := [enterOther 50, claim 100, syncOther 70]

end Sample

theorem user_order_is_irrelevant_sample :
    run Sample.rewarded Sample.claimFirst = run Sample.rewarded Sample.claimSecond ∧
      Machine.SameOrder (fun record => record.1.account)
        (Machine.records step received Sample.rewarded Sample.claimFirst)
        (Machine.records step received Sample.rewarded Sample.claimSecond) :=
  user_order_is_irrelevant (by decide) (Machine.sameOrder_swap (by decide) _) rfl rfl

end Nosana.Rewards
