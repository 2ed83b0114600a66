import Nosana.RewardsOrder
import Nosana.RewardsSolvency
import Nosana.Tally

set_option autoImplicit false

/- What was earned in the rewards pool stays: it is still there, or it was paid to whoever earned
it. -/
namespace Nosana.Rewards

open Checked

/-- What an account can claim at a rate. -/
def pendingAt (rate : Nat) : Option RewardAccount → Nat
  | some reward => reward.reflection / rate - reward.xnos
  | none => 0

/-- What the reward account at an address can claim. -/
def State.pending (s : State) (key : Pubkey) : Nat :=
  s.reflection.elim 0 fun reflection => pendingAt reflection.rate (s.rewards.lookup key)

/-- What a step pays out for a reward account. -/
def receivedBy (key : Pubkey) (event : Event) : Nat :=
  if event.action.account = some key then received event else 0

/-- The instruction by which an owner gives up a reward account, with what it has earned. -/
def Action.abandonedBy (owner : Pubkey) : Action → Bool
  | .instruction (.close a) => a.authority == owner
  | _ => false

/-- Every reward account is at the address of its owner. -/
def Filed (s : State) : Prop :=
  ∀ key reward, s.rewards.lookup key = some reward → key = pda.nosanaRewards reward.authority

/-! One account, one step -/

/-- A lower rate makes all points worth more. -/
theorem pendingAt_le_of_rate {rate lower : Nat} (positive : 0 < lower) (lowered : lower ≤ rate)
    (account : Option RewardAccount) : pendingAt rate account ≤ pendingAt lower account := by
  cases account with
  | none => exact le_refl _
  | some reward => exact Nat.sub_le_sub_right (Nat.div_le_div_left lowered positive) _

/-- New points for a stake and for what is pending are worth what was pending. -/
theorem pendingAt_synced (rate xnos amount : Nat) (reward : RewardAccount) (divides : rate ≠ 0) :
    pendingAt rate (some (reward.update ((xnos + amount) * rate) xnos)) = amount := by
  show (xnos + amount) * rate / rate - xnos = amount
  rw [Nat.mul_div_cancel _ (Nat.pos_of_ne_zero divides), Nat.add_sub_cancel_left]

/-- An operation on an account does not lower what it can claim by more than it pays. -/
theorem pendingAt_le_alone {rate : Nat} {action : Action} {account : Option RewardAccount}
    (fresh : ∀ a, action = .instruction (.enter a) → account = none)
    (stays : ∀ a, action ≠ .instruction (.close a)) :
    pendingAt rate account ≤
      pendingAt rate (action.alone rate account) + action.payment rate account := by
  cases account with
  | none => exact Nat.zero_le _
  | some reward =>
      cases action with
      | external tokens => exact Nat.le_add_right _ _
      | instruction ix =>
          cases ix with
          | init a => exact Nat.le_add_right _ _
          | enter a => cases fresh a rfl
          | addFee a amount => exact Nat.le_add_right _ _
          | claim a => exact Nat.le_add_left _ _
          | close a => exact absurd rfl (stays a)
          | sync a =>
              rcases Nat.eq_zero_or_pos rate with zero | positive
              · simp [pendingAt, zero]
              · refine Nat.le_add_right_of_le (le_of_eq ?_)
                exact (pendingAt_synced rate _ _ reward (Nat.ne_of_gt positive)).symm

section

variable {s s' : State} {owner : Pubkey}

theorem filed_step {action : Action} (filed : Filed s) (success : step s action = .ok s') :
    Filed s' := by
  cases action with
  | external tokens =>
      simp only [step, bind_eq_ok, require_eq_ok, pure_eq_ok, exists_const] at success
      obtain ⟨-, rfl⟩ := success
      exact filed
  | instruction ix =>
      cases process_effect success with
      | opened | feeAdded | claimedNothing => exact filed
      | entered found owned staked keyed =>
          intro key reward present
          rcases Finmap.lookup_insert_eq_some present with ⟨rfl, rfl⟩ | ⟨-, earlier⟩
          · exact keyed
          · exact filed key reward earlier
      | claimed claims =>
          intro key reward present
          rcases Finmap.lookup_insert_eq_some present with ⟨rfl, rfl⟩ | ⟨-, earlier⟩
          · have kept := filed _ _ claims.present
            exact kept
          · exact filed key reward earlier
      | synced found inside =>
          intro key reward present
          rcases Finmap.lookup_insert_eq_some present with ⟨rfl, rfl⟩ | ⟨-, earlier⟩
          · have kept := filed _ _ inside
            exact kept
          · exact filed key reward earlier
      | closed =>
          intro key reward present
          exact filed key reward (Finmap.lookup_erase_eq_some present).2

theorem run_filed (genesis : Genesis s) (actions : List Action) : Filed (run s actions) := by
  refine Machine.run_invariant ?_ (fun _ _ _ filed success => filed_step filed success) actions
  intro key reward present
  rw [genesis.rewards] at present
  cases present

theorem pending_of_pool {reflection : ReflectionAccount} (pool : s.reflection = some reflection)
    (key : Pubkey) : s.pending key = pendingAt reflection.rate (s.rewards.lookup key) := by
  rw [State.pending, pool, Option.elim_some]

/-- An operation lowers what an account can claim only if it pays or gives it up. -/
theorem UserTurn.pending_le {event : Event} {old next : ReflectionAccount}
    (turn : UserTurn event old next) (filed : Filed event.before)
    (success : step event.before event.action = .ok event.after)
    (stays : event.action.abandonedBy owner = false) :
    event.before.pending (pda.nosanaRewards owner) ≤
      event.after.pending (pda.nosanaRewards owner) +
        receivedBy (pda.nosanaRewards owner) event := by
  obtain ⟨s, action, s'⟩ := event
  rw [pending_of_pool turn.before, pending_of_pool turn.after, (Prod.mk.inj turn.kept).1]
  unfold receivedBy
  split_ifs with own
  · have account := turn.own
    have paid := turn.paid
    rw [own, Option.bind_some, Option.bind_some] at account
    rw [own, Option.bind_some] at paid
    rw [account, paid]
    refine pendingAt_le_alone ?_ ?_
    · intro a entering
      subst entering
      have entered : enter s a = .ok s' := success
      have opened : a.reward = pda.nosanaRewards owner := Option.some.inj own
      rw [← opened]
      cases enter_effect entered with
      | entered found owned staked keyed fresh => exact Finmap.lookup_eq_none.mpr fresh.2.1
    · intro a closing
      subst closing
      have closed : close s a = .ok s' := success
      cases close_effect closed with
      | @closed _ _ _ reward found present owned =>
          have keys : pda.nosanaRewards owner = pda.nosanaRewards reward.authority :=
            (Option.some.inj own).symm.trans (filed _ _ present)
          have same : a.authority = owner := owned.symm.trans (Pubkey.rewardsReward.inj keys).symm
          rw [Action.abandonedBy, same, beq_self_eq_true] at stays
          cases stays
  · rw [turn.frame _ (Ne.symm own)]
    exact Nat.le_add_right _ _

/-- A tame fee takes nothing from anybody. -/
theorem pending_le_of_fee {a : Accounts.AddFee} {amount : Nat}
    (success : step s (.instruction (.addFee a amount)) = .ok s')
    (tame : Tame ⟨s, .instruction (.addFee a amount), s'⟩) (key : Pubkey) :
    s.pending key ≤ s'.pending key := by
  cases process_effect (show process s (.addFee a amount) = .ok s' from success) with
  | feeAdded found vaulted apart paid =>
      obtain ⟨-, some, rfl⟩ := addFee_eq_ok.mp paid
      obtain ⟨enough, lower⟩ := tame _ found _ rfl
      have positive := Nat.lt_of_lt_of_le (Nat.pos_of_ne_zero some) enough
      rw [pending_of_pool found]
      exact pendingAt_le_of_rate positive lower _

/-- No step that its owner does not sign away lowers what an account can claim by more than it
pays out to it. -/
theorem pending_step {action : Action} (filed : Filed s) (success : step s action = .ok s')
    (tame : Tame ⟨s, action, s'⟩) (stays : action.abandonedBy owner = false) :
    s.pending (pda.nosanaRewards owner) ≤
      s'.pending (pda.nosanaRewards owner) +
        receivedBy (pda.nosanaRewards owner) ⟨s, action, s'⟩ := by
  by_cases user : action.OfUser
  · obtain ⟨old, next, turn⟩ := @user_turn ⟨s, action, s'⟩ user success
    exact turn.pending_le filed success stays
  · cases action with
    | external tokens =>
        simp only [step, bind_eq_ok, require_eq_ok, pure_eq_ok, exists_const] at success
        obtain ⟨-, rfl⟩ := success
        exact Nat.le_add_right _ _
    | instruction ix =>
        cases process_effect success with
        | opened keyed fresh =>
            have unopened : s.reflection = none := by
              cases pool : s.reflection with
              | none => rfl
              | some reflection => exact absurd ⟨keyed, by rw [pool]; rfl⟩ fresh.1
            rw [State.pending, unopened]
            exact Nat.zero_le _
        | feeAdded => exact Nat.le_add_right_of_le (pending_le_of_fee success tame _)
        | entered | claimedNothing | claimed | synced | closed => exact absurd rfl user

/-- A claim pays all that was pending. -/
theorem received_of_claim {event : Event} {a : Accounts.Claim}
    (success : step event.before event.action = .ok event.after)
    (claiming : event.action = .instruction (.claim a)) :
    received event = event.before.pending a.reward := by
  obtain ⟨s, action, s'⟩ := event
  subst claiming
  obtain ⟨old, next, turn⟩ := @user_turn ⟨s, .instruction (.claim a), s'⟩ rfl success
  rw [turn.paid, pending_of_pool turn.before]
  show Action.payment old.rate (.instruction (.claim a)) (s.rewards.lookup a.reward) = _
  cases s.rewards.lookup a.reward <;> rfl

end

/-- What the pool owes to those who have entered it. -/
def State.owed (s : State) : Nat :=
  match s.reflection with
  | some reflection => s.claimable reflection.rate
  | none => 0

/-- A solvent pool has in its vault what it owes. -/
theorem owed_le_balance_of_solvent {history : List Event} {reflection : ReflectionAccount}
    {s : State} (present : s.reflection = some reflection) (books : Books history reflection s)
    (solvent : (reflection.pool s.rewards).Solvent) : s.owed ≤ s.tokens.balance vault := by
  have claimable := claimable_add_xnos solvent
  have backed : (reflection.pool s.rewards).liability ≤ reflection.totalXnos := solvent.backed
  have value : reflection.totalXnos + payouts history = s.xnos + fees history := books.value
  have balance := books.balance
  unfold State.owed
  rw [present]
  show s.claimable reflection.rate ≤ _
  omega

theorem owed_le_balance {s : State} (genesis : Genesis s) (actions : List Action)
    (tame : ∀ event ∈ trace s actions, Tame event) :
    (run s actions).owed ≤ (run s actions).tokens.balance vault := by
  rcases run_funded genesis actions tame with blank | ⟨reflection, present, books, solvent⟩
  · unfold State.owed
    rw [blank.reflection]
    exact Nat.zero_le _
  · exact owed_le_balance_of_solvent present books solvent

/-- What one account can claim is part of what the pool owes. -/
theorem pending_le_owed (s : State) (key : Pubkey) : s.pending key ≤ s.owed := by
  unfold State.pending State.owed
  cases s.reflection with
  | none => exact Nat.zero_le _
  | some reflection =>
      cases present : s.rewards.lookup key with
      | none => exact Nat.zero_le _
      | some reward =>
          exact Finmap.le_total
            (fun _ (reward : RewardAccount) => reward.reflection / reflection.rate - reward.xnos)
            s.rewards key reward present fun _ _ _ => Nat.zero_le _

/-- While every fee is tame, what a staker has earned is still there or was
paid out in full, whatever others do, and the vault always has it. -/
theorem earnings_kept {s : State} (genesis : Genesis s) (past future : List Action)
    (owner : Pubkey) (tame : ∀ event ∈ trace s (past ++ future), Tame event)
    (stays : ∀ event ∈ trace (run s past) future, event.action.abandonedBy owner = false) :
    (run s past).pending (pda.nosanaRewards owner) ≤
      (run s (past ++ future)).pending (pda.nosanaRewards owner) +
        Machine.tally (receivedBy (pda.nosanaRewards owner)) (trace (run s past) future) ∧
    (∀ event ∈ trace (run s past) future, ∀ a, event.action = .instruction (.claim a) →
      received event = event.before.pending a.reward) ∧
    (run s (past ++ future)).pending (pda.nosanaRewards owner) ≤
      (run s (past ++ future)).tokens.balance vault := by
  have last : run s (past ++ future) = run (run s past) future := Machine.run_append s past future
  refine ⟨?_, ?_, ?_⟩
  · rw [last]
    refine Machine.tally_le (P := Filed)
      (fun state : State => state.pending (pda.nosanaRewards owner))
      (fun event => Tame event ∧ event.action.abandonedBy owner = false) (run_filed genesis past)
      (fun _ _ _ filed success => filed_step filed success)
      (fun _ _ _ filed success allowed => pending_step filed success allowed.1 allowed.2) future ?_
    intro event member
    refine ⟨tame event ?_, stays event member⟩
    rw [trace, Machine.trace_append]
    exact List.mem_append_right _ member
  · intro event member a claiming
    exact received_of_claim (Machine.mem_trace_step member) claiming
  · exact (pending_le_owed _ _).trans (owed_le_balance genesis _ tame)

theorem earnings_kept_sample :
    ((∀ event ∈ trace Sample.start Sample.rewarding, Tame event) ∧
      ∀ event ∈ trace (run Sample.start (Sample.rewarding.take 3)) (Sample.rewarding.drop 3),
        event.action.abandonedBy Sample.staker = false) ∧
    (run Sample.start (Sample.rewarding.take 3)).pending (pda.nosanaRewards Sample.staker) = 10 ∧
    10 ≤ (run Sample.start Sample.rewarding).pending (pda.nosanaRewards Sample.staker) +
      Machine.tally (receivedBy (pda.nosanaRewards Sample.staker))
        (trace (run Sample.start (Sample.rewarding.take 3)) (Sample.rewarding.drop 3)) := by
  have tame : ∀ event ∈ trace Sample.start Sample.rewarding, Tame event := by decide +kernel
  have stays : ∀ event ∈ trace (run Sample.start (Sample.rewarding.take 3))
      (Sample.rewarding.drop 3), event.action.abandonedBy Sample.staker = false := by
    decide +kernel
  have earned : (run Sample.start (Sample.rewarding.take 3)).pending
      (pda.nosanaRewards Sample.staker) = 10 := by decide +kernel
  have kept := earnings_kept Sample.genesis (Sample.rewarding.take 3) (Sample.rewarding.drop 3)
    Sample.staker tame stays
  exact ⟨⟨tame, stays⟩, earned, earned ▸ kept.1⟩

end Nosana.Rewards
