import Nosana.RewardsEarnings

set_option autoImplicit false

/- The books of one reward account: only fees bring something in, and what came in was paid, was
given up, or can still be claimed. -/
namespace Nosana.Rewards

open Checked

/-- What an account gives up when it is closed. -/
def forfeitedBy (key : Pubkey) (event : Event) : Nat :=
  match event.action with
  | .instruction (.close a) => if a.reward = key then event.before.pending key else 0
  | _ => 0

/-- What the reward account at an address can claim at the rate that a fee leaves. -/
def State.pendingWith (s : State) (fee : Nat) (key : Pubkey) : Nat :=
  s.reflection.elim 0 fun reflection =>
    pendingAt (reflection.totalReflection / (reflection.totalXnos + fee)) (s.rewards.lookup key)

/-- What a fee brings to an account, from its amount and the pool that gets it. -/
def raisedBy (key : Pubkey) (event : Event) : Nat :=
  match event.action with
  | .instruction (.addFee _ fee) => event.before.pendingWith fee key - event.before.pending key
  | _ => 0

/-- What a fee takes from an account, from its amount and the pool that gets it. -/
def loweredBy (key : Pubkey) (event : Event) : Nat :=
  match event.action with
  | .instruction (.addFee _ fee) => event.before.pending key - event.before.pendingWith fee key
  | _ => 0

/-- What an operation makes its account give up. -/
def Action.forfeit (rate : Nat) : Action → Option RewardAccount → Nat
  | .instruction (.close _), account => pendingAt rate account
  | _, _ => 0

/-- Nobody has a reward account before the program is initialized. -/
def Opened (s : State) : Prop := s.reflection = none → s.rewards = ∅

section

variable {s s' : State} {key : Pubkey}

theorem opened_step {action : Action} (opened : Opened s) (success : step s action = .ok s') :
    Opened s' := by
  cases action with
  | external tokens =>
      simp only [step, bind_eq_ok, require_eq_ok, pure_eq_ok, exists_const] at success
      obtain ⟨-, rfl⟩ := success
      exact opened
  | instruction ix =>
      cases process_effect success with
      | claimedNothing => exact opened
      | opened | entered | feeAdded | claimed | synced | closed =>
          intro absent
          cases absent

/-- The points that a stake buys can claim nothing. -/
theorem pendingAt_of_stake (rate xnos : Nat) {reward : RewardAccount}
    (points : reward.reflection = xnos * rate) (stake : reward.xnos = xnos) :
    pendingAt rate (some reward) = 0 := by
  have worth : xnos * rate / rate ≤ xnos :=
    Nat.div_le_of_le_mul (Nat.le_of_eq (Nat.mul_comm xnos rate))
  show reward.reflection / rate - reward.xnos = 0
  rw [points, stake]
  exact Nat.sub_eq_zero_of_le worth

/-- An operation on an account pays what it can claim, keeps it or gives it up. -/
theorem pendingAt_alone {rate : Nat} {action : Action} {account : Option RewardAccount}
    (user : action.OfUser) (fresh : ∀ a, action = .instruction (.enter a) → account = none) :
    pendingAt rate (action.alone rate account) +
      (action.payment rate account + action.forfeit rate account) = pendingAt rate account := by
  cases action with
  | external tokens => cases user
  | instruction ix =>
      cases ix with
      | init a => cases user
      | addFee a amount => cases user
      | enter a =>
          rw [fresh a rfl]
          exact pendingAt_of_stake rate a.stake.xnos rfl rfl
      | claim a =>
          cases account with
          | none => rfl
          | some reward =>
              by_cases nothing : reward.reflection / rate - reward.xnos = 0
              · simp only [Action.alone, nothing, if_true, Action.payment, Action.forfeit]
                rfl
              · simp only [Action.alone, nothing, if_false, Action.payment, Action.forfeit]
                rw [pendingAt_of_stake rate a.stake.xnos rfl rfl, Nat.zero_add]
                rfl
      | sync a =>
          cases account with
          | none => rfl
          | some reward =>
              rcases Nat.eq_zero_or_pos rate with zero | positive
              · simp [pendingAt, zero, Action.alone, Action.payment, Action.forfeit]
              · exact pendingAt_synced rate _ _ reward (Nat.ne_of_gt positive)
      | close a => exact (Nat.zero_add _).trans (Nat.zero_add _)

/-- What an operation gives up is what its account could claim. -/
theorem forfeitedBy_own {event : Event} {old next : ReflectionAccount}
    (turn : UserTurn event old next) (own : event.action.account = some key) :
    forfeitedBy key event = event.action.forfeit old.rate (event.before.rewards.lookup key) := by
  obtain ⟨s, action, s'⟩ := event
  cases action with
  | external tokens => cases own
  | instruction ix =>
      cases ix with
      | close a =>
          have here : a.reward = key := Option.some.inj own
          show (if a.reward = key then s.pending key else 0) = pendingAt old.rate _
          rw [if_pos here, pending_of_pool turn.before]
      | _ => rfl

theorem forfeitedBy_other {event : Event} (other : event.action.account ≠ some key) :
    forfeitedBy key event = 0 := by
  obtain ⟨s, action, s'⟩ := event
  cases action with
  | external tokens => rfl
  | instruction ix =>
      cases ix with
      | close a => exact if_neg fun here => other (congrArg some here)
      | _ => rfl

/-- The operation of a user keeps the books of every account. -/
theorem user_balanced {action : Action} (success : step s action = .ok s') (user : action.OfUser) :
    s'.pending key + (receivedBy key ⟨s, action, s'⟩ + forfeitedBy key ⟨s, action, s'⟩) =
      s.pending key := by
  obtain ⟨old, next, turn⟩ := @user_turn ⟨s, action, s'⟩ user success
  have rate : next.rate = old.rate := (Prod.mk.inj turn.kept).1
  rw [pending_of_pool turn.before, pending_of_pool turn.after, rate]
  by_cases own : action.account = some key
  · have account := turn.own
    have paid := turn.paid
    rw [own, Option.bind_some, Option.bind_some] at account
    rw [own, Option.bind_some] at paid
    rw [account, receivedBy, if_pos own, paid, forfeitedBy_own turn own]
    apply pendingAt_alone user
    intro a entering
    subst entering
    have entered : enter s a = .ok s' := success
    have opened : a.reward = key := Option.some.inj own
    rw [← opened]
    cases enter_effect entered with
    | entered found owned staked keyed fresh => exact Finmap.lookup_eq_none.mpr fresh.2.1
  · rw [turn.frame key (Ne.symm own), receivedBy, if_neg own, forfeitedBy_other own]
    rfl

/-- A fee moves what every account can claim to its worth at the rate that the fee leaves. -/
theorem pending_of_fee {a : Accounts.AddFee} {fee : Nat}
    (success : step s (.instruction (.addFee a fee)) = .ok s') :
    s'.pending key = s.pendingWith fee key := by
  cases process_effect (show process s (.addFee a fee) = .ok s' from success) with
  | feeAdded found vaulted apart paid moved =>
      obtain ⟨-, -, rfl⟩ := addFee_eq_ok.mp paid
      rw [State.pendingWith, found]
      rfl

/-- Every step keeps the books of every account. -/
theorem step_balanced {action : Action} (opened : Opened s) (success : step s action = .ok s') :
    s'.pending key + (receivedBy key ⟨s, action, s'⟩ + forfeitedBy key ⟨s, action, s'⟩ +
      loweredBy key ⟨s, action, s'⟩) = s.pending key + raisedBy key ⟨s, action, s'⟩ := by
  cases action with
  | external tokens =>
      simp only [step, bind_eq_ok, require_eq_ok, pure_eq_ok, exists_const] at success
      obtain ⟨-, rfl⟩ := success
      rfl
  | instruction ix =>
      cases ix with
      | init a =>
          have nothing : s.pending key = 0 ∧ s'.pending key = 0 := by
            cases process_effect (show process s (.init a) = .ok s' from success) with
            | opened keyed fresh =>
                have unopened : s.reflection = none := by
                  cases pool : s.reflection with
                  | none => rfl
                  | some reflection => exact absurd ⟨keyed, by rw [pool]; rfl⟩ fresh.1
                have nobody := opened unopened
                refine ⟨by rw [State.pending, unopened]; rfl, ?_⟩
                show pendingAt _ (s.rewards.lookup key) = 0
                rw [nobody]
                rfl
          show s'.pending key + 0 = s.pending key + 0
          rw [nothing.1, nothing.2]
      | addFee a fee =>
          show s'.pending key + (0 + 0 + (s.pending key - s.pendingWith fee key)) =
            s.pending key + (s.pendingWith fee key - s.pending key)
          rw [pending_of_fee success]
          omega
      | enter a | claim a | sync a | close a =>
          exact user_balanced success rfl

theorem loweredBy_of_tame {action : Action} (success : step s action = .ok s')
    (tame : Tame ⟨s, action, s'⟩) : loweredBy key ⟨s, action, s'⟩ = 0 := by
  cases action with
  | external tokens => rfl
  | instruction ix =>
      cases ix with
      | addFee a fee =>
          apply Nat.sub_eq_zero_of_le
          rw [← pending_of_fee success]
          exact pending_le_of_fee success tame key
      | _ => rfl

theorem raisedBy_of_no_fee {event : Event}
    (other : ∀ a amount, event.action ≠ .instruction (.addFee a amount)) :
    raisedBy key event = 0 := by
  obtain ⟨s, action, s'⟩ := event
  cases action with
  | external tokens => rfl
  | instruction ix =>
      cases ix with
      | addFee a amount => exact absurd rfl (other a amount)
      | _ => rfl

end

/-- In every stretch of every run, what fees brought to a reward account was paid by claims, was
given up when the account was closed, was taken by a fee, or can still be claimed. A tame fee takes
nothing, and without fees nothing is earned, however often an account is entered, claimed from,
synchronized and closed. -/
theorem earnings_balance {s : State} (genesis : Genesis s) (past future : List Action)
    (key : Pubkey) :
    (run s (past ++ future)).pending key +
        (Machine.tally (receivedBy key) (trace (run s past) future) +
          Machine.tally (forfeitedBy key) (trace (run s past) future) +
          Machine.tally (loweredBy key) (trace (run s past) future)) =
      (run s past).pending key + Machine.tally (raisedBy key) (trace (run s past) future) ∧
    (∀ event ∈ trace (run s past) future, Tame event → loweredBy key event = 0) ∧
    ((∀ event ∈ trace (run s past) future, ∀ a amount,
        event.action ≠ .instruction (.addFee a amount)) →
      (run s (past ++ future)).pending key +
          Machine.tally (receivedBy key) (trace (run s past) future) ≤
        (run s past).pending key) := by
  have last : run s (past ++ future) = run (run s past) future := Machine.run_append s past future
  have opened : Opened (run s past) :=
    Machine.run_invariant (P := Opened) (fun _ => genesis.rewards)
      (fun _ _ _ opened success => opened_step opened success) past
  have balance : (run (run s past) future).pending key +
      (Machine.tally (receivedBy key) (trace (run s past) future) +
        Machine.tally (forfeitedBy key) (trace (run s past) future) +
        Machine.tally (loweredBy key) (trace (run s past) future)) =
      (run s past).pending key + Machine.tally (raisedBy key) (trace (run s past) future) := by
    rw [← Machine.tally_add, ← Machine.tally_add]
    exact @Machine.tally_balance _ _ _ _ _ step Opened (run s past) (fun state => state.pending key)
      (raisedBy key) _ opened (fun _ _ _ opened success => opened_step opened success)
      (fun _ _ _ opened success => step_balanced opened success) future
  rw [last]
  refine ⟨balance, ?_, ?_⟩
  · intro event member tame
    exact loweredBy_of_tame (Machine.mem_trace_step member) tame
  · intro quiet
    have nothing : Machine.tally (raisedBy key) (trace (run s past) future) = 0 := by
      apply List.sum_eq_zero
      intro amount member
      obtain ⟨event, inside, rfl⟩ := List.mem_map.mp member
      exact raisedBy_of_no_fee (quiet event inside)
    omega

/-- A staker enters, a fee comes, and the staker leaves without a claim and enters again. -/
def Sample.leaving : List Action :=
  [init, enter 100, addFee 10,
    .instruction (.close ⟨.rewardsReflection, pda.nosanaRewards staker, staker⟩), enter 200]

theorem earnings_balance_sample :
    (Sample.run ([] ++ Sample.leaving)).pending (pda.nosanaRewards Sample.staker) +
        (Machine.tally (receivedBy (pda.nosanaRewards Sample.staker))
          (Sample.trace Sample.leaving) +
          Machine.tally (forfeitedBy (pda.nosanaRewards Sample.staker))
            (Sample.trace Sample.leaving) +
          Machine.tally (loweredBy (pda.nosanaRewards Sample.staker))
            (Sample.trace Sample.leaving)) =
      Sample.start.pending (pda.nosanaRewards Sample.staker) +
        Machine.tally (raisedBy (pda.nosanaRewards Sample.staker)) (Sample.trace Sample.leaving) :=
  (earnings_balance Sample.genesis [] Sample.leaving (pda.nosanaRewards Sample.staker)).1

/-- The ten tokens of the fee are given up. -/
example : Machine.tally (forfeitedBy (pda.nosanaRewards Sample.staker))
    (Sample.trace Sample.leaving) = 10 := by decide +kernel

end Nosana.Rewards
