import Nosana.RewardsLedger
import Nosana.ShareRounding

set_option autoImplicit false

/- How a fee is shared among the reward accounts, and what the vault holds beyond what can be
claimed: what the last fee left by rounding, what was given up since, and what others put in. The
next fee hands out the first two. -/
namespace Nosana.Rewards

open Checked

/-- The value of an account, of which `getAmount` takes off what was staked. -/
def RewardAccount.value (self : RewardAccount) (rate : Nat) : Nat := self.reflection / rate

/-- A fee leaves a rate that is the quotient of the totals. -/
theorem addFee_rated {reflection next : ReflectionAccount} {fee : Nat}
    (raised : reflection.addFee fee = .ok next) :
    next.totalReflection = reflection.totalReflection ∧
      next.rate = next.totalReflection / next.totalXnos ∧ 0 < next.totalXnos := by
  obtain ⟨-, nonzero, rfl⟩ := addFee_eq_ok.mp raised
  exact ⟨rfl, rfl, Nat.pos_of_ne_zero nonzero⟩

/-- After a fee that leaves a rate of no less than the tokens in the pool, every account is worth
its exact share of them, rounded down, or one more; and all accounts together are worth no more
than the tokens, and less by no more than one for each account. -/
theorem fee_is_shared_pro_rata {reflection next : ReflectionAccount}
    {rewards : Finmap fun _ : Pubkey => RewardAccount} {fee : Nat}
    (known : reflection.totalReflection = rewards.total fun _ reward => reward.reflection)
    (raised : reflection.addFee fee = .ok next) (large : next.totalXnos ≤ next.rate) :
    (∀ key reward, rewards.lookup key = some reward →
      reward.reflection * next.totalXnos / next.totalReflection ≤ reward.value next.rate ∧
      reward.value next.rate ≤ reward.reflection * next.totalXnos / next.totalReflection + 1 ∧
      ∀ amount, reward.getAmount next.rate = .ok amount →
        reward.xnos + amount = reward.value next.rate) ∧
    next.totalXnos ≤ (rewards.total fun _ reward => reward.value next.rate) + rewards.keys.card ∧
    (rewards.total fun _ reward => reward.value next.rate) ≤ next.totalXnos := by
  obtain ⟨same, rated, some⟩ := addFee_rated raised
  rw [← same] at known
  have positive := lt_of_lt_of_le some large
  refine ⟨fun key reward present => ⟨?_, ?_, ?_⟩, ?_, ?_⟩
  · rw [RewardAccount.value, rated]
    exact SharePool.share_le_quotient (rated ▸ positive)
  · rw [RewardAccount.value, rated]
    apply SharePool.quotient_le_share_succ some (rated ▸ large)
    rw [known]
    exact Finmap.le_total (fun _ reward => reward.reflection) rewards key reward present
      fun _ _ _ => Nat.zero_le _
  · intro amount pending
    exact getAmount_worth pending
  · exact SharePool.totalValue_le (next.pool rewards) known rated positive
  · exact SharePool.liability_le (next.pool rewards) known rated some large

namespace Sample

/-- Two accounts that hold a pool of 29 tokens. -/
def shared : Finmap fun _ : Pubkey => RewardAccount :=
  ((∅ : Finmap fun _ : Pubkey => RewardAccount).insert (pda.nosanaRewards staker)
    ⟨staker, 400, 11⟩).insert (pda.nosanaRewards payer) ⟨payer, 600, 17⟩

def sharedPool : ReflectionAccount := ⟨34, 1000, 29, vault⟩

end Sample

theorem fee_is_shared_pro_rata_sample :
    (∀ key reward, Sample.shared.lookup key = some reward →
      reward.reflection * 31 / 1000 ≤ reward.value 32 ∧
      reward.value 32 ≤ reward.reflection * 31 / 1000 + 1 ∧
      ∀ amount, reward.getAmount 32 = .ok amount → reward.xnos + amount = reward.value 32) ∧
    31 ≤ (Sample.shared.total fun _ reward => reward.value 32) + Sample.shared.keys.card ∧
    (Sample.shared.total fun _ reward => reward.value 32) ≤ 31 :=
  @fee_is_shared_pro_rata Sample.sharedPool ⟨32, 1000, 31, Sample.vault⟩ Sample.shared 2
    (by decide +kernel) (by decide +kernel) (by decide)

/-! What is left in the vault -/

/-- What an event makes an account give up. -/
def forfeited (event : Event) : Nat :=
  match event.action with
  | .instruction (.close a) => event.before.pending a.reward
  | _ => 0

section

variable {s s' : State}

theorem owed_of_pool {reflection : ReflectionAccount} (pool : s.reflection = some reflection) :
    s.owed = s.rewards.total fun _ reward => pendingAt reflection.rate (some reward) := by
  unfold State.owed
  rw [pool]
  rfl

theorem pendingAt_elim (rate : Nat) (account : Option RewardAccount) :
    (account.elim 0 fun reward => pendingAt rate (some reward)) = pendingAt rate account := by
  cases account <;> rfl

/-- An operation changes what is owed as it changes what its account can claim. -/
theorem UserTurn.owed {event : Event} {old next : ReflectionAccount} {key : Pubkey}
    (turn : UserTurn event old next) (own : event.action.account = some key) :
    event.after.owed + event.before.pending key = event.before.owed + event.after.pending key := by
  have moved := @Finmap.total_of_frame _ _ _ _ _
    (fun _ reward => pendingAt old.rate (some reward)) event.before.rewards event.after.rewards key
    fun other apart => turn.frame other fun same => apart (Option.some.inj (same.trans own))
  rw [pendingAt_elim, pendingAt_elim] at moved
  rw [owed_of_pool turn.before, owed_of_pool turn.after, pending_of_pool turn.before,
    pending_of_pool turn.after, (Prod.mk.inj turn.kept).1]
  exact moved

/-- What an account is paid leaves the vault. -/
theorem UserTurn.vault_balance {action : Action} {old next : ReflectionAccount}
    (turn : UserTurn ⟨s, action, s'⟩ old next) (success : step s action = .ok s')
    (user : action.OfUser) (homed : old.vault = vault) :
    s'.tokens.balance vault + received ⟨s, action, s'⟩ = s.tokens.balance vault := by
  have quiet : feesAdded ⟨s, action, s'⟩ = 0 ∧ donated ⟨s, action, s'⟩ = 0 := by
    cases action with
    | external tokens => cases user
    | instruction ix => cases ix <;> first | exact ⟨rfl, rfl⟩ | cases user
  obtain ⟨other, whole⟩ := step_turn turn.before homed success
  cases whole.after.symm.trans turn.after
  -- the pool moved once, so both accounts of its move name the same payment
  have paid := turn.move.flow
  have flow := whole.move.flow
  have balance := whole.balance
  rw [quiet.1] at flow balance
  rw [quiet.2] at balance
  dsimp only at paid flow balance
  omega

/-- Every step but a fee leaves in the vault what it owes, and adds what is given up or given. -/
theorem remainder_step {old : ReflectionAccount} {action : Action} (pool : s.reflection = some old)
    (homed : old.vault = vault) (success : step s action = .ok s')
    (quiet : ∀ a amount, action ≠ .instruction (.addFee a amount)) :
    s'.tokens.balance vault + s.owed = s.tokens.balance vault + s'.owed +
      (donated ⟨s, action, s'⟩ + forfeited ⟨s, action, s'⟩) := by
  by_cases user : action.OfUser
  · obtain ⟨_, next, turn⟩ := @user_turn ⟨s, action, s'⟩ user success
    cases pool.symm.trans turn.before
    obtain ⟨key, own⟩ := Option.isSome_iff_exists.mp user
    have owed := turn.owed own
    have paid := turn.vault_balance success user homed
    have books : _ = s.pending key := @user_balanced s s' key action success user
    have whole : receivedBy key ⟨s, action, s'⟩ = received ⟨s, action, s'⟩ := if_pos own
    have kinds : donated ⟨s, action, s'⟩ = 0 ∧
        forfeitedBy key ⟨s, action, s'⟩ = forfeited ⟨s, action, s'⟩ := by
      cases action with
      | external tokens => cases user
      | instruction ix =>
          cases ix with
          | close a =>
              exact ⟨rfl, (if_pos (Option.some.inj own)).trans (by rw [← Option.some.inj own]; rfl)⟩
          | init a => cases user
          | addFee a amount => cases user
          | enter a | claim a | sync a => exact ⟨rfl, rfl⟩
    dsimp only at owed paid
    omega
  · cases action with
    | external tokens =>
        simp only [step, bind_eq_ok, require_eq_ok, pure_eq_ok, exists_const] at success
        obtain ⟨external, rfl⟩ := success
        have grown : s.tokens.balance vault ≤ tokens.balance vault := external.balance_le rfl
        show tokens.balance vault + s.owed = s.tokens.balance vault + s.owed +
          (tokens.balance vault - s.tokens.balance vault + 0)
        omega
    | instruction ix =>
        cases ix with
        | init a =>
            cases process_effect (show process s (.init a) = .ok s' from success) with
            | opened keyed fresh => exact absurd ⟨keyed, by rw [pool]; rfl⟩ fresh.1
        | addFee a amount => exact absurd rfl (quiet a amount)
        | enter a | claim a | sync a | close a => exact absurd rfl user

/-- A fee hands out all that was ever paid in, up to one token for each account. -/
theorem remainder_of_fee {history : List Event} {old : ReflectionAccount} {a : Accounts.AddFee}
    {amount : Nat} (pool : s.reflection = some old) (books : Books history old s)
    (solvent : (old.pool s.rewards).Solvent)
    (success : step s (.instruction (.addFee a amount)) = .ok s')
    (tame : Tame ⟨s, .instruction (.addFee a amount), s'⟩) :
    s'.tokens.balance vault ≤ s'.owed + s'.rewards.keys.card + donations history := by
  obtain ⟨next, turn⟩ := step_turn pool books.vaulted success
  have after : s'.reflection = some next := turn.after
  have kept := books.next turn
  have settled := turn.solvent pool books solvent tame
  have rated : next.rate = next.totalReflection / next.totalXnos := by
    cases process_effect (show process s (.addFee a amount) = .ok s' from success) with
    | feeAdded found _ _ paid =>
        cases after
        exact (addFee_rated paid).2.1
  have distributed : next.totalXnos ≤ (next.pool s'.rewards).liability + s'.rewards.keys.card :=
    SharePool.totalValue_le (next.pool s'.rewards) kept.points rated settled.positive
  have claimable := claimable_add_xnos settled
  have owed : s'.owed = s'.claimable next.rate := by
    unfold State.owed
    rw [after]
  have value : next.totalXnos + payouts _ = s'.xnos + fees _ := kept.value
  have balance := kept.balance
  rw [donations_concat] at balance
  have undonated : donated ⟨s, .instruction (.addFee a amount), s'⟩ = 0 := rfl
  dsimp only at claimable balance
  omega

/-- Since the last fee the vault holds what it owes, less than one token for each account that
there was, what others have put in, and what has been given up. -/
theorem remainder_of_run {old : ReflectionAccount} (pool : s.reflection = some old)
    (homed : old.vault = vault) (future : List Action)
    (quiet : ∀ event ∈ trace s future, ∀ a amount, event.action ≠ .instruction (.addFee a amount)) :
    (run s future).tokens.balance vault + s.owed = s.tokens.balance vault + (run s future).owed +
      (donations (trace s future) + Machine.tally forfeited (trace s future)) := by
  refine (Machine.guarded_induction (P := fun history state =>
    (∃ next, state.reflection = some next ∧ next.vault = vault) ∧
    state.tokens.balance vault + s.owed = s.tokens.balance vault + state.owed +
      (donations history + Machine.tally forfeited history))
    (fun event : Event => ∀ a amount, event.action ≠ .instruction (.addFee a amount))
    ⟨⟨old, pool, homed⟩, rfl⟩ ?_ future quiet).2
  rintro past state action after ⟨⟨here, present, home⟩, earlier⟩ success - allowed
  obtain ⟨next, turn⟩ := step_turn present home success
  have moved := remainder_step present home success allowed
  refine ⟨⟨next, turn.after, turn.vaulted.trans home⟩, ?_⟩
  rw [donations_concat, Machine.tally_concat]
  omega

end

/-- No fee gets stuck in the vault: until the next fee the vault holds what accounts can claim, what
others have put in, what has been given up since the fee, and less than one token for each account
that the fee was shared among. -/
theorem fees_reach_stakers {s after : State} (genesis : Genesis s) (past future : List Action)
    {a : Accounts.AddFee} {amount : Nat}
    (added : process (run s past) (.addFee a amount) = .ok after)
    (tame : ∀ event ∈ trace s (past ++ .instruction (.addFee a amount) :: future), Tame event)
    (quiet : ∀ event ∈ trace after future, ∀ a amount,
      event.action ≠ .instruction (.addFee a amount)) :
    (run after future).owed ≤ (run after future).tokens.balance vault ∧
    (run after future).tokens.balance vault ≤ (run after future).owed + after.rewards.keys.card +
      (donations (trace s past) + donations (trace after future)) +
        Machine.tally forfeited (trace after future) := by
  have success : step (Machine.run step s past) (.instruction (.addFee a amount)) = .ok after :=
    added
  have last : run s (past ++ .instruction (.addFee a amount) :: future) = run after future := by
    rw [run, Machine.run_append, Machine.run_cons, Machine.exec_of_ok success]
    rfl
  have events : trace s (past ++ .instruction (.addFee a amount) :: future) =
      trace s past ++
        ⟨run s past, .instruction (.addFee a amount), after⟩ :: trace after future := by
    rw [trace, Machine.trace_append, Machine.trace_cons_of_ok _ success]
    rfl
  have now := tame _ (by rw [events]; exact List.mem_append_right _ List.mem_cons_self)
  have before : ∀ event ∈ trace s past, Tame event := by
    intro event member
    exact tame event (by rw [events]; exact List.mem_append_left _ member)
  refine ⟨?_, ?_⟩
  · rw [← last]
    exact owed_le_balance genesis _ tame
  · rcases run_funded genesis past before with blank | ⟨old, pool, books, solvent⟩
    · cases process_effect added with
      | feeAdded found => cases blank.reflection.symm.trans found
    · obtain ⟨next, turn⟩ := step_turn pool books.vaulted success
      have shared := remainder_of_fee pool books solvent success now
      have moved := remainder_of_run turn.after (turn.vaulted.trans books.vaulted) future quiet
      dsimp only at moved
      omega

namespace Sample

/-- Two have entered. -/
def joined : List Action := [init, enter 100, enterOther 300]

/-- They share a fee of eleven tokens. -/
def paidIn : State := run (joined ++ [addFee 11])

/-- One of them claims, and the other one leaves without a claim. -/
def remaining : List Action :=
  [claim 100, .instruction (.close ⟨.rewardsReflection, pda.nosanaRewards payer, payer⟩)]

end Sample

/-- One token is lost to rounding, and eight are given up: nine are left for the next fee. -/
theorem fees_reach_stakers_sample :
    (Rewards.run Sample.paidIn Sample.remaining).tokens.balance vault = 9 ∧
      9 ≤ (Rewards.run Sample.paidIn Sample.remaining).owed + Sample.paidIn.rewards.keys.card +
        (donations (Sample.trace Sample.joined) +
          donations (Rewards.trace Sample.paidIn Sample.remaining)) +
        Machine.tally forfeited (Rewards.trace Sample.paidIn Sample.remaining) := by
  have left : (Rewards.run Sample.paidIn Sample.remaining).tokens.balance vault = 9 := by
    decide +kernel
  have quiet : ∀ event ∈ Rewards.trace Sample.paidIn Sample.remaining, ∀ a amount,
      event.action ≠ .instruction (.addFee a amount) := by
    intro event member a amount fee
    have inside := Machine.action_mem member
    rw [fee] at inside
    rcases List.mem_pair.mp inside with other | other <;> cases other
  have reached := @fees_reach_stakers _ Sample.paidIn Sample.genesis Sample.joined Sample.remaining
    ⟨Sample.wallet Sample.payer, .rewardsReflection, Sample.vault, Sample.payer⟩ 11 rfl
    (by decide +kernel) quiet
  exact ⟨left, left ▸ reached.2⟩

end Nosana.Rewards
