import Nosana.RewardsPool

set_option autoImplicit false

/- The totals of the pool are what its accounts and its history add up to. -/
namespace Nosana.Rewards

open Checked

/-- All fees that a history added. -/
def fees (history : List Event) : Nat := (history.map feesAdded).sum

/-- All rewards that a history paid out. -/
def payouts (history : List Event) : Nat := (history.map paidOut).sum

/-- All tokens that others put into the vault. -/
def donations (history : List Event) : Nat := (history.map donated).sum

theorem fees_concat (past : List Event) (event : Event) :
    fees (past ++ [event]) = fees past + feesAdded event := by
  simp [fees]

theorem payouts_concat (past : List Event) (event : Event) :
    payouts (past ++ [event]) = payouts past + paidOut event := by
  simp [payouts]

theorem donations_concat (past : List Event) (event : Event) :
    donations (past ++ [event]) = donations past + donated event := by
  simp [donations]

/-- The reflection that the reward accounts hold. -/
def State.reflections (s : State) : Nat := s.rewards.total fun _ reward => reward.reflection

/-- The tokens that the reward accounts entered with. -/
def State.xnos (s : State) : Nat := s.rewards.total fun _ reward => reward.xnos

/-- The books of a pool: its points are those of its accounts, and its vault holds what
was paid in, less what was paid out. -/
structure Books (history : List Event) (reflection : ReflectionAccount) (s : State) : Prop where
  vaulted : reflection.vault = vault
  points : (reflection.pool s.rewards).totalPoints = (reflection.pool s.rewards).held
  value : reflection.totalXnos + payouts history =
    (reflection.pool s.rewards).principals + fees history
  balance : s.tokens.balance vault + payouts history = fees history + donations history

theorem Books.next {past : List Event} {event : Event} {old next : ReflectionAccount}
    (books : Books past old event.before) (turn : Turn event old next) :
    Books (past ++ [event]) next event.after := by
  have ⟨after, vaulted, rated, move, moved⟩ := turn
  have flow := move.flow
  have ⟨homed, points, value, balance⟩ := books
  refine ⟨vaulted.trans homed, move.held points, ?_, ?_⟩
  · rw [payouts_concat, fees_concat]
    show next.totalXnos + _ = (next.pool event.after.rewards).principals + _
    change next.totalXnos + _ + _ = old.totalXnos + _ + _ at flow
    omega
  · rw [payouts_concat, fees_concat, donations_concat]
    omega

/-- What an account holds is part of the total. -/
theorem Books.reflection_le {history : List Event} {reflection : ReflectionAccount} {s : State}
    (books : Books history reflection s) {key : Pubkey} {reward : RewardAccount}
    (present : s.rewards.lookup key = some reward) :
    reward.reflection ≤ reflection.totalReflection := by
  have owned := Finmap.le_total (fun (_ : Pubkey) (reward : RewardAccount) => reward.reflection)
    s.rewards key reward present fun _ _ _ => Nat.zero_le _
  have points := books.points
  change reflection.totalReflection = _ at points
  rw [points]
  exact owned

/-- The program before its initialization. -/
structure Blank (history : List Event) (s : State) : Prop where
  reflection : s.reflection = none
  rewards : s.rewards = ∅
  unopened : s.tokens.lookup vault = none
  unpaid : fees history = 0 ∧ payouts history = 0 ∧ donations history = 0

theorem Genesis.blank {s : State} (genesis : Genesis s) : Blank [] s :=
  ⟨genesis.reflection, genesis.rewards, genesis.vaults vault rfl, rfl, rfl, rfl⟩

/-- Only the initialization succeeds on a program that is not initialized. -/
theorem init_of_absent {s s' : State} {ix : Instruction} (absent : s.reflection = none)
    (success : process s ix = .ok s') : ∃ a, ix = .init a := by
  cases process_effect success with
  | @opened a => exact ⟨a, rfl⟩
  | entered found | feeAdded found | synced found | closed found => cases absent.symm.trans found
  | claimedNothing claims | claimed claims => cases absent.symm.trans claims.found

/-- Before its initialization the program does nothing else. -/
theorem Blank.next {past : List Event} {s s' : State} {action : Action} (blank : Blank past s)
    (success : step s action = .ok s') :
    Blank (past ++ [⟨s, action, s'⟩]) s' ∨
      ∃ reflection, s'.reflection = some reflection ∧
        reflection.rate = ReflectionAccount.initialRate ∧ s'.rewards = ∅ ∧
        Books (past ++ [⟨s, action, s'⟩]) reflection s' := by
  have ⟨absent, nobody, unopened, nothing, unpaid, undonated⟩ := blank
  cases action with
  | external tokens =>
      simp only [step, bind_eq_ok, require_eq_ok, pure_eq_ok, exists_const] at success
      obtain ⟨external, rfl⟩ := success
      have still : tokens.lookup vault = none := by
        have kind : (tokens.lookup vault).map TokenAccount.kind =
            (s.tokens.lookup vault).map TokenAccount.kind := external.kind_eq rfl
        rw [unopened] at kind
        exact Option.map_eq_none_iff.mp kind
      refine Or.inl ⟨absent, nobody, still, ?_⟩
      rw [fees_concat, payouts_concat, donations_concat, nothing, unpaid, undonated]
      refine ⟨rfl, rfl, ?_⟩
      show 0 + (tokens.balance vault - s.tokens.balance vault) = 0
      rw [Tokens.balance_of_absent still]
      omega
  | instruction ix =>
      obtain ⟨a, rfl⟩ := init_of_absent absent success
      obtain ⟨-, -, mint, derived, -⟩ := init_effect success
      rw [mint] at derived
      refine Or.inr ⟨_, rfl, rfl, nobody, derived, ?_, ?_, ?_⟩
      · show 0 = Finmap.total _ s.rewards
        rw [nobody]
        rfl
      · rw [fees_concat, payouts_concat, nothing, unpaid]
        show 0 + 0 = Finmap.total _ s.rewards + 0
        rw [nobody]
        rfl
      · rw [fees_concat, payouts_concat, donations_concat, nothing, unpaid, undonated, derived]
        show Tokens.balance (s.tokens.insert vault (.holding a.mint vault 0)) vault + 0 = 0
        rw [Tokens.balance_of_lookup (Finmap.lookup_insert _)]

/-- What holds of every run: the program is not initialized, or its books are right. -/
def Kept (history : List Event) (s : State) : Prop :=
  Blank history s ∨ ∃ reflection, s.reflection = some reflection ∧ Books history reflection s

theorem Genesis.kept {s : State} (genesis : Genesis s) : Kept [] s := Or.inl genesis.blank

theorem Kept.next {past : List Event} {s s' : State} {action : Action} (kept : Kept past s)
    (success : step s action = .ok s') : Kept (past ++ [⟨s, action, s'⟩]) s' := by
  rcases kept with blank | ⟨old, present, books⟩
  · rcases blank.next success with still | ⟨reflection, opened, -, -, books⟩
    · exact Or.inl still
    · exact Or.inr ⟨reflection, opened, books⟩
  · obtain ⟨next, turn⟩ := step_turn present books.vaulted success
    exact Or.inr ⟨next, turn.after, books.next turn⟩

theorem run_kept {s : State} (genesis : Genesis s) (actions : List Action) :
    Kept (trace s actions) (run s actions) :=
  Machine.run_induction (P := Kept) genesis.kept
    (fun _ _ _ _ kept success => kept.next success) actions

theorem run_books {s : State} (genesis : Genesis s) (actions : List Action)
    {reflection : ReflectionAccount} (present : (run s actions).reflection = some reflection) :
    Books (trace s actions) reflection (run s actions) := by
  rcases run_kept genesis actions with blank | ⟨other, found, books⟩
  · rw [blank.reflection] at present
    cases present
  · cases found.symm.trans present
    exact books

/-- Without donations no event puts anything else into the vault. -/
theorem donations_eq_zero {history : List Event} (none : ∀ event ∈ history, donated event = 0) :
    donations history = 0 := by
  unfold donations
  rw [List.sum_eq_zero_iff]
  intro amount member
  obtain ⟨event, inside, rfl⟩ := List.mem_map.mp member
  exact none event inside

/-- In every state of every run the totals are exact: all reflection is that of the
accounts, the tokens are those of the accounts and the fees less the rewards paid out, and
the vault covers what is not the accounts' own. -/
theorem bookkeeping_exact {s : State} (genesis : Genesis s) (actions : List Action)
    {reflection : ReflectionAccount} (present : (run s actions).reflection = some reflection) :
    reflection.totalReflection = (run s actions).reflections ∧
    (reflection.totalXnos : Int) =
      (run s actions).xnos + fees (trace s actions) - payouts (trace s actions) ∧
    ((reflection.totalXnos : Int) - (run s actions).xnos ≤
      (run s actions).tokens.balance reflection.vault) ∧
    ((∀ event ∈ trace s actions, donated event = 0) →
      ((run s actions).tokens.balance reflection.vault : Int) =
        reflection.totalXnos - (run s actions).xnos) := by
  have ⟨vaulted, points, value, balance⟩ := run_books genesis actions present
  rw [vaulted]
  change _ = (run s actions).xnos + _ at value
  refine ⟨points, by omega, by omega, fun none => ?_⟩
  have nothing := donations_eq_zero none
  omega

theorem bookkeeping_exact_sample :
    ∃ reflection, (Sample.run Sample.rewarding).reflection = some reflection ∧
      reflection.totalReflection = (Sample.run Sample.rewarding).reflections ∧
      (reflection.totalXnos : Int) = (Sample.run Sample.rewarding).xnos + 10 - 10 := by
  cases present : (Sample.run Sample.rewarding).reflection with
  | none => exact absurd present (by decide +kernel)
  | some reflection =>
      have ⟨points, value, _⟩ := bookkeeping_exact Sample.genesis Sample.rewarding present
      have added : fees (trace Sample.start Sample.rewarding) = 10 := by decide +kernel
      have paid : payouts (trace Sample.start Sample.rewarding) = 10 := by decide +kernel
      rw [added, paid] at value
      exact ⟨reflection, rfl, points, value⟩

end Nosana.Rewards
