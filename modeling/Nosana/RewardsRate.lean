import Nosana.RewardsBookkeeping

set_option autoImplicit false

/- When the rate of the pool stays positive. -/
namespace Nosana.Rewards

open Checked

/-- The rate of the pool is positive; so no pending reward is divided by zero, and whoever
enters with tokens gets reflection for them. -/
structure Alive (s : State) (reflection : ReflectionAccount) : Prop where
  positive : 0 < reflection.rate
  divides : ∀ reward : RewardAccount,
    reward.getAmount reflection.rate ≠ .error (.panic .divideByZero)
  enters : ∀ a s', enter s a = .ok s' → 0 < a.stake.xnos →
    ∃ reward, s'.rewards.lookup a.reward = some reward ∧ 0 < reward.reflection

/-- A fee is no more than what the reflection of the pool can carry: together with the
tokens already in the pool it is at most the total reflection. -/
def Carried (event : Event) : Prop :=
  match event.action with
  | .instruction (.addFee _ amount) => ∀ old ∈ event.before.reflection,
      old.totalXnos + amount ≤ old.totalReflection
  | _ => True

instance (event : Event) : Decidable (Carried event) := by
  unfold Carried
  exact Action.decidableAddFee _ _

/-- The rate is positive once the program is initialized. -/
def RatePositive (s : State) : Prop := ∀ reflection ∈ s.reflection, 0 < reflection.rate

theorem Alive.of_positive {s : State} {reflection : ReflectionAccount}
    (present : s.reflection = some reflection) (positive : 0 < reflection.rate) :
    Alive s reflection := by
  refine ⟨positive, fun reward failed => ?_, fun a s' success some => ?_⟩
  · simp only [RewardAccount.getAmount, div, sub, bind_eq_error, checked_eq_error,
      fault_eq_panic] at failed
    rcases failed with ⟨zero, -⟩ | ⟨_, -, -, other⟩
    · exact zero (Nat.ne_of_gt positive)
    · cases other
  · cases enter_effect success with
    | @entered _ _ _ points found _ _ _ _ entered =>
        cases present.symm.trans found
        obtain ⟨bought, -⟩ := addRewardsAccount_eq_ok entered
        refine ⟨_, Finmap.lookup_insert _, ?_⟩
        show 0 < points
        rw [bought]
        exact Nat.mul_pos some positive

/-- What a fee makes of the rate. -/
theorem addFee_rate {s s' : State} {a : Accounts.AddFee} {amount : Nat}
    (success : addFee s a amount = .ok s') :
    ∃ old next, s.reflection = some old ∧ s'.reflection = some next ∧
      0 < old.totalXnos + amount ∧
      next.rate = old.totalReflection / (old.totalXnos + amount) := by
  cases addFee_effect success with
  | @feeAdded _ _ old _ _ found _ _ paid =>
      obtain ⟨-, some, rfl⟩ := addFee_eq_ok.mp paid
      exact ⟨old, _, found, rfl, Nat.pos_of_ne_zero some, rfl⟩

/-- A fee that leaves a positive rate was carried. -/
theorem carried_of_positive {event : Event} (success : step event.before event.action =
    .ok event.after) (positive : RatePositive event.after) : Carried event := by
  unfold Carried
  split
  · rename_i a amount fee
    rw [fee] at success
    obtain ⟨old, next, before, after, some, rate⟩ := addFee_rate success
    intro other present
    cases before.symm.trans present
    have above := positive next after
    rw [rate] at above
    exact (Nat.div_pos_iff.mp above).2
  · trivial

theorem Turn.positive {event : Event} {old next : ReflectionAccount} (turn : Turn event old next)
    (present : event.before.reflection = some old) (positive : 0 < old.rate)
    (carried : Carried event) (success : step event.before event.action = .ok event.after) :
    0 < next.rate := by
  have rated := turn.rated
  unfold rateAfter at rated
  unfold Carried at carried
  split at rated
  · rename_i a amount fee
    rw [fee] at carried success
    obtain ⟨other, _, before, _, some, _⟩ := addFee_rate success
    cases before.symm.trans present
    rw [rated]
    exact Nat.div_pos (carried old present) some
  · rw [rated]
    exact positive

/-- The rate is positive in every state of a run whose fees are all carried. -/
theorem reached_positive {s : State} (genesis : Genesis s) (actions : List Action)
    (carried : ∀ event ∈ trace s actions, Carried event) :
    ∀ state ∈ reached s actions, RatePositive state := by
  have start : RatePositive s := by
    intro reflection present
    rw [genesis.reflection] at present
    cases present
  have next : ∀ past state action after, Kept past state ∧ RatePositive state →
      step state action = .ok after → Carried ⟨state, action, after⟩ →
      Kept (past ++ [⟨state, action, after⟩]) after ∧ RatePositive after := by
    intro past state action after before success now
    have ⟨kept, positive⟩ := before
    refine ⟨kept.next success, fun reflection present => ?_⟩
    rcases kept with blank | ⟨old, before, books⟩
    · rcases blank.next success with ⟨absent, -⟩ | ⟨fresh, opened, rate, -⟩
      · rw [absent] at present
        cases present
      · cases opened.symm.trans present
        rw [rate]
        exact ReflectionAccount.initialRate_pos
    · obtain ⟨next, turn⟩ := step_turn before books.vaulted success
      cases turn.after.symm.trans present
      exact turn.positive before (positive old before) now success
  intro state member
  obtain ⟨past, -, positive⟩ := Machine.guarded_reached Carried
    (P := fun past state => Kept past state ∧ RatePositive state) ⟨genesis.kept, start⟩ next actions
    carried state member
  exact positive

/-- The rate stays positive in every state of a run, and with it the pool stays usable,
exactly when every fee is carried by the reflection of the pool it is added to. -/
theorem rate_positive_iff_fees_carried {s : State} (genesis : Genesis s) (actions : List Action) :
    (∀ state ∈ reached s actions, ∀ reflection ∈ state.reflection, Alive state reflection) ↔
      ∀ event ∈ trace s actions, Carried event := by
  constructor
  · intro always event member
    have alive := (Machine.forall_reached.mp always).2 event member
    exact carried_of_positive (Machine.mem_trace_step member) fun reflection present =>
      (alive reflection present).positive
  · intro carried state member reflection present
    exact .of_positive present (reached_positive genesis actions carried state member reflection
      present)

theorem rate_positive_iff_fees_carried_sample :
    (∀ state ∈ reached Sample.start Sample.rewarding, ∀ reflection ∈ state.reflection,
      Alive state reflection) ↔ ∀ event ∈ trace Sample.start Sample.rewarding, Carried event :=
  rate_positive_iff_fees_carried Sample.genesis Sample.rewarding

/-- A fee that is added before anybody has entered makes the rate zero. -/
theorem first_fee_zeroes_rate :
    ¬ ∀ state ∈ reached Sample.start [Sample.init, Sample.addFee 1],
      ∀ reflection ∈ state.reflection, Alive state reflection := by
  intro alive
  have last : ∃ state ∈ reached Sample.start [Sample.init, Sample.addFee 1],
      ∃ reflection ∈ state.reflection, reflection.rate = 0 := by decide +kernel
  obtain ⟨state, member, reflection, present, zero⟩ := last
  have positive := (alive state member reflection present).positive
  omega

end Nosana.Rewards
