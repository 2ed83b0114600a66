import Nosana.StakingInvariant

set_option autoImplicit false

/- How much `xnos` a stake gives, and what the operations on the stake do to it. -/
namespace Nosana.Staking

open Checked

/-! The multiple of the amount -/

namespace StakeAccount

/-- The amount times one and the duration in units of `xnosDiv`, rounded down once. -/
def expected (self : StakeAccount) : Nat := self.amount * (xnosDiv + self.duration) / xnosDiv

structure LinearMultiple (self : StakeAccount) (xnos : Nat) : Prop where
  close : xnos = self.expected ∨ xnos = self.expected - 1
  least : self.amount ≤ xnos
  most : xnos ≤ 4 * self.amount

variable {self other : StakeAccount}

theorem weight_of_staked (staked : self.timeUnstake = 0) :
    self.weight = Multiple.scaled xnosPrecision xnosDiv self.duration self.amount := by
  rw [weight, if_neg (not_not_intro staked)]
  rfl

theorem Bounded.linearMultiple (bounded : self.Bounded) (staked : self.timeUnstake = 0) :
    self.LinearMultiple self.weight := by
  have fine : 0 < xnosPrecision := by decide
  have some : 0 < xnosDiv := by decide
  have within : self.amount ≤ xnosPrecision := bounded.supplied.trans (by decide)
  have short : self.duration ≤ 3 * xnosDiv := bounded.longest.trans (by decide)
  have below : Multiple.scaled xnosPrecision xnosDiv self.duration self.amount ≤ self.expected :=
    Multiple.scaled_le_exact fine some
  have above :
      self.expected ≤ Multiple.scaled xnosPrecision xnosDiv self.duration self.amount + 1 :=
    Multiple.exact_le_scaled_succ fine some within
  rw [weight_of_staked staked]
  exact ⟨by omega, Multiple.amount_le_scaled fine, Multiple.scaled_le_mul fine some short⟩

theorem updateXnos_xnos {next : StakeAccount} (success : self.updateXnos = .ok next) :
    next.xnos = self.weight := by
  have fresh := cached_of_updateXnos success
  obtain ⟨xnos, rfl⟩ := updateXnos_eq_ok success
  exact fresh

/-- A larger and longer stake weighs no less. -/
theorem weight_mono (active : other.timeUnstake ≠ 0 → self.timeUnstake ≠ 0)
    (duration : self.duration ≤ other.duration) (amount : self.amount ≤ other.amount) :
    self.weight ≤ other.weight := by
  by_cases staked : self.timeUnstake = 0
  · have same : other.timeUnstake = 0 := by
      by_contra unstaked
      exact active unstaked staked
    rw [weight_of_staked staked, weight_of_staked same]
    exact Multiple.scaled_mono (by decide) duration amount
  · rw [weight, if_pos staked]
    exact Nat.zero_le _

/-- Two stakes of the same duration weigh no more than one of their sum. -/
theorem weight_add_le (staked : self.timeUnstake = 0) {first second : Nat}
    (total : first + second = self.amount) :
    ({ self with amount := first } : StakeAccount).weight +
      ({ self with amount := second } : StakeAccount).weight ≤ self.weight := by
  rw [@weight_of_staked { self with amount := first } staked,
    @weight_of_staked { self with amount := second } staked, weight_of_staked staked, ← total]
  exact Multiple.scaled_add_le (by decide) first second

end StakeAccount

/-! The operations -/

def Action.tops (key : Pubkey) : Action → Bool
  | .instruction (.topup a _) => a.stake == key
  | _ => false

def Action.extends (key : Pubkey) : Action → Bool
  | .instruction (.extend a _) => a.stake == key
  | _ => false

def Action.slashes (key : Pubkey) : Action → Bool
  | .instruction (.slash a _) => a.stake == key
  | _ => false

def Action.closes (key : Pubkey) : Action → Bool
  | .instruction (.close a) => a.stake == key
  | _ => false

def Action.withdraws (key : Pubkey) : Action → Bool
  | .instruction (.withdraw a) => a.stake == key
  | _ => false

def Action.restakes (key : Pubkey) : Action → Bool
  | .instruction (.restake a) => a.stake == key
  | _ => false

/-- Tokens come into the vault of a stake, and not by a topup of the stake. -/
def Outside (key : Pubkey) (event : Event) : Prop :=
  event.action.tops key = false ∧ ∃ stake ∈ event.before.stakes.lookup key,
    event.before.tokens.balance stake.vault < event.after.tokens.balance stake.vault

instance (key : Pubkey) (event : Event) : Decidable (Outside key event) :=
  inferInstanceAs (Decidable (_ ∧ _))

section

variable {s s' : State} {key : Pubkey} {stake next : StakeAccount} {action : Action}

/-- A topup of a stake adds the same to its amount and to its vault. -/
theorem topup_step (present : s.stakes.lookup key = some stake)
    (tops : action.tops key = true) (success : step s action = .ok s') :
    ∃ amount xnos, s'.stakes.lookup key =
        some { stake with amount := stake.amount + amount, xnos := xnos } ∧
      s'.tokens.balance stake.vault = s.tokens.balance stake.vault + amount := by
  cases step_effect success with
  | @topup a amount other xnos tokens found staked apart signed paid =>
      have same : a.stake = key := beq_iff_eq.mp tops
      rw [← same] at present ⊢
      cases present.symm.trans found
      exact ⟨amount, xnos, Finmap.lookup_insert _, Tokens.balance_destination paid apart⟩
  | settings plain => rcases plain with ⟨_, rfl⟩ | ⟨_, rfl⟩ <;> cases tops
  | _ => cases tops

theorem extend_step (present : s.stakes.lookup key = some stake)
    (extended : action.extends key = true) (success : step s action = .ok s') :
    ∃ duration xnos, s'.stakes.lookup key =
      some { stake with duration := stake.duration + duration, xnos := xnos } := by
  cases step_effect success with
  | @extend a duration other xnos found staked longest =>
      have same : a.stake = key := beq_iff_eq.mp extended
      rw [← same] at present ⊢
      cases present.symm.trans found
      exact ⟨duration, xnos, Finmap.lookup_insert _⟩
  | settings plain => rcases plain with ⟨_, rfl⟩ | ⟨_, rfl⟩ <;> cases extended
  | _ => cases extended

theorem slash_step (present : s.stakes.lookup key = some stake)
    (slashes : action.slashes key = true) (success : step s action = .ok s') :
    ∃ amount xnos, s'.stakes.lookup key =
      some { stake with amount := stake.amount - amount, xnos := xnos } := by
  cases step_effect success with
  | @slash a amount other xnos tokens found apart enough paid =>
      have same : a.stake = key := beq_iff_eq.mp slashes
      rw [← same] at present ⊢
      cases present.symm.trans found
      exact ⟨amount, xnos, Finmap.lookup_insert _⟩
  | settings plain => rcases plain with ⟨_, rfl⟩ | ⟨_, rfl⟩ <;> cases slashes
  | _ => cases slashes

theorem withdraw_step (present : s.stakes.lookup key = some stake)
    (withdraws : action.withdraws key = true) (success : step s action = .ok s') :
    s'.stakes.lookup key = some stake ∧ ∃ paid,
      stake.withdraw (s.tokens.balance stake.vault) s.clock = .ok paid ∧
        s'.tokens.balance stake.vault + paid = s.tokens.balance stake.vault := by
  cases step_effect success with
  | @withdraw a other account amount tokens found unstaked apart loaded released paid =>
      have same : a.stake = key := beq_iff_eq.mp withdraws
      rw [← same] at present ⊢
      cases present.symm.trans found
      rw [amount_eq loaded] at released
      refine ⟨present, amount, released, ?_⟩
      rcases paid with ⟨rfl, rfl⟩ | paid
      · rfl
      · exact Tokens.balance_source paid apart.symm
  | settings plain => rcases plain with ⟨_, rfl⟩ | ⟨_, rfl⟩ <;> cases withdraws
  | _ => cases withdraws

/-- A stake that is not closed is still there, and only an extension changes its duration. -/
theorem duration_step (present : s.stakes.lookup key = some stake)
    (unclosed : action.closes key = false) (success : step s action = .ok s') :
    ∃ next, s'.stakes.lookup key = some next ∧
      (action.extends key = false → next.duration = stake.duration) := by
  have written : ∀ {other : Pubkey} {old value : StakeAccount},
      s.stakes.lookup other = some old → (other = key → action.extends key = false →
        value.duration = old.duration) →
      ∃ next, (s.stakes.insert other value).lookup key = some next ∧
        (action.extends key = false → next.duration = stake.duration) := by
    intro other old value found same
    by_cases here : other = key
    · subst here
      cases present.symm.trans found
      exact ⟨value, Finmap.lookup_insert _, same rfl⟩
    · exact ⟨stake, by rw [Finmap.lookup_insert_of_ne _ (Ne.symm here), present], fun _ => rfl⟩
  cases step_effect success with
  | settings | withdraw | tick | external => exact ⟨stake, present, fun _ => rfl⟩
  | unstake found | restake found | topup found | slash found =>
      exact written found fun _ _ => rfl
  | extend found =>
      refine written found fun same kept => ?_
      simp [Action.extends, same] at kept
  | @stake a amount duration xnos tokens vaulted keyed freshVault fresh user shortest longest signed
      paid =>
      have apart : a.stake ≠ key := by
        rintro rfl
        exact fresh.2.1 (Finmap.mem_of_lookup_eq_some present)
      refine ⟨stake, ?_, fun _ => rfl⟩
      rw [Finmap.lookup_insert_of_ne _ (Ne.symm apart), present]
  | @close a other account found loaded =>
      have apart : key ≠ a.stake := by
        rintro rfl
        simp [Action.closes] at unclosed
      exact ⟨stake, by rw [Finmap.lookup_erase_ne apart, present], fun _ => rfl⟩

/-- Topping a stake up and extending it do not lower its `xnos`. -/
theorem xnos_raised (cached : AllCached s) (success : step s action = .ok s')
    (present : s.stakes.lookup key = some stake) (after : s'.stakes.lookup key = some next)
    (raises : action.tops key = true ∨ action.extends key = true) : stake.xnos ≤ next.xnos := by
  rw [cached key stake present, cached_step cached success key next after]
  rcases raises with tops | extended
  · obtain ⟨amount, xnos, same, -⟩ := topup_step present tops success
    cases after.symm.trans same
    exact StakeAccount.weight_mono id (le_refl _) (Nat.le_add_right _ _)
  · obtain ⟨duration, xnos, same⟩ := extend_step present extended success
    cases after.symm.trans same
    exact StakeAccount.weight_mono id (Nat.le_add_right _ _) (le_refl _)

/-- Slashing a stake does not raise its `xnos`. -/
theorem xnos_slashed (cached : AllCached s) (success : step s action = .ok s')
    (present : s.stakes.lookup key = some stake) (after : s'.stakes.lookup key = some next)
    (slashes : action.slashes key = true) : next.xnos ≤ stake.xnos := by
  rw [cached key stake present, cached_step cached success key next after]
  obtain ⟨amount, xnos, same⟩ := slash_step present slashes success
  cases after.symm.trans same
  exact StakeAccount.weight_mono id (le_refl _) (Nat.sub_le _ _)

/-! What is in the vault -/

/-- The stake is as long as it was at first, and its amount is not more than it was then. -/
def Unraised (first : StakeAccount) (key : Pubkey) (s : State) : Prop :=
  ∃ stake, s.stakes.lookup key = some stake ∧ stake.duration = first.duration ∧
    stake.amount ≤ first.amount

/-- Nor is there more in the vault. -/
def Within (first : StakeAccount) (key : Pubkey) (s : State) : Prop :=
  ∃ stake, s.stakes.lookup key = some stake ∧ stake.duration = first.duration ∧
    stake.amount ≤ first.amount ∧ s.tokens.balance stake.vault ≤ first.amount

theorem Within.unraised {first : StakeAccount} (within : Within first key s) :
    Unraised first key s := by
  obtain ⟨stake, present, duration, amount, -⟩ := within
  exact ⟨stake, present, duration, amount⟩

/-- A vault only grows by a topup, if nobody else sends tokens to it. -/
theorem balance_le_of_inside (present : s.stakes.lookup key = some stake)
    (quiet : action.tops key = false) (inside : ¬ Outside key ⟨s, action, s'⟩) :
    s'.tokens.balance stake.vault ≤ s.tokens.balance stake.vault := by
  by_contra more
  exact inside ⟨quiet, stake, present, Nat.lt_of_not_le more⟩

theorem within_step {first : StakeAccount} (sound : Sound s) (within : Within first key s)
    (success : step s action = .ok s') (unclosed : action.closes key = false)
    (kept : action.extends key = false) (quiet : action.tops key = false)
    (inside : ¬ Outside key ⟨s, action, s'⟩) : Within first key s' := by
  obtain ⟨stake, present, duration, amount, held⟩ := within
  obtain ⟨next, after, same⟩ := duration_step present unclosed success
  have less := (balance_le_of_inside present quiet inside).trans held
  have turn := (step_turn sound present success).resolve_left (by rw [after]; exact nofun)
  refine ⟨next, after, (same kept).trans duration, ?_⟩
  cases turn with
  | kept same | unstaked _ _ _ same | extended _ _ same | withdrawn same =>
      cases after.symm.trans same
      exact ⟨amount, less⟩
  | restaked _ _ same balance =>
      cases after.symm.trans same
      exact ⟨held, less⟩
  | @raised more xnos _ same balance =>
      cases after.symm.trans same
      have nothing := balance_le_of_inside present quiet inside
      simp only at balance
      have none : more = 0 := by omega
      subst none
      exact ⟨amount, less⟩
  | slashed _ _ _ same =>
      cases after.symm.trans same
      exact ⟨(Nat.sub_le _ _).trans amount, less⟩

/-- Only restaking writes what is in the vault as the amount. -/
theorem unraised_step {first : StakeAccount} (sound : Sound s) (unraised : Unraised first key s)
    (success : step s action = .ok s') (unclosed : action.closes key = false)
    (kept : action.extends key = false) (quiet : action.tops key = false)
    (inside : ¬ Outside key ⟨s, action, s'⟩) (unrestaked : action.restakes key = false) :
    Unraised first key s' := by
  obtain ⟨stake, present, duration, amount⟩ := unraised
  obtain ⟨next, after, same⟩ := duration_step present unclosed success
  refine ⟨next, after, (same kept).trans duration, ?_⟩
  have turn := (step_turn sound present success).resolve_left (by rw [after]; exact nofun)
  cases turn with
  | kept same | unstaked _ _ _ same | extended _ _ same | withdrawn same =>
      cases after.symm.trans same
      exact amount
  | restaked restakes own =>
      simp only at restakes
      simp [restakes, own, Action.restakes] at unrestaked
  | @raised more xnos _ same balance =>
      cases after.symm.trans same
      have nothing := balance_le_of_inside present quiet inside
      simp only at balance
      show stake.amount + more ≤ first.amount
      omega
  | slashed _ _ _ same =>
      cases after.symm.trans same
      exact (Nat.sub_le _ _).trans amount

end

section

variable {s : State}

/-- A stake may be unstaked, withdrawn from, restaked and slashed, and nobody else sends tokens to
its vault. -/
structure Cycling (key : Pubkey) (event : Event) : Prop where
  unclosed : event.action.closes key = false
  inside : ¬ Outside key event
  quiet : event.action.tops key = false
  kept : event.action.extends key = false

instance (key : Pubkey) (event : Event) : Decidable (Cycling key event) :=
  decidable_of_iff (event.action.closes key = false ∧ ¬ Outside key event ∧
      event.action.tops key = false ∧ event.action.extends key = false)
    ⟨fun ⟨unclosed, inside, quiet, kept⟩ => ⟨unclosed, inside, quiet, kept⟩,
      fun cycling => ⟨cycling.unclosed, cycling.inside, cycling.quiet, cycling.kept⟩⟩

/-- Something is withdrawn from a stake before it is restaked. -/
def WithdrawnFirst (key : Pubkey) : List Event → Prop
  | [] => True
  | event :: rest => event.action.withdraws key = true ∨
      (event.action.restakes key = false ∧ WithdrawnFirst key rest)

instance (key : Pubkey) : (events : List Event) → Decidable (WithdrawnFirst key events)
  | [] => .isTrue trivial
  | _ :: rest =>
    have := instDecidableWithdrawnFirst key rest
    inferInstanceAs (Decidable (_ ∨ (_ ∧ _)))

/-- A withdrawal goes through before the end of the duration only when there is no more in the
vault than the amount, and leaves nothing in it after. -/
theorem within_of_withdrawn {s s' : State} {action : Action} {key : Pubkey} {first : StakeAccount}
    (sound : Sound s) (unraised : Unraised first key s) (success : step s action = .ok s')
    (withdraws : action.withdraws key = true) : Within first key s' := by
  obtain ⟨stake, present, duration, amount⟩ := unraised
  obtain ⟨after, paid, released, balance⟩ := withdraw_step present withdraws success
  have standing := sound.stakes key stake present
  have timely := standing.timely sound
  refine ⟨stake, after, duration, amount, ?_⟩
  by_cases late : stake.duration ≤ stake.since s.clock
  · cases released.symm.trans (StakeAccount.withdraw_of_late timely late)
    omega
  · obtain ⟨-, below, -⟩ :=
      (standing.bounded.withdraw_eq_ok timely (Nat.lt_of_not_le late)).mp released
    omega

/-- As long as a stake is not raised it gives no more than at first. -/
theorem Unraised.xnos_le {first : StakeAccount} {key : Pubkey} (unraised : Unraised first key s)
    (cached : AllCached s) (staked : first.timeUnstake = 0) :
    ∃ next, s.stakes.lookup key = some next ∧ next.xnos ≤ first.weight := by
  obtain ⟨next, after, duration, amount⟩ := unraised
  refine ⟨next, after, ?_⟩
  rw [cached key next after]
  exact StakeAccount.weight_mono (fun unstaked => absurd staked unstaked) (le_of_eq duration) amount

/-- A stake with no more in its vault than at first is never raised again. -/
theorem xnos_within {first : StakeAccount} {key : Pubkey} (fresh : Fresh s)
    (within : Within first key s) (staked : first.timeUnstake = 0) (cycle : List Action)
    (cycling : ∀ event ∈ trace s cycle, Cycling key event) :
    ∀ state ∈ reached s cycle, ∃ next, state.stakes.lookup key = some next ∧
      next.xnos ≤ first.weight := by
  have kept := Machine.guarded_reached
    (P := fun _ state => Fresh state ∧ Within first key state) (Cycling key) ⟨fresh, within⟩
    (fun _ _ _ _ before success now => ⟨fresh_step before.1 success,
      within_step before.1.sound before.2 success now.unclosed now.kept now.quiet now.inside⟩)
    cycle cycling
  intro state member
  obtain ⟨-, later, within⟩ := kept state member
  exact within.unraised.xnos_le later.cached staked

/-- After any unstaking, withdrawing and restaking a stake gives no more than before. -/
theorem xnos_cycle {first : StakeAccount} {key : Pubkey} (staked : first.timeUnstake = 0)
    (cycle : List Action) {s : State} (fresh : Fresh s) (unraised : Unraised first key s)
    (cycling : ∀ event ∈ trace s cycle, Cycling key event)
    (withdrawn : WithdrawnFirst key (trace s cycle)) :
    ∀ state ∈ reached s cycle, ∃ next, state.stakes.lookup key = some next ∧
      next.xnos ≤ first.weight := by
  induction cycle generalizing s with
  | nil =>
      intro state member
      rw [List.mem_singleton.mp member]
      exact unraised.xnos_le fresh.cached staked
  | cons action rest ih =>
      unfold reached trace at *
      cases outcome : step s action with
      | error reason =>
          rw [Machine.reached_cons_of_error _ outcome]
          rw [Machine.trace_cons_of_error _ outcome] at cycling withdrawn
          exact ih fresh unraised cycling withdrawn
      | ok after =>
          rw [Machine.reached_cons_of_ok _ outcome, List.forall_mem_cons]
          rw [Machine.trace_cons_of_ok _ outcome] at cycling withdrawn
          obtain ⟨now, later⟩ := List.forall_mem_cons.mp cycling
          have next := fresh_step fresh outcome
          refine ⟨unraised.xnos_le fresh.cached staked, ?_⟩
          rcases withdrawn with withdraws | ⟨unrestaked, withdrawn⟩
          · exact xnos_within next (within_of_withdrawn fresh.sound unraised outcome withdraws)
              staked rest later
          · exact ih next (unraised_step fresh.sound unraised outcome now.unclosed now.kept
              now.quiet now.inside unrestaked) later withdrawn

/-- The `xnos` of an active stake is the linear multiple of its amount, at most one less for the
rounding, which a larger or longer stake does not lower and splitting the stake does not raise.
In every run topups and extensions do not lower it and slashes do not raise it. Nor does unstaking,
withdrawing and restaking, unless tokens come into the vault from outside meanwhile; without a
withdrawal, unless the vault holds more than the amount to begin with. -/
theorem xnos_is_linear_multiple (genesis : Genesis s) (actions : List Action) :
    (∀ stake : StakeAccount, stake.Bounded → stake.timeUnstake = 0 →
      ∃ next, stake.updateXnos = .ok next ∧ stake.LinearMultiple next.xnos ∧
        (∀ other lower : StakeAccount, other.timeUnstake = 0 → other.duration ≤ stake.duration →
          other.amount ≤ stake.amount → other.updateXnos = .ok lower → lower.xnos ≤ next.xnos) ∧
        ∀ first second left right, first + second = stake.amount →
          ({ stake with amount := first } : StakeAccount).updateXnos = .ok left →
          ({ stake with amount := second } : StakeAccount).updateXnos = .ok right →
          left.xnos + right.xnos ≤ next.xnos) ∧
    (∀ event ∈ trace s actions, ∀ key stake next,
      event.before.stakes.lookup key = some stake → event.after.stakes.lookup key = some next →
      (event.action.tops key = true ∨ event.action.extends key = true →
        stake.xnos ≤ next.xnos) ∧
      (event.action.slashes key = true → next.xnos ≤ stake.xnos)) ∧
    ∀ key stake, (run s actions).stakes.lookup key = some stake → stake.timeUnstake = 0 →
      ∀ cycle, (∀ event ∈ trace (run s actions) cycle, Cycling key event) →
      (WithdrawnFirst key (trace (run s actions) cycle) ∨
        (run s actions).tokens.balance stake.vault ≤ stake.amount) →
      ∀ state ∈ reached (run s actions) cycle, ∃ next,
        state.stakes.lookup key = some next ∧ next.xnos ≤ stake.xnos := by
  refine ⟨fun stake bounded staked => ?_, fun event member key stake next present after => ?_, ?_⟩
  · refine ⟨_, bounded.updateXnos_ok, bounded.linearMultiple staked, ?_, ?_⟩
    · intro other lower active duration amount success
      rw [StakeAccount.updateXnos_xnos success]
      exact StakeAccount.weight_mono (fun unstaked => absurd staked unstaked) duration amount
    · intro first second left right total leftSuccess rightSuccess
      rw [StakeAccount.updateXnos_xnos leftSuccess, StakeAccount.updateXnos_xnos rightSuccess]
      exact StakeAccount.weight_add_le staked total
  · have success := Machine.mem_trace_step member
    have cached := (Machine.trace_invariant genesis.fresh (fun _ _ _ => fresh_step) actions event
      member).1.cached
    exact ⟨xnos_raised cached success present after, xnos_slashed cached success present after⟩
  · intro key stake present staked cycle cycling withdrawn
    have opened : Fresh (run s actions) :=
      Machine.run_invariant genesis.fresh (fun _ _ _ => fresh_step) actions
    rw [opened.cached key stake present]
    rcases withdrawn with withdrawn | held
    · exact xnos_cycle staked cycle opened ⟨stake, present, rfl, le_refl _⟩ cycling withdrawn
    · exact xnos_within opened ⟨stake, present, rfl, le_refl _, held⟩ staked cycle cycling

end

namespace Sample

def restake : Action := .instruction (.restake ⟨vault, account, staker⟩)

/-- Half of the stake is withdrawn, and the rest is staked again. -/
def cycle : List Action := [unstake, .tick (100 + 7 * 24 * 60 * 60), withdraw, restake]

def staked : State := Sample.run [stake 600 StakeAccount.durationMin]

def active : StakeAccount := ⟨600, staker, StakeAccount.durationMin, 0, vault, 669⟩

end Sample

theorem xnos_is_linear_multiple_sample :
    ∃ next, (run Sample.staked Sample.cycle).stakes.lookup Sample.account = some next ∧
      next.xnos ≤ 669 := by
  have present : Sample.staked.stakes.lookup Sample.account = some Sample.active := by
    decide +kernel
  have cycling : ∀ event ∈ trace Sample.staked Sample.cycle, Cycling Sample.account event := by
    decide +kernel
  have withdrawn : WithdrawnFirst Sample.account (trace Sample.staked Sample.cycle) := by
    decide +kernel
  exact (xnos_is_linear_multiple Sample.genesis
    [Sample.stake 600 StakeAccount.durationMin]).2.2 Sample.account Sample.active present rfl
    Sample.cycle cycling (Or.inl withdrawn) _ (Machine.run_mem_reached _ _)

end Nosana.Staking
