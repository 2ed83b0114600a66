import Nosana.StakingLifecycle

set_option autoImplicit false

/- When a staker can always withdraw what has been released. -/
namespace Nosana.Staking

open Checked

/-- From now on a withdrawal from the vault of a stake computes an amount that the vault has,
and the instruction pays it to any other account of the token. -/
def Withdrawable (s : State) (key : Pubkey) (stake : StakeAccount) : Prop :=
  ∀ now, s.clock ≤ now → Signed 64 now →
    ∃ paid, paid ≤ s.tokens.balance stake.vault ∧
      stake.withdraw (s.tokens.balance stake.vault) now = .ok paid ∧
      ∀ a account, a.stake = key → withdrawConstraints s a = .ok (account, stake) →
        (s.tokens.lookup a.user).map TokenAccount.mint = some id.nosToken →
        ∃ s', withdraw { s with clock := now } a = .ok s' ∧
          s'.tokens.balance stake.vault + paid = s.tokens.balance stake.vault

/-- Every stake that is unstaked, and whose vault is not empty, can be withdrawn from. -/
def AllWithdrawable (s : State) : Prop :=
  ∀ key stake, s.stakes.lookup key = some stake → stake.timeUnstake ≠ 0 →
    0 < s.tokens.balance stake.vault → Withdrawable s key stake

/-- A stake is unstaked when its vault holds no more than its amount, and a slash of an
unstaked stake, unless it empties the vault, leaves an amount of which enough is released to
cover what was withdrawn. -/
def Action.Sustains (s : State) : Action → Prop
  | .instruction (.unstake a) => ∀ stake ∈ s.stakes.lookup a.stake,
      s.tokens.balance stake.vault ≤ stake.amount
  | .instruction (.slash a amount) => ∀ stake ∈ s.stakes.lookup a.stake, stake.timeUnstake ≠ 0 →
      amount < s.tokens.balance stake.vault →
      StakeAccount.Covered { stake with amount := stake.amount - amount }
        (s.tokens.balance stake.vault - amount) (stake.since s.clock)
  | _ => True

instance (s : State) (action : Action) : Decidable (action.Sustains s) := by
  unfold Action.Sustains
  split <;> infer_instance

/-- Tokens that come into the vault of an unstaked stake do not lift it above the amount of
the stake, before the end of its duration. -/
def Contained (event : Event) : Prop :=
  ∀ key ∈ event.before.stakes.keys, ∀ stake ∈ event.before.stakes.lookup key,
    stake.timeUnstake ≠ 0 →
    event.before.tokens.balance stake.vault < event.after.tokens.balance stake.vault →
    stake.Covered (event.after.tokens.balance stake.vault) (stake.since event.before.clock)

instance (event : Event) : Decidable (Contained event) := by
  unfold Contained
  infer_instance

/-- The stake is unstaked, and its duration is not over. -/
def StakeAccount.Vesting (self : StakeAccount) (now : Int) : Prop :=
  self.timeUnstake ≠ 0 ∧ self.since now < self.duration

instance (self : StakeAccount) (now : Int) : Decidable (self.Vesting now) :=
  inferInstanceAs (Decidable (_ ∧ _))

/-- The vault of an unstaked stake whose duration is not over. -/
def State.Vesting (s : State) (vault : Pubkey) : Prop :=
  ∃ key ∈ s.stakes.keys, ∃ stake ∈ s.stakes.lookup key, stake.vault = vault ∧ stake.Vesting s.clock

instance (s : State) (vault : Pubkey) : Decidable (s.Vesting vault) := by
  unfold State.Vesting
  infer_instance

/-- What may happen to the vaults of unstaked stakes, apart from withdrawals. A stake is unstaked
when its vault holds no more than its amount. Before its duration is over, a slash comes before
anything has been withdrawn, or it empties the vault; and tokens are sent to the vault only by
others, if there are still some in it, and up to the amount of the stake. -/
def Action.Orderly (s : State) : Action → Prop
  | .instruction (.unstake a) => ∀ stake ∈ s.stakes.lookup a.stake,
      s.tokens.balance stake.vault ≤ stake.amount
  | .instruction (.slash a amount) => (∀ stake ∈ s.stakes.lookup a.stake,
      stake.Vesting s.clock → stake.amount ≤ s.tokens.balance stake.vault ∨
        amount = s.tokens.balance stake.vault) ∧ ¬ s.Vesting a.tokenAccount
  | .instruction (.withdraw a) => ¬ s.Vesting a.user
  | .external tokens => ∀ key ∈ s.stakes.keys, ∀ stake ∈ s.stakes.lookup key,
      stake.Vesting s.clock → s.tokens.balance stake.vault < tokens.balance stake.vault →
        0 < s.tokens.balance stake.vault ∧ tokens.balance stake.vault ≤ stake.amount
  | _ => True

instance (s : State) (action : Action) : Decidable (action.Orderly s) := by
  unfold Action.Orderly
  split <;> infer_instance

/-! One state -/

section

variable {s : State} {key : Pubkey} {stake : StakeAccount}

/-- A withdrawal that computes an amount pays it. -/
theorem withdraw_of_released (standing : Standing s key stake)
    (supply : s.tokens.WellFormed constants.nosTotalSupply) {now : Int} {paid : Nat}
    (enough : paid ≤ s.tokens.balance stake.vault)
    (released : stake.withdraw (s.tokens.balance stake.vault) now = .ok paid)
    {a : Accounts.Withdraw} {account : TokenAccount}
    (constraints : withdrawConstraints s a = .ok (account, stake))
    (mint : (s.tokens.lookup a.user).map TokenAccount.mint = some id.nosToken) :
    ∃ s', withdraw { s with clock := now } a = .ok s' ∧
      s'.tokens.balance stake.vault + paid = s.tokens.balance stake.vault := by
  obtain ⟨present, vaulted, loaded, -, -, apart, -⟩ := withdrawConstraints_eq_ok constraints
  rw [← vaulted] at loaded apart
  obtain ⟨receiver, received, sort⟩ := Option.map_eq_some_iff.mp mint
  have kind := standing.kind
  rw [loaded] at kind
  have ⟨own, owner⟩ := Prod.mk.inj (Option.some.inj kind)
  have balance := Tokens.balance_of_lookup loaded
  rw [balance] at enough released ⊢
  have computes : ∀ s', (if 0 < paid then do
      let tokens ← transferFromVault s.tokens stake a.vault a.user paid
      return { s with clock := now, tokens := tokens }
    else return { s with clock := now } : Except Error State) = .ok s' →
      withdraw { s with clock := now } a = .ok s' := by
    intro s' success
    simp only [withdraw, bind_eq_ok, Prod.exists]
    exact ⟨account, stake, constraints, paid, released, success⟩
  by_cases some : 0 < paid
  · obtain ⟨tokens, moved⟩ := supply.pays (by decide) (by rw [standing.vaulted]; rfl)
      standing.kind received sort apart.symm (balance.symm ▸ enough)
    have left := Tokens.balance_source moved apart.symm
    rw [balance] at left
    refine ⟨{ s with clock := now, tokens := tokens }, computes _ ?_, left⟩
    rw [if_pos some, ← vaulted]
    simp only [transferFromVault, Tokens.load, bind_eq_ok, get_eq_ok, require_eq_ok, pure_eq_ok]
    refine ⟨tokens, ⟨account, loaded, (), ?_, moved⟩, rfl⟩
    rw [own]
    exact standing.vaulted
  · refine ⟨{ s with clock := now }, computes _ (if_neg some), ?_⟩
    have nothing := Nat.eq_zero_of_not_pos some
    rw [nothing]
    exact balance

/-- Every stake that is unstaked, and whose vault is not empty, is covered. -/
def AllCovered (s : State) : Prop :=
  ∀ key stake, s.stakes.lookup key = some stake → stake.timeUnstake ≠ 0 →
    0 < s.tokens.balance stake.vault →
    stake.Covered (s.tokens.balance stake.vault) (stake.since s.clock)

theorem allWithdrawable_iff (sound : Sound s) : AllWithdrawable s ↔ AllCovered s := by
  constructor
  · intro withdrawable key stake present unstaked some
    have standing := sound.stakes key stake present
    apply (standing.bounded.withdraws_iff (standing.timely sound) some).mp
    intro now later fits
    obtain ⟨paid, enough, released, -⟩ :=
      withdrawable key stake present unstaked some now later fits
    exact ⟨paid, enough, released⟩
  · intro covered key stake present unstaked some now later fits
    have standing := sound.stakes key stake present
    obtain ⟨paid, enough, released⟩ := (standing.bounded.withdraws_iff (standing.timely sound)
      some).mpr (covered key stake present unstaked some) now later fits
    refine ⟨paid, enough, released, ?_⟩
    intro a account _ constraints mint
    exact withdraw_of_released standing sound.tokens enough released constraints mint

end

/-! One step -/

section

variable {s s' : State} {action : Action}

/-- What is left after a withdrawal is covered: everything released is out. -/
theorem covered_of_withdraw {stake : StakeAccount} {balance rest paid : Nat} {now : Int}
    (bounded : stake.Bounded) (timely : stake.Timely now)
    (released : stake.withdraw balance now = .ok paid) (left : rest + paid = balance) :
    stake.Covered rest (stake.since now) := by
  by_cases late : stake.duration ≤ stake.since now
  · exact Or.inl late
  · obtain ⟨-, below, covered, amount⟩ :=
      (bounded.withdraw_eq_ok timely (Nat.lt_of_not_le late)).mp released
    exact Or.inr ⟨by omega, by omega⟩

theorem covered_step (sound : Sound s) (success : step s action = .ok s') (covered : AllCovered s)
    (sustains : action.Sustains s) (contained : Contained ⟨s, action, s'⟩) : AllCovered s' := by
  intro key next after unstaked some
  have bounded := ((sound_step sound success).stakes key next after).bounded
  have later := (step_grounded sound success).2.1
  -- time only helps, so each case shows what is covered at the time of the step
  suffices now : next.Covered (s'.tokens.balance next.vault) (next.since s.clock) by
    apply bounded.covered_mono _ now
    unfold StakeAccount.since
    omega
  cases present : s.stakes.lookup key with
  | none => exact absurd (created_step sound success present after).2 unstaked
  | some stake =>
      have standing := sound.stakes key stake present
      have turn := (step_turn sound present success).resolve_left (by rw [after]; exact nofun)
      cases turn with
      | kept same grows =>
          cases after.symm.trans same
          rcases Nat.lt_or_eq_of_le grows with more | equal
          · exact contained key (Finmap.mem_keys.mpr (Finmap.mem_of_lookup_eq_some present))
              _ present
              unstaked more
          · have before := covered key _ present unstaked (lt_of_lt_of_eq some equal.symm)
            rw [equal] at before
            exact before
      | @unstaked a xnos unstakes same staked result balance =>
          cases after.symm.trans result
          cases unstakes
          have full := sustains stake (same ▸ present)
          have held := standing.held staked
          change s'.tokens.balance stake.vault = s.tokens.balance stake.vault at balance
          refine Or.inr ⟨?_, ?_⟩
          · show s'.tokens.balance stake.vault ≤ stake.amount
            omega
          · show stake.amount - s'.tokens.balance stake.vault ≤ _
            omega
      | restaked _ _ result =>
          cases after.symm.trans result
          exact absurd rfl unstaked
      | raised staked result =>
          cases after.symm.trans result
          exact absurd staked unstaked
      | extended staked longest result =>
          cases after.symm.trans result
          exact absurd staked unstaked
      | withdrawn same before released balance =>
          cases after.symm.trans same
          exact covered_of_withdraw standing.bounded (standing.timely sound) released balance
      | @slashed a amount xnos slashes same enough result balance =>
          cases after.symm.trans result
          cases slashes
          change s'.tokens.balance stake.vault + amount = s.tokens.balance stake.vault at balance
          have rest : s.tokens.balance stake.vault - amount = s'.tokens.balance stake.vault := by
            omega
          have kept := sustains stake (same ▸ present) unstaked (by
            change 0 < s'.tokens.balance stake.vault at some
            omega)
          rw [rest] at kept
          exact kept

/-- The clock only moves when nothing else does. -/
theorem step_clock (success : step s action = .ok s') :
    s'.clock = s.clock ∨ (s'.tokens = s.tokens ∧ ∃ now, action = .tick now) := by
  cases step_effect success with
  | @tick now => exact Or.inr ⟨rfl, now, rfl⟩
  | _ => exact Or.inl rfl

theorem sustains_of_covered (sound : Sound s) (success : step s action = .ok s')
    (covered : AllCovered s') : action.Sustains s := by
  cases step_effect success with
  | @unstake a stake xnos present staked =>
      intro found inside
      cases present.symm.trans inside
      rcases Nat.eq_zero_or_pos (s.tokens.balance stake.vault) with none | some
      · rw [none]
        exact Nat.zero_le _
      · have now := covered a.stake _ (Finmap.lookup_insert _) (Int.ne_of_gt sound.clock.1) some
        have started :
          StakeAccount.since { stake with timeUnstake := s.clock, xnos := xnos } s.clock
            = 0 := by
          show (s.clock - s.clock).toNat = 0
          rw [Int.sub_self]
          rfl
        rw [started] at now
        have long := (sound.stakes a.stake stake present).bounded.duration_pos
        exact (now.resolve_left (Nat.not_le_of_lt long)).1
  | @slash a amount stake xnos tokens present apart enough paid =>
      intro found inside unstaked more
      cases present.symm.trans inside
      have moved := Tokens.balance_source paid apart
      have rest : tokens.balance stake.vault = s.tokens.balance stake.vault - amount := by omega
      have some : 0 < tokens.balance stake.vault := by omega
      have now := covered a.stake _ (Finmap.lookup_insert _) unstaked some
      rw [← rest]
      exact now
  | settings plain => rcases plain with ⟨a, rfl⟩ | ⟨a, rfl⟩ <;> trivial
  | _ => trivial

theorem contained_of_covered (sound : Sound s) (success : step s action = .ok s')
    (covered : AllCovered s') : Contained ⟨s, action, s'⟩ := by
  intro key _ stake present unstaked more
  change s.tokens.balance stake.vault < s'.tokens.balance stake.vault at more
  have clock : s'.clock = s.clock := by
    rcases step_clock success with same | ⟨tokens, -⟩
    · exact same
    · rw [tokens] at more
      omega
  rcases step_turn sound present success with ⟨-, none⟩ | turn
  · omega
  · cases turn with
    | kept after =>
        have now := covered key stake after unstaked (by omega)
        rw [clock] at now
        exact now
    | raised staked | extended staked => exact absurd staked unstaked
    | unstaked action same staked => exact absurd staked unstaked
    | restaked _ _ after balance => exact absurd balance (Nat.ne_of_gt more)
    | withdrawn after before released balance =>
        change s'.tokens.balance stake.vault + _ = s.tokens.balance stake.vault at balance
        omega
    | slashed slashes same enough after balance =>
        change s'.tokens.balance stake.vault + _ = s.tokens.balance stake.vault at balance
        omega

theorem sustains_of_orderly (covered : AllCovered s) (orderly : action.Orderly s) :
    action.Sustains s := by
  cases action with
  | instruction ix =>
      cases ix with
      | unstake a => exact orderly
      | slash a amount =>
          intro stake present unstaked more
          by_cases late : stake.duration ≤ stake.since s.clock
          · exact Or.inl late
          · rcases orderly.1 stake present ⟨unstaked, Nat.lt_of_not_le late⟩ with whole | empty
            · -- nothing has been withdrawn, and amount and vault go down by the same
              obtain ⟨below, -⟩ :=
                (covered _ stake present unstaked (Nat.zero_lt_of_lt more)).resolve_left late
              refine Or.inr ⟨?_, ?_⟩
              · exact Nat.sub_le_sub_right below _
              · show stake.amount - _ - (s.tokens.balance stake.vault - _) ≤ _
                omega
            · exact absurd empty (Nat.ne_of_lt more)
      | _ => trivial
  | _ => trivial

/-- Tokens come into the vault of an unstaked stake from others only. -/
theorem contained_of_orderly (sound : Sound s) (success : step s action = .ok s')
    (covered : AllCovered s) (orderly : action.Orderly s) : Contained ⟨s, action, s'⟩ := by
  intro key member stake present unstaked more
  change s.tokens.balance stake.vault < s'.tokens.balance stake.vault at more
  by_cases late : stake.duration ≤ stake.since s.clock
  · exact Or.inl late
  have vesting : stake.Vesting s.clock := ⟨unstaked, Nat.lt_of_not_le late⟩
  have standing := sound.stakes key stake present
  cases step_effect success with
  | settings | unstake | restake | extend | tick => exact absurd more (lt_irrefl _)
  | @stake a _ _ _ _ _ _ freshVault _ _ _ _ _ paid =>
      have opened := Tokens.balance_insert_empty freshVault.2.2 id.nosToken a.vault stake.vault
      have same := Tokens.eq_destination_of_lt paid (lt_of_eq_of_lt opened more)
      have kind := standing.kind
      rw [same, Finmap.lookup_eq_none.mpr freshVault.2.2] at kind
      cases kind
  | @topup a _ other _ _ found staked _ _ paid =>
      have same := Tokens.eq_destination_of_lt paid more
      by_cases own : a.stake = key
      · rw [own] at found
        cases present.symm.trans found
        exact absurd staked unstaked
      · exact absurd same (standing.vault_ne (sound.stakes _ other found) own)
  | @close _ other _ found _ =>
      change _ < Tokens.balance (s.tokens.erase other.vault) stake.vault at more
      by_cases same : stake.vault = other.vault
      · rw [same, Tokens.balance_of_absent (Finmap.lookup_erase _ _)] at more
        exact absurd more (Nat.not_lt_zero _)
      · rw [Tokens.balance_erase_of_ne same] at more
        exact absurd more (lt_irrefl _)
  | @withdraw a other _ _ tokens found _ _ _ _ paid =>
      rcases paid with ⟨-, rfl⟩ | paid
      · exact absurd more (lt_irrefl _)
      · have same := Tokens.eq_destination_of_lt paid more
        exact absurd ⟨key, member, stake, present, same, vesting⟩ orderly
  | slash _ _ _ paid =>
      have same := Tokens.eq_destination_of_lt paid more
      exact absurd ⟨key, member, stake, present, same, vesting⟩ orderly.2
  | external =>
      obtain ⟨some, room⟩ := orderly key member stake present vesting more
      obtain ⟨-, missing⟩ := (covered key stake present unstaked some).resolve_left late
      refine Or.inr ⟨room, le_trans (Nat.sub_le_sub_left more.le _) missing⟩

end

/-! Whole runs -/

/-- In every state of a run every staker can withdraw, from then on, what has been released,
exactly when every step of the run sustains the stakes. -/
theorem all_withdrawable_iff_sustained {s : State} (genesis : Genesis s) (actions : List Action) :
    (∀ state ∈ reached s actions, AllWithdrawable state) ↔
      ∀ event ∈ trace s actions, event.action.Sustains event.before ∧ Contained event := by
  have sound : ∀ event ∈ trace s actions, Sound event.before ∧ Sound event.after :=
    Machine.trace_invariant genesis.sound (fun _ _ _ sound success => sound_step sound success)
      actions
  have start : AllCovered s := by
    intro key stake present
    simp [genesis.stakes] at present
  unfold reached
  rw [Machine.forall_reached]
  constructor
  · intro always event member
    have withdrawable := always.2
    have success := Machine.mem_trace_step member
    have ⟨before, after⟩ := sound event member
    have covered := (allWithdrawable_iff after).mp (withdrawable event member)
    exact ⟨sustains_of_covered before success covered, contained_of_covered before success covered⟩
  · intro sustained
    have covered : ∀ event ∈ trace s actions,
        (Sound event.before ∧ AllCovered event.before) ∧ Sound event.after ∧
          AllCovered event.after :=
      @Machine.guarded_trace _ _ _ step (fun s => Sound s ∧ AllCovered s)
      (fun event : Event => event.action.Sustains event.before ∧ Contained event) s
      ⟨genesis.sound, start⟩
      (fun _ _ _ kept success sustained => ⟨sound_step kept.1 success,
        covered_step kept.1 success kept.2 sustained.1 sustained.2⟩) actions sustained
    refine ⟨(allWithdrawable_iff genesis.sound).mpr start, fun event member => ?_⟩
    have ⟨after, kept⟩ := (covered event member).2
    exact (allWithdrawable_iff after).mpr kept

/-- In every state of a run whose steps are orderly, every staker can withdraw, from then on, what
has been released. -/
theorem all_withdrawable_of_orderly {s : State} (genesis : Genesis s) (actions : List Action)
    (orderly : ∀ event ∈ trace s actions, event.action.Orderly event.before) :
    ∀ state ∈ reached s actions, AllWithdrawable state := by
  have start : AllCovered s := by
    intro key stake present
    simp [genesis.stakes] at present
  have kept : ∀ event ∈ trace s actions,
      (Sound event.before ∧ AllCovered event.before) ∧ Sound event.after ∧
        AllCovered event.after :=
    @Machine.guarded_trace _ _ _ step (fun s => Sound s ∧ AllCovered s)
    (fun event : Event => event.action.Orderly event.before) s
    ⟨genesis.sound, start⟩
    (fun _ _ _ kept success orderly => ⟨sound_step kept.1 success,
      covered_step kept.1 success kept.2 (sustains_of_orderly kept.2 orderly)
        (contained_of_orderly kept.1 success kept.2 orderly)⟩) actions orderly
  refine (all_withdrawable_iff_sustained genesis actions).mpr fun event member => ?_
  have ⟨sound, covered⟩ := (kept event member).1
  have success := Machine.mem_trace_step member
  exact ⟨sustains_of_orderly covered (orderly event member),
    contained_of_orderly sound success covered (orderly event member)⟩

theorem all_withdrawable_of_orderly_sample : AllWithdrawable (Sample.run Sample.halfway) :=
  all_withdrawable_of_orderly Sample.genesis Sample.halfway (by decide +kernel) _
    (Machine.run_mem_reached Sample.start Sample.halfway)

/-- A stake is unstaked, and one more token is sent to its vault. -/
def Sample.donating : List Action :=
  [stake 600 StakeAccount.durationMin, unstake, .external (funds 399 601)]

/-- A token that is sent to the vault of an unstaked stake stops all withdrawals before the
end of its duration. -/
theorem donation_stops_withdrawal :
    ¬ ∀ state ∈ Sample.reached Sample.donating, AllWithdrawable state := by
  intro withdrawable
  have stopped : ∃ state ∈ Sample.reached Sample.donating,
      ∃ stake ∈ state.stakes.lookup Sample.account, stake.timeUnstake ≠ 0 ∧
        0 < state.tokens.balance stake.vault ∧ Signed 64 state.clock ∧
        (stake.withdraw (state.tokens.balance stake.vault) state.clock).isOk = false := by
    decide +kernel
  obtain ⟨state, member, stake, present, unstaked, some, fits, failed⟩ := stopped
  obtain ⟨paid, -, released, -⟩ := withdrawable state member Sample.account stake present unstaked
    some state.clock (le_refl _) fits
  rw [released] at failed
  cases failed

end Nosana.Staking
