import Nosana.RewardsEarnings
import Nosana.Spending

set_option autoImplicit false

/- Nobody has to be first: whatever order owners come in, each of them is paid what was earned, and
the vault lasts to the end. -/
namespace Nosana.Rewards

open Checked

/-- The token account that an owner is paid to. -/
def wallet (owner : Pubkey) : Pubkey := pda.associatedToken owner id.nosToken

/-- The account of an owner is to follow the stake. -/
def following (stake : Staking.StakeAccount) (owner : Pubkey) : Accounts.Sync :=
  ⟨pda.nosanaRewards owner, stake, .rewardsReflection⟩

/-- The owner is to be paid what is pending. -/
def claiming (stake : Staking.StakeAccount) (owner : Pubkey) : Accounts.Claim :=
  ⟨wallet owner, vault, .rewardsReflection, pda.nosanaRewards owner, stake, owner⟩

/-- How an owner collects, also with a stake that was slashed or has grown. -/
def collect (stake : Staking.StakeAccount) (owner : Pubkey) : List Action :=
  [.instruction (.sync (following stake owner)), .instruction (.claim (claiming stake owner))]

/-- One owner after the other collects. -/
def collectAll (stakes : Pubkey → Staking.StakeAccount) (owners : List Pubkey) : List Action :=
  owners.flatMap fun owner => collect (stakes owner) owner

/-- An owner who has entered, with a stake that is not being taken back, and a token account. -/
structure Entered (s : State) (stake : Staking.StakeAccount) (owner : Pubkey) : Prop where
  account : pda.nosanaRewards owner ∈ s.rewards
  owned : stake.authority = owner
  staked : stake.timeUnstake = 0
  wallet : Rewards.wallet owner ∈ s.tokens

/-- By how much a stake has grown since its owner entered. -/
def State.growth (s : State) (stake : Staking.StakeAccount) (owner : Pubkey) : Nat :=
  (s.rewards.lookup (pda.nosanaRewards owner)).elim 0 fun reward => stake.xnos - reward.xnos

/-- By how much all these stakes have grown. -/
def State.grown (s : State) (stakes : Pubkey → Staking.StakeAccount) (owners : List Pubkey) : Nat :=
  (owners.map fun owner => s.growth (stakes owner) owner).sum

/-- The totals stay within `u128` when stakes grow. -/
def State.Fits (s : State) (more : Nat) : Prop :=
  ∀ reflection ∈ s.reflection, reflection.totalReflection + more * reflection.rate < 2 ^ 128 ∧
    reflection.totalXnos + more < 2 ^ 128

/-! What every run keeps -/

theorem addRewardsAccount_iff {reflection next : ReflectionAccount}
    {xnos rewardXnos points : Nat} :
    reflection.addRewardsAccount xnos rewardXnos = .ok (points, next) ↔
      xnos + rewardXnos < 2 ^ 128 ∧
      reflection.totalReflection + (xnos + rewardXnos) * reflection.rate < 2 ^ 128 ∧
      reflection.totalXnos + xnos < 2 ^ 128 ∧ (xnos + rewardXnos) * reflection.rate = points ∧
      { reflection with
        totalReflection := reflection.totalReflection + (xnos + rewardXnos) * reflection.rate
        totalXnos := reflection.totalXnos + xnos } = next := by
  simp only [ReflectionAccount.addRewardsAccount, add, mul, bind_eq_ok, checked_eq_ok, pure_eq_ok,
    Prod.mk.injEq]
  constructor
  · rintro ⟨_, ⟨sum, rfl⟩, _, ⟨-, rfl⟩, _, ⟨reflections, rfl⟩, _, ⟨total, rfl⟩, rfl, rfl⟩
    exact ⟨sum, reflections, total, rfl, rfl⟩
  · rintro ⟨sum, reflections, total, rfl, rfl⟩
    exact ⟨_, ⟨sum, rfl⟩, _, ⟨by omega, rfl⟩, _, ⟨reflections, rfl⟩, _, ⟨total, rfl⟩, rfl, rfl⟩

/-- A pool that somebody has just entered fits. -/
theorem fits_of_added {s : State} {old next : ReflectionAccount} {xnos rewardXnos points : Nat}
    (pool : s.reflection = some next)
    (entered : old.addRewardsAccount xnos rewardXnos = .ok (points, next)) : s.Fits 0 := by
  obtain ⟨-, reflections, total, -, rfl⟩ := addRewardsAccount_iff.mp entered
  intro reflection present
  cases pool.symm.trans present
  rw [Nat.zero_mul]
  exact ⟨reflections, total⟩

theorem fits_step {s s' : State} {action : Action} (fits : s.Fits 0)
    (success : step s action = .ok s') : s'.Fits 0 := by
  cases action with
  | external tokens =>
      simp only [step, bind_eq_ok, require_eq_ok, pure_eq_ok, exists_const] at success
      obtain ⟨-, rfl⟩ := success
      exact fits
  | instruction ix =>
      cases process_effect success with
      | opened =>
          rintro _ ⟨⟩
          exact ⟨show 0 + 0 * ReflectionAccount.initialRate < _ by decide, show 0 + 0 < _ by decide⟩
      | entered _ _ _ _ _ bought => exact fits_of_added rfl bought
      | feeAdded found _ _ paid =>
          obtain ⟨total, -, rfl⟩ := addFee_eq_ok.mp paid
          rintro _ ⟨⟩
          have reflections := (fits _ found).1
          rw [Nat.zero_mul] at reflections ⊢
          exact ⟨reflections, total⟩
      | claimedNothing => exact fits
      | claimed _ _ _ bought => exact fits_of_added rfl bought
      | synced _ _ _ _ _ _ bought => exact fits_of_added rfl bought
      | closed found _ _ left =>
          obtain ⟨-, -, rfl⟩ := removeRewardsAccount_eq_ok.mp left
          rintro _ ⟨⟩
          obtain ⟨reflections, total⟩ := fits _ found
          rw [Nat.zero_mul] at reflections ⊢
          exact ⟨by show _ - _ + 0 < _; omega, by show _ - _ + 0 < _; omega⟩

/-- Once the pool is open its vault is a token account of its own. -/
def Housed (s : State) : Prop :=
  s.reflection = none ∨
    (s.tokens.lookup vault).map TokenAccount.kind = some (id.nosToken, vault)

theorem housed_step {s s' : State} {action : Action} (housed : Housed s)
    (success : step s action = .ok s') : Housed s' := by
  cases action with
  | external tokens =>
      simp only [step, bind_eq_ok, require_eq_ok, pure_eq_ok, exists_const] at success
      obtain ⟨external, rfl⟩ := success
      exact housed.imp_right (external.kind_eq rfl).trans
  | instruction ix =>
      have opened : ∀ {old : ReflectionAccount}, s.reflection = some old →
          (s.tokens.lookup vault).map TokenAccount.kind = some (id.nosToken, vault) := by
        intro old found
        exact housed.resolve_left (by simp [found])
      cases process_effect success with
      | @opened a _ _ mint vaulted =>
          have same : a.vault = vault := by rw [vaulted, mint]; rfl
          refine Or.inr ?_
          rw [same, Finmap.lookup_insert, mint]
          rfl
      | feeAdded found _ _ _ moved =>
          exact Or.inr ((Tokens.kind_transfer moved vault).trans (opened found))
      | claimed claims _ _ _ _ moved =>
          exact Or.inr ((Tokens.kind_transfer moved vault).trans (opened claims.found))
      | entered found | synced found | closed found => exact Or.inr (opened found)
      | claimedNothing claims => exact Or.inr (opened claims.found)

theorem wellFormed_step {s s' : State} {action : Action}
    (wellFormed : s.tokens.WellFormed supplyCap) (success : step s action = .ok s') :
    s'.tokens.WellFormed supplyCap := by
  cases action with
  | external tokens =>
      simp only [step, bind_eq_ok, require_eq_ok, pure_eq_ok, exists_const] at success
      obtain ⟨external, rfl⟩ := success
      exact external.wellFormed
  | instruction ix =>
      refine (process_spent (fun _ _ own => own) success).wellFormed ?_ wellFormed
      intro key account own
      cases key <;> trivial

/-- A pool that owners can collect from. -/
structure Serving (history : List Event) (reflection : ReflectionAccount) (s : State) : Prop where
  present : s.reflection = some reflection
  books : Books history reflection s
  solvent : (reflection.pool s.rewards).Solvent
  filed : Filed s
  fits : s.Fits 0
  house : (s.tokens.lookup vault).map TokenAccount.kind = some (id.nosToken, vault)
  wellFormed : s.tokens.WellFormed supplyCap

theorem run_serving {s : State} (genesis : Genesis s) (wellFormed : s.tokens.WellFormed supplyCap)
    (actions : List Action) (tame : ∀ event ∈ trace s actions, Tame event)
    {reflection : ReflectionAccount} (present : (run s actions).reflection = some reflection) :
    Serving (trace s actions) reflection (run s actions) := by
  have fits : (run s actions).Fits 0 := by
    refine Machine.run_invariant ?_ (fun _ _ _ fits success => fits_step fits success) actions
    intro other found
    rw [genesis.reflection] at found
    cases found
  have housed : Housed (run s actions) :=
    Machine.run_invariant (P := Housed) (Or.inl genesis.reflection)
      (fun _ _ _ housed success => housed_step housed success) actions
  have ledger : (run s actions).tokens.WellFormed supplyCap :=
    Machine.run_invariant (P := fun state => state.tokens.WellFormed supplyCap) wellFormed
      (fun _ _ _ kept success => wellFormed_step kept success) actions
  rcases run_funded genesis actions tame with blank | ⟨other, found, books, solvent⟩
  · rw [blank.reflection] at present
    cases present
  · cases found.symm.trans present
    exact ⟨present, books, solvent, run_filed genesis actions, fits,
      housed.resolve_left (by simp [present]), ledger⟩

/-! One owner's turn -/

section

variable {history : List Event} {reflection : ReflectionAccount} {s s' : State}
  {stake : Staking.StakeAccount} {owner : Pubkey} {reward : RewardAccount}

/-- Who gives up points and tokens can come back with as many, and with what there is room for. -/
theorem exchange_fits {points out xnos extra more rest : Nat} (positive : 0 < reflection.rate)
    (covered : out ≤ reflection.totalXnos) (held : points ≤ reflection.totalReflection)
    (bought : (xnos + extra) * reflection.rate ≤ points + more * reflection.rate)
    (staked : xnos ≤ out + more) (pool : s.reflection = some reflection)
    (fits : s.Fits (more + rest)) :
    ∃ removed added again, reflection.removeRewardsAccount points out = .ok removed ∧
      removed.rate = reflection.rate ∧
      removed.addRewardsAccount xnos extra = .ok (again, added) ∧
      ∀ s' : State, s'.reflection = some added → s'.Fits rest := by
  have ⟨reflections, total⟩ := fits reflection pool
  rw [Nat.add_mul] at reflections
  have some := Nat.le_mul_of_pos_right (xnos + extra) positive
  refine ⟨_, _, _, removeRewardsAccount_eq_ok.mpr ⟨covered, held, rfl⟩, rfl,
    addRewardsAccount_iff.mpr ⟨by omega, ?_, ?_, rfl, rfl⟩, ?_⟩
  · show reflection.totalReflection - points + (xnos + extra) * reflection.rate < _
    omega
  · show reflection.totalXnos - out + xnos < _
    omega
  · intro s' after other present
    cases after.symm.trans present
    constructor
    · show reflection.totalReflection - points + (xnos + extra) * reflection.rate +
        rest * reflection.rate < _
      omega
    · show reflection.totalXnos - out + xnos + rest < _
      omega

/-- Whoever has entered can follow their stake when there is room for what it has grown by. -/
theorem sync_serves (serving : Serving history reflection s)
    (present : s.rewards.lookup (pda.nosanaRewards owner) = some reward)
    (entered : Entered s stake owner) {rest : Nat}
    (fits : s.Fits (stake.xnos - reward.xnos + rest)) :
    ∃ s', sync s (following stake owner) = .ok s' ∧ s'.Fits rest := by
  have same : owner = reward.authority := Pubkey.rewardsReward.inj (serving.filed _ _ present)
  have positive : 0 < reflection.rate := serving.solvent.positive
  have covered : reward.xnos ≤ reward.reflection / reflection.rate :=
    serving.solvent.principal_le_worth present
  have worth : reward.reflection / reflection.rate ≤ reflection.totalXnos :=
    serving.solvent.worth_le_value present
  -- what is pending is bought back, and what the stake has grown by comes on top
  have bought : (stake.xnos + (reward.reflection / reflection.rate - reward.xnos)) *
      reflection.rate ≤ reward.reflection + (stake.xnos - reward.xnos) * reflection.rate := by
    calc (stake.xnos + (reward.reflection / reflection.rate - reward.xnos)) * reflection.rate
        ≤ (reward.reflection / reflection.rate + (stake.xnos - reward.xnos)) * reflection.rate :=
          Nat.mul_le_mul_right _ (by omega)
      _ = reward.reflection / reflection.rate * reflection.rate +
            (stake.xnos - reward.xnos) * reflection.rate := Nat.add_mul _ _ _
      _ ≤ reward.reflection + (stake.xnos - reward.xnos) * reflection.rate :=
          Nat.add_le_add_right (Nat.div_mul_le_self _ _) _
  obtain ⟨removed, added, again, left, rated, rejoined, room⟩ := exchange_fits positive
    (covered.trans worth) (serving.books.reflection_le present) bought (by omega) serving.present
    fits
  have pending : reward.getAmount removed.rate =
      .ok (reward.reflection / reflection.rate - reward.xnos) := by
    rw [rated]
    exact getAmount_eq_ok.mpr ⟨Nat.ne_of_gt positive, covered, rfl⟩
  exact ⟨_, sync_eq_ok.mpr ⟨reward, reflection, removed, _, again, added, present,
    ⟨rfl, serving.present⟩, entered.staked, entered.owned.trans same, left, pending, rejoined, rfl⟩,
    room _ rfl⟩

/-- The vault can pay what an account that serves has to get. -/
theorem transferFromVault_serves (serving : Serving history reflection s)
    (present : s.rewards.lookup (pda.nosanaRewards owner) = some reward)
    (home : wallet owner ∈ s.tokens) :
    reward.reflection / reflection.rate - reward.xnos < 2 ^ 64 ∧
      ∃ paid, transferFromVault s.tokens vault (wallet owner)
        (reward.reflection / reflection.rate - reward.xnos) = .ok paid := by
  have pending : reward.reflection / reflection.rate - reward.xnos =
      s.pending (pda.nosanaRewards owner) := by
    rw [pending_of_pool serving.present, present]
    rfl
  have funded := (pending_le_owed s (pda.nosanaRewards owner)).trans
    (owed_le_balance_of_solvent serving.present serving.books serving.solvent)
  obtain ⟨sender, sent, kind⟩ := Option.map_eq_some_iff.mp serving.house
  obtain ⟨mint, -⟩ := Prod.mk.inj kind
  obtain ⟨receiver, received⟩ := Option.isSome_iff_exists.mp (Finmap.lookup_isSome.mpr home)
  have held : receiver.mint = id.nosToken :=
    (serving.wellFormed.regular _ receiver received).addressed
  obtain ⟨paid, moved⟩ := serving.wellFormed.pays (by decide) rfl serving.house received held
    Pubkey.noConfusion funded
  have limit : s.tokens.supply sender.mint < 2 ^ 64 := by
    have capped := serving.wellFormed.capped
    rw [mint]
    exact Nat.lt_of_le_of_lt capped (by decide)
  rw [Tokens.balance_of_lookup sent] at funded
  have whole := Tokens.amount_le_supply sent
  rw [pending]
  refine ⟨by omega, paid, ?_⟩
  simp only [transferFromVault, Tokens.load, bind_eq_ok, get_eq_ok, require_eq_ok, exists_const]
  exact ⟨sender, sent, by rw [mint]; rfl, moved⟩

/-- Whoever follows their stake can claim. -/
theorem claim_serves (serving : Serving history reflection s)
    (present : s.rewards.lookup (pda.nosanaRewards owner) = some reward)
    (entered : Entered s stake owner) (follows : reward.xnos = stake.xnos) {rest : Nat}
    (fits : s.Fits rest) : ∃ s', claim s (claiming stake owner) = .ok s' ∧ s'.Fits rest := by
  have same : owner = reward.authority := Pubkey.rewardsReward.inj (serving.filed _ _ present)
  have positive : 0 < reflection.rate := serving.solvent.positive
  have covered : reward.xnos ≤ reward.reflection / reflection.rate :=
    serving.solvent.principal_le_worth present
  have worth : reward.reflection / reflection.rate ≤ reflection.totalXnos :=
    serving.solvent.worth_le_value present
  have held := serving.books.reflection_le present
  obtain ⟨sender, sent, -⟩ := Option.map_eq_some_iff.mp serving.house
  obtain ⟨receiver, received⟩ :=
    Option.isSome_iff_exists.mp (Finmap.lookup_isSome.mpr entered.wallet)
  have constraints : claimConstraints s (claiming stake owner) = .ok (reflection, reward) := by
    simp only [claimConstraints, Tokens.load, bind_eq_ok, get_eq_ok, loadReflection_eq_ok,
      loadReward_eq_ok, require_eq_ok, pure_eq_ok, exists_const]
    exact ⟨receiver, received, sender, sent, reflection, ⟨rfl, serving.present⟩, reward,
      present, serving.books.vaulted, same.symm, entered.owned, entered.staked,
      Nat.le_of_eq follows, Pubkey.noConfusion, rfl⟩
  have pending : reward.getAmount reflection.rate =
      .ok (reward.reflection / reflection.rate - reward.xnos) :=
    getAmount_eq_ok.mpr ⟨Nat.ne_of_gt positive, covered, rfl⟩
  by_cases nothing : reward.reflection / reflection.rate - reward.xnos = 0
  · refine ⟨s, ?_, fits⟩
    simp only [claim, bind_eq_ok, Prod.exists]
    refine ⟨reflection, reward, constraints, _, pending, ?_⟩
    rw [if_pos nothing]
    rfl
  · obtain ⟨small, paid, moved⟩ := transferFromVault_serves serving present entered.wallet
    have bought : (stake.xnos + 0) * reflection.rate ≤ reward.reflection + 0 * reflection.rate := by
      rw [Nat.zero_mul, Nat.add_zero, Nat.add_zero, ← follows]
      exact (Nat.mul_le_mul_right _ covered).trans (Nat.div_mul_le_self _ _)
    obtain ⟨removed, added, again, left, -, rejoined, room⟩ := exchange_fits positive
      (show reward.xnos + (reward.reflection / reflection.rate - reward.xnos) ≤ _ by omega) held
      bought (by omega) serving.present (by rwa [Nat.zero_add])
    have whole := Nat.div_le_self reward.reflection reflection.rate
    have reflections := (serving.fits reflection serving.present).1
    refine ⟨{ s with
      reflection := some added
      rewards := s.rewards.insert (pda.nosanaRewards owner) (reward.update again stake.xnos)
      tokens := paid }, ?_, room _ rfl⟩
    simp only [claim, bind_eq_ok, Prod.exists]
    refine ⟨reflection, reward, constraints, _, pending, ?_⟩
    rw [if_neg nothing]
    simp only [add, narrow, bind_eq_ok, checked_eq_ok, pure_eq_ok, Prod.exists]
    exact ⟨_, ⟨by omega, rfl⟩, removed, left, again, added, rejoined, _, ⟨small, rfl⟩, paid, moved,
      rfl⟩

/-- What is tame keeps a pool serving. -/
theorem Serving.next {action : Action} (serving : Serving history reflection s)
    (success : step s action = .ok s') (tame : Tame ⟨s, action, s'⟩) :
    ∃ next, Serving (history ++ [⟨s, action, s'⟩]) next s' := by
  obtain ⟨next, turn⟩ := step_turn serving.present serving.books.vaulted success
  have after : s'.reflection = some next := turn.after
  exact ⟨next, after, serving.books.next turn,
    turn.solvent serving.present serving.books serving.solvent tame,
    filed_step serving.filed success, fits_step serving.fits success,
    (housed_step (Or.inr serving.house) success).resolve_left (by simp [after]),
    wellFormed_step serving.wellFormed success⟩

/-- What somebody does with an account is nothing to the others. -/
theorem UserTurn.pending_frame {event : Event} {old next : ReflectionAccount}
    (turn : UserTurn event old next) {key : Pubkey} (other : some key ≠ event.action.account) :
    event.after.pending key = event.before.pending key := by
  rw [pending_of_pool turn.after, pending_of_pool turn.before, (Prod.mk.inj turn.kept).1,
    turn.frame key other]

/-- Who has entered stays so, unless the account is closed. -/
theorem UserTurn.entered {event : Event} {old next : ReflectionAccount}
    (turn : UserTurn event old next) {key : Pubkey} (account : event.action.account = some key)
    (own : key ∈ event.after.rewards) (entered : Entered event.before stake owner) :
    Entered event.after stake owner := by
  have ⟨inside, owned, staked, home⟩ := entered
  refine ⟨?_, owned, staked, ?_⟩
  · by_cases same : pda.nosanaRewards owner = key
    · rwa [same]
    · rw [← Finmap.lookup_isSome, turn.frame _ (by rwa [account, ne_eq, Option.some.injEq])]
      exact Finmap.lookup_isSome.mpr inside
  · have form := congrArg Option.isSome (turn.form (wallet owner))
    rw [Option.isSome_map, Option.isSome_map, Option.isSome_map,
      Finmap.lookup_isSome.mpr home] at form
    exact Finmap.lookup_isSome.mp form

/-- An operation on an account that follows the stake of its owner lets no other stake grow. -/
theorem UserTurn.growth_le {event : Event} {old next : ReflectionAccount}
    (turn : UserTurn event old next) {stakes : Pubkey → Staking.StakeAccount}
    (account : event.action.account = some (pda.nosanaRewards owner))
    (own : event.after.rewards.lookup (pda.nosanaRewards owner) = some reward)
    (follows : reward.xnos = (stakes owner).xnos) (other : Pubkey) :
    event.after.growth (stakes other) other ≤ event.before.growth (stakes other) other := by
  unfold State.growth
  by_cases same : other = owner
  · rw [same, own, Option.elim_some, follows, Nat.sub_self]
    exact Nat.zero_le _
  · rw [turn.frame (pda.nosanaRewards other)]
    rw [account]
    intro keys
    exact same (Pubkey.rewardsReward.inj (Option.some.inj keys))

/-- What the turn of an owner does. -/
structure Collected (stakes : Pubkey → Staking.StakeAccount) (owner : Pubkey)
    (before after : State) : Prop where
  paid : ∀ other, after.tokens.balance (wallet other) = before.tokens.balance (wallet other) +
    if other = owner then before.pending (pda.nosanaRewards owner) else 0
  pending : ∀ other, after.pending (pda.nosanaRewards other) =
    if other = owner then 0 else before.pending (pda.nosanaRewards other)
  growth : ∀ other, after.growth (stakes other) other ≤ before.growth (stakes other) other
  entered : ∀ other, Entered before (stakes other) other → Entered after (stakes other) other

/-- A synchronization pays nothing and takes nothing. -/
theorem sync_follows {old next : ReflectionAccount}
    (turn : UserTurn ⟨s, .instruction (.sync (following stake owner)), s'⟩ old next)
    (positive : old.rate ≠ 0)
    (present : s.rewards.lookup (pda.nosanaRewards owner) = some reward) :
    (∃ points, s'.rewards.lookup (pda.nosanaRewards owner) =
      some (reward.update points stake.xnos)) ∧
    (∀ key, s'.tokens.balance key = s.tokens.balance key) ∧
    ∀ other, s'.pending (pda.nosanaRewards other) = s.pending (pda.nosanaRewards other) := by
  have own : s'.rewards.lookup (pda.nosanaRewards owner) = Action.alone old.rate
      (.instruction (.sync (following stake owner)))
      (s.rewards.lookup (pda.nosanaRewards owner)) := turn.own
  rw [present] at own
  refine ⟨⟨_, own⟩, ?_, ?_⟩
  · intro key
    have balance := turn.balance key
    exact Int.ofNat.inj (balance.trans (Int.add_zero _))
  · intro other
    by_cases same : other = owner
    · have before : s.pending (pda.nosanaRewards owner) = _ := pending_of_pool turn.before _
      have after : s'.pending (pda.nosanaRewards owner) = _ := pending_of_pool turn.after _
      rw [same, before, after, (Prod.mk.inj turn.kept).1, own, present]
      exact pendingAt_synced _ _ _ _ positive
    · apply turn.pending_frame
      intro keys
      exact same (Pubkey.rewardsReward.inj (Option.some.inj keys))

/-- A claim with the stake that an account follows leaves nothing to claim. -/
theorem claim_follows {old next : ReflectionAccount}
    (turn : UserTurn ⟨s, .instruction (.claim (claiming stake owner)), s'⟩ old next)
    (success : claim s (claiming stake owner) = .ok s') (positive : 0 < old.rate)
    (present : s.rewards.lookup (pda.nosanaRewards owner) = some reward)
    (follows : reward.xnos = stake.xnos) :
    (∃ left, s'.rewards.lookup (pda.nosanaRewards owner) = some left ∧ left.xnos = stake.xnos) ∧
    (∀ other, s'.tokens.balance (wallet other) = s.tokens.balance (wallet other) +
      if other = owner then s.pending (pda.nosanaRewards owner) else 0) ∧
    ∀ other, s'.pending (pda.nosanaRewards other) =
      if other = owner then 0 else s.pending (pda.nosanaRewards other) := by
  have own : s'.rewards.lookup (pda.nosanaRewards owner) = Action.alone old.rate
      (.instruction (.claim (claiming stake owner)))
      (s.rewards.lookup (pda.nosanaRewards owner)) := turn.own
  have after : s'.pending (pda.nosanaRewards owner) =
      pendingAt next.rate (s'.rewards.lookup (pda.nosanaRewards owner)) :=
    pending_of_pool turn.after _
  have paid : received ⟨s, .instruction (.claim (claiming stake owner)), s'⟩ =
      s.pending (pda.nosanaRewards owner) :=
    @received_of_claim ⟨s, .instruction (.claim (claiming stake owner)), s'⟩ _ success rfl
  rw [(Prod.mk.inj turn.kept).1, own, present] at after
  rw [present] at own
  refine ⟨?_, ?_, ?_⟩
  · unfold Action.alone at own
    dsimp only at own
    split_ifs at own
    · exact ⟨reward, own, follows⟩
    · exact ⟨_, own, rfl⟩
  · intro other
    have balance : (s'.tokens.balance (wallet other) : Int) = s.tokens.balance (wallet other) +
        ((if wallet other = wallet owner then ((received _ : Nat) : Int) else 0) -
          if wallet other = vault then ((received _ : Nat) : Int) else 0) :=
      turn.balance (wallet other)
    rw [paid, if_neg (show wallet other ≠ vault from Pubkey.noConfusion), sub_zero] at balance
    by_cases same : other = owner
    · rw [if_pos same]
      rw [if_pos (by rw [same])] at balance
      omega
    · have apart : wallet other ≠ wallet owner := fun wallets =>
        same (Pubkey.associatedToken.inj wallets).1
      rw [if_neg same]
      rw [if_neg apart] at balance
      omega
  · intro other
    by_cases same : other = owner
    · rw [if_pos same, same, after]
      unfold Action.alone
      dsimp only
      split_ifs with nothing
      · exact nothing
      · show stake.xnos * old.rate / old.rate - stake.xnos = 0
        rw [Nat.mul_div_cancel _ positive, Nat.sub_self]
    · rw [if_neg same]
      apply turn.pending_frame
      intro keys
      exact same (Pubkey.rewardsReward.inj (Option.some.inj keys))

/-- In a pool that serves, whoever has entered can take a turn. -/
theorem collect_serves {stakes : Pubkey → Staking.StakeAccount}
    (serving : Serving history reflection s) (entered : Entered s (stakes owner) owner) {rest : Nat}
    (fits : s.Fits (s.growth (stakes owner) owner + rest)) :
    ∃ s', Machine.Completes step s (collect (stakes owner) owner) ∧
      run s (collect (stakes owner) owner) = s' ∧ (∃ later next, Serving later next s') ∧
      s'.Fits rest ∧ Collected stakes owner s s' := by
  obtain ⟨reward, present⟩ := Option.isSome_iff_exists.mp (Finmap.lookup_isSome.mpr entered.account)
  unfold State.growth at fits
  rw [present, Option.elim_some] at fits
  obtain ⟨middle, synced, room⟩ := sync_serves serving present entered fits
  obtain ⟨old, between, first⟩ := sync_user synced
  cases serving.present.symm.trans first.before
  have positive := serving.solvent.positive
  obtain ⟨⟨points, follows⟩, still, waiting⟩ :=
    sync_follows first (Nat.ne_of_gt positive) present
  have followed : step s (.instruction (.sync (following (stakes owner) owner))) = .ok middle :=
    synced
  obtain ⟨meanwhile, served⟩ := serving.next followed trivial
  have inside : pda.nosanaRewards owner ∈ middle.rewards := Finmap.mem_of_lookup_eq_some follows
  have active := first.entered rfl inside entered
  obtain ⟨after, claimed, left⟩ := claim_serves served follows active rfl room
  obtain ⟨_, last, second⟩ := claim_user claimed
  cases served.present.symm.trans second.before
  obtain ⟨⟨remaining, own, staked⟩, paid, pending⟩ :=
    claim_follows second claimed served.solvent.positive follows rfl
  have emptied : step middle (.instruction (.claim (claiming (stakes owner) owner))) = .ok after :=
    claimed
  obtain ⟨_, ready⟩ := served.next emptied trivial
  have final : run s (collect (stakes owner) owner) = after := by
    rw [run, collect, Machine.run_cons, Machine.exec_of_ok followed, Machine.run_cons,
      Machine.exec_of_ok emptied, Machine.run_nil]
  refine ⟨after, Machine.completes_cons.mpr ⟨middle, followed,
    Machine.completes_cons.mpr ⟨after, emptied, rfl⟩⟩, final, ⟨_, _, ready⟩, left, ?_, ?_, ?_, ?_⟩
  · intro other
    rw [paid, still, waiting]
  · intro other
    rw [pending, waiting]
  · intro other
    exact (second.growth_le rfl own staked other).trans (first.growth_le rfl follows rfl other)
  · intro other holds
    exact second.entered rfl (Finmap.mem_of_lookup_eq_some own) (first.entered rfl inside holds)

theorem State.Fits.mono {more less : Nat} (fits : s.Fits more) (fewer : less ≤ more) :
    s.Fits less := by
  intro pool present
  have ⟨reflections, total⟩ := fits pool present
  have scaled := Nat.mul_le_mul_right pool.rate fewer
  exact ⟨by omega, by omega⟩

/-- What is left of a list of turns after the first. -/
theorem Collected.grown_le {stakes : Pubkey → Staking.StakeAccount}
    (turn : Collected stakes owner s s') (rest : List Pubkey) :
    s'.grown stakes rest ≤ s.grown stakes rest :=
  List.sum_le_sum fun other _ => turn.growth other

/-- One turn after the other, and nobody finds less for having come later. -/
theorem turns_serve {stakes : Pubkey → Staking.StakeAccount} (owners : List Pubkey)
    (serving : Serving history reflection s)
    (entered : ∀ owner ∈ owners, Entered s (stakes owner) owner)
    (fits : s.Fits (s.grown stakes owners)) :
    Machine.Completes step s (collectAll stakes owners) ∧ ∀ owner,
      (run s (collectAll stakes owners)).tokens.balance (wallet owner) =
        s.tokens.balance (wallet owner) +
          (if owner ∈ owners then s.pending (pda.nosanaRewards owner) else 0) ∧
      (run s (collectAll stakes owners)).pending (pda.nosanaRewards owner) =
        if owner ∈ owners then 0 else s.pending (pda.nosanaRewards owner) := by
  induction owners generalizing history reflection s with
  | nil => exact ⟨rfl, fun owner => ⟨rfl, rfl⟩⟩
  | cons first rest ih =>
      obtain ⟨after, completes, final, ⟨later, next, served⟩, room, turn⟩ :=
        collect_serves serving (entered first List.mem_cons_self) fits
      obtain ⟨completed, shares⟩ := ih served
        (fun owner member => turn.entered owner (entered owner (List.mem_cons_of_mem _ member)))
        (room.mono (turn.grown_le rest))
      have joined :
        run s (collectAll stakes (first :: rest)) = run after (collectAll stakes rest) := by
        rw [← final]
        exact Machine.run_append _ _ _
      rw [joined]
      refine ⟨Machine.completes_append.mpr ⟨completes, ?_⟩, fun owner => ?_⟩
      · show Machine.Completes step (run s _) _
        rw [final]
        exact completed
      · obtain ⟨paid, left⟩ := shares owner
        rw [paid, left, turn.paid, turn.pending]
        by_cases same : owner = first
        · subst same
          simp
        · simp [same]

end

/-- While every fee is tame, nobody has to be first: owners who come in any order all
have what they earned paid out to the last token, and what the others have earned stays. -/
theorem everybody_can_collect {s : State} (genesis : Genesis s)
    (wellFormed : s.tokens.WellFormed supplyCap) (past : List Action)
    (tame : ∀ event ∈ trace s past, Tame event) (stakes : Pubkey → Staking.StakeAccount)
    (owners : List Pubkey) (entered : ∀ owner ∈ owners, Entered (run s past) (stakes owner) owner)
    (room : (run s past).grown stakes owners ≠ 0 →
      (run s past).Fits ((run s past).grown stakes owners)) :
    Machine.Completes step (run s past) (collectAll stakes owners) ∧ ∀ owner,
      (run (run s past) (collectAll stakes owners)).tokens.balance (wallet owner) =
        (run s past).tokens.balance (wallet owner) +
          (if owner ∈ owners then (run s past).pending (pda.nosanaRewards owner) else 0) ∧
      (run (run s past) (collectAll stakes owners)).pending (pda.nosanaRewards owner) =
        if owner ∈ owners then 0 else (run s past).pending (pda.nosanaRewards owner) := by
  cases pool : (run s past).reflection with
  | none =>
      have nobody : (run s past).rewards = ∅ := by
        rcases run_funded genesis past tame with blank | ⟨reflection, present, -⟩
        · exact blank.rewards
        · cases pool.symm.trans present
      have empty : owners = [] := by
        apply List.eq_nil_iff_forall_not_mem.mpr
        intro owner member
        have inside := (entered owner member).account
        rw [nobody] at inside
        exact Finmap.notMem_empty inside
      subst empty
      exact ⟨rfl, fun owner => ⟨rfl, rfl⟩⟩
  | some reflection =>
      have serving := run_serving genesis wellFormed past tame pool
      refine turns_serve owners serving entered ?_
      by_cases still : (run s past).grown stakes owners = 0
      · rw [still]
        exact serving.fits
      · exact room still

namespace Sample

/-- Two have entered when a fee is paid. -/
def sharing : List Action := [init, enter 100, enterOther 300, addFee 12]

/-- One of them is slashed afterwards. -/
def slashed (owner : Pubkey) : Staking.StakeAccount :=
  if owner = staker then stake 60 else otherStake 300

end Sample

theorem everybody_can_collect_sample :
    Machine.Completes step (run Sample.start Sample.sharing)
        (collectAll Sample.slashed [Sample.payer, Sample.staker]) ∧
      (run (run Sample.start Sample.sharing)
        (collectAll Sample.slashed [Sample.payer, Sample.staker])).tokens.balance
          (wallet Sample.staker) = 3 := by
  have tame : ∀ event ∈ trace Sample.start Sample.sharing, Tame event := by decide +kernel
  have entered : ∀ owner ∈ [Sample.payer, Sample.staker],
      Entered (run Sample.start Sample.sharing) (Sample.slashed owner) owner := by
    intro owner member
    rcases List.mem_pair.mp member with rfl | rfl
    · exact ⟨by decide +kernel, by decide, by decide, by decide +kernel⟩
    · exact ⟨by decide +kernel, by decide, by decide, by decide +kernel⟩
  have still : (run Sample.start Sample.sharing).grown Sample.slashed
      [Sample.payer, Sample.staker] = 0 := by decide +kernel
  have ⟨completes, shares⟩ := everybody_can_collect Sample.genesis (by decide +kernel)
    Sample.sharing tame Sample.slashed [Sample.payer, Sample.staker] entered
    (fun grown => absurd still grown)
  refine ⟨completes, (shares Sample.staker).1.trans ?_⟩
  decide +kernel

end Nosana.Rewards
