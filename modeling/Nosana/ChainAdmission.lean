import Nosana.ChainSimulation
import Nosana.StakingInvariant

set_option autoImplicit false

/- Nodes have something to lose: whoever takes jobs in a market that asks for a stake has tokens
locked in the staking program at that moment. -/
namespace Nosana

open Checked

namespace Staking.StakeAccount

variable {stake : StakeAccount}

/-- A stake that weighs something is active, and weighs at most four times its amount. -/
theorem Bounded.weight_le (bounded : stake.Bounded) : stake.weight ≤ 4 * stake.amount := by
  unfold weight
  split
  · exact Nat.zero_le _
  · apply Nat.div_le_of_le_mul
    calc (stake.duration * xnosPrecision / xnosDiv + xnosPrecision) * stake.amount
        ≤ 4 * xnosPrecision * stake.amount := Nat.mul_le_mul_right _ bounded.factor_le
      _ = xnosPrecision * (4 * stake.amount) := by
        rw [Nat.mul_comm 4 xnosPrecision, Nat.mul_assoc]

theorem active_of_weight (some : 0 < stake.weight) : stake.timeUnstake = 0 := by
  by_contra unstaked
  rw [weight, if_pos unstaked] at some
  exact lt_irrefl 0 some

end Staking.StakeAccount

namespace Jobs

variable [Runtime] {s s' : State}

/-- Whoever takes a job passes a stake account that weighs what the market asks for. -/
theorem work_weighed {a : Accounts.Work} (success : work s a = .ok s') {market : MarketAccount}
    (present : s.markets.lookup a.market = some market) :
    a.stake = pda.nosanaStaking a.authority ∧ a.stakeAccount.authority = a.authority ∧
      market.nodeXnosMinimum ≤ a.stakeAccount.xnos := by
  simp only [work, workConstraints, bind_eq_ok, loadMarket_eq_ok, require_eq_ok,
    exists_const] at success
  obtain ⟨_, ⟨-, -, other, found, -, keyed, owned, weighs, -⟩, -⟩ := success
  cases present.symm.trans found
  exact ⟨keyed, owned, weighs⟩

end Jobs

namespace Chain

section

variable [Jobs.Runtime] {s : State}

/-- In every run, whoever takes a job has an own stake that weighs at least what the market asks
for, by its amount and duration as they are then. When that is something, the stake is active, it
has at least a quarter of it in tokens, and these are in its vault. -/
theorem worker_is_staked (genesis : Genesis s) (actions : List Action) :
    ∀ event ∈ trace s actions, ∀ a market, event.action = .instruction (.jobs (.work a)) →
      event.before.markets.lookup a.market = some market →
      ∃ stake, event.before.network.staking.stakes.lookup (pda.nosanaStaking a.authority) =
          some stake ∧ stake.authority = a.authority ∧ market.nodeXnosMinimum ≤ stake.xnos ∧
        stake.xnos = stake.weight ∧
        (0 < market.nodeXnosMinimum → stake.timeUnstake = 0 ∧
          market.nodeXnosMinimum ≤ 4 * stake.amount ∧
          stake.amount ≤ event.before.tokens.balance stake.vault) := by
  rintro ⟨before, action, after⟩ member a market rfl present
  have success := Machine.mem_trace_step member
  have fresh := (staking_part.trace_invariant genesis.steady genesis.network.staking.fresh
    (fun _ _ _ fresh success => Staking.fresh_step fresh success) actions _ member).1
  dsimp only at success fresh present ⊢
  have ⟨faithful, _⟩ := step_allowed success
  have read : before.network.staking.stakes.lookup a.stake = some a.stakeAccount :=
    faithful (a.stake, a.stakeAccount) rfl
  cases step_effect success with
  | jobs processed =>
      obtain ⟨keyed, owned, weighs⟩ := Jobs.work_weighed processed present
      have standing := fresh.sound.stakes _ _ read
      have cached : a.stakeAccount.xnos = a.stakeAccount.weight := fresh.cached _ _ read
      refine ⟨a.stakeAccount, keyed ▸ read, owned, weighs, cached, fun some => ?_⟩
      have bounded := standing.bounded.weight_le
      have active := Staking.StakeAccount.active_of_weight
        (show 0 < a.stakeAccount.weight by omega)
      exact ⟨active, by omega, standing.held active⟩

end

/-- The stake that a market asks for when a node takes a job in it. -/
def Event.asked (event : Event) : Option Nat :=
  match event.action with
  | .instruction (.jobs (.work a)) =>
    (event.before.markets.lookup a.market).map Jobs.MarketAccount.nodeXnosMinimum
  | _ => none

/-- The market of the sample asks for a weight of 600. -/
theorem worker_is_staked_sample :
    ∃ event ∈ Sample.trace Sample.actions, ∃ a, event.action = .instruction (.jobs (.work a)) ∧
      ∃ stake, event.before.network.staking.stakes.lookup (pda.nosanaStaking a.authority) =
          some stake ∧
        600 ≤ 4 * stake.amount ∧ stake.amount ≤ event.before.tokens.balance stake.vault := by
  obtain ⟨event, member, asked⟩ : ∃ event ∈ Sample.trace Sample.actions,
    event.asked = some 600 := by
    decide +kernel
  unfold Event.asked at asked
  split at asked
  · rename_i a work
    obtain ⟨market, present, minimum⟩ := Option.map_eq_some_iff.mp asked
    obtain ⟨stake, read, -, -, -, locked⟩ := @worker_is_staked Jobs.Sample.runtime _ Sample.genesis
      Sample.actions event member a market work present
    rw [minimum] at locked
    obtain ⟨-, weighs, held⟩ := locked (by decide)
    exact ⟨event, member, a, work, stake, read, weighs, held⟩
  · cases asked

end Chain

end Nosana
