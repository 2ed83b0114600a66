import Nosana.ChainSimulation
import Nosana.Releases

set_option autoImplicit false

/- Nobody's tokens are spent without their agreement, whatever programs are called and in which
order. -/
namespace Nosana.Chain

open Checked

/-- The vault that an instruction opens, closes or pays from. -/
def Instruction.vault : Instruction → Option Pubkey
  | .jobs ix => ix.vault
  | .staking ix => ix.vault
  | .rewards _ ix => ix.vault
  | .pools ix => ix.vault
  | .nodes _ => none

/-- Vaults that an instruction can take something from. -/
def Instruction.spends (ix : Instruction) (key : Pubkey) : Bool :=
  Chain.isVault key && decide (ix.vault = some key)

section

variable [Jobs.Runtime] {s s' : State}

/-- An instruction spends the tokens of those who sign, and what is in the vault it names. -/
theorem process_spends {ix : Instruction} (success : process s ix = .ok s') :
    Tokens.Spent ix.spends ix.signers s.tokens s'.tokens := by
  have covers : ∀ key ∈ ix.vault, isVault key = true → ix.spends key = true :=
    fun key named vault =>
    Bool.and_eq_true_iff.mpr ⟨vault, decide_eq_true named⟩
  cases process_effect success with
  | jobs processed =>
      exact Jobs.process_spent
        (fun key named vault => covers key named (isVault_of_jobs vault).1) processed
  | staking processed =>
      refine Staking.process_spent (fun key named vault => covers key named ?_) processed
      exact (isVault_of_network (Bool.or_eq_true_iff.mpr (Or.inl vault))).1
  | rewards processed =>
      refine Rewards.process_spent (fun key named vault => covers key named ?_) processed
      exact (isVault_of_network (Bool.or_eq_true_iff.mpr (Or.inr vault))).1
  | pools processed =>
      exact Pools.process_spent
        (fun key named vault => covers key named (isVault_of_pools vault).1) processed
  | nodes => exact .rest

/-- An account is left alone when neither its owner nor its delegate signs and it is not the vault
that is named. About what others do with it in the token program, nothing is known. -/
def Action.Spares (before : Tokens) (key : Pubkey) : Action → Prop
  | .instruction ix => (∀ account ∈ before.lookup key, ∀ spender ∈ account.spenders,
      spender ∉ ix.signers) ∧ ix.spends key = false
  | .tick _ => True
  | .external tokens => Tokens.Grows (before.lookup key) (tokens.lookup key)

instance (before : Tokens) (key : Pubkey) (action : Action) :
    Decidable (action.Spares before key) :=
  match action with
  | .instruction ix => inferInstanceAs (Decidable ((∀ account ∈ before.lookup key,
      ∀ spender ∈ account.spenders, spender ∉ ix.signers) ∧ ix.spends key = false))
  | .tick _ => .isTrue trivial
  | .external tokens =>
    inferInstanceAs (Decidable (Tokens.Grows (before.lookup key) (tokens.lookup key)))

theorem grows_step {action : Action} (success : step s action = .ok s') {key : Pubkey}
    (spared : action.Spares s.tokens key) :
    Tokens.Grows (s.tokens.lookup key) (s'.tokens.lookup key) := by
  cases action with
  | instruction ix =>
      simp only [step, bind_eq_ok, require_eq_ok, exists_const] at success
      exact (process_spends success.2).grows spared.2 spared.1
  | tick now =>
      cases step_effect success
      exact Tokens.grows_rfl _
  | external tokens =>
      cases step_effect success
      exact spared

/-- An account keeps its mint, its owner and all of its tokens over every run in which neither its
owner nor its delegate signs anything; a vault over every run in which no instruction names it. -/
theorem account_kept_unless_signed {s : State} (actions : List Action) {key : Pubkey}
    {account : TokenAccount} (present : s.tokens.lookup key = some account)
    (spared : ∀ event ∈ trace s actions, event.action.Spares event.before.tokens key) :
    ∃ kept, (run s actions).tokens.lookup key = some kept ∧ kept.mint = account.mint ∧
      kept.owner = account.owner ∧ account.amount ≤ kept.amount := by
  have grows : Tokens.Grows (some account) ((run s actions).tokens.lookup key) := by
    refine Machine.guarded_invariant
      (P := fun state => Tokens.Grows (some account) (state.tokens.lookup key)) _ ?_ ?_
      actions spared
    · rw [present]
      exact Tokens.grows_rfl _
    · intro state action after earlier success spared
      exact earlier.trans (grows_step success spared)
  cases last : (run s actions).tokens.lookup key with
  | none =>
      rw [last] at grows
      exact grows.elim
  | some kept =>
      rw [last] at grows
      obtain ⟨mint, owner⟩ := Prod.mk.inj grows.1
      exact ⟨kept, rfl, mint, owner, grows.2⟩

/-- No instruction of any program makes or destroys tokens. -/
theorem supply_kept {s : State} (actions : List Action) (mint : Pubkey)
    (others : ∀ event ∈ trace s actions, ∀ tokens, event.action = .external tokens →
      tokens.supply mint = event.before.tokens.supply mint) :
    (run s actions).tokens.supply mint = s.tokens.supply mint := by
  refine Machine.guarded_invariant
    (P := fun state => state.tokens.supply mint = s.tokens.supply mint)
    _ rfl ?_ actions others
  intro state action after earlier success others
  rw [← earlier]
  cases action with
  | instruction ix =>
      simp only [step, bind_eq_ok, require_eq_ok, exists_const] at success
      exact (process_spent success.2).supply_eq mint
  | tick now =>
      cases step_effect success
      rfl
  | external tokens =>
      cases step_effect success
      exact others tokens rfl

/-- Whose agreement an instruction needs to take tokens out of a vault, and for what. -/
def Release (s : State) (vault : Pubkey) : Instruction → Prop
  | .jobs ix => Jobs.Release s.board vault ix
  | .staking ix => Staking.Release s.network.staking vault ix
  | .rewards _ ix => Rewards.Release s.network.pool vault ix
  | .pools ix => Pools.Release s.emission vault ix
  | .nodes _ => False

theorem process_release {ix : Instruction} {vault : Pubkey} (success : process s ix = .ok s')
    (named : ix.vault = some vault) (less : s'.tokens.balance vault < s.tokens.balance vault) :
    Release s vault ix := by
  cases process_effect success with
  | jobs processed => exact Jobs.released processed named less
  | staking processed => exact Staking.released processed named less
  | rewards processed => exact Rewards.released processed named less
  | pools processed => exact Pools.released processed named less
  | nodes => cases named

/-- What leaves a vault is released: nobody else gets tokens out of a vault of any program, in no
run and not with the instructions of another program. -/
theorem vault_spent_by_release {s : State} (genesis : Genesis s) (actions : List Action) :
    ∀ event ∈ trace s actions, ∀ vault, isVault vault = true →
      event.after.tokens.balance vault < event.before.tokens.balance vault →
        ∃ ix, event.action = .instruction ix ∧ Release event.before vault ix := by
  rintro ⟨before, action, after⟩ member vault vaulted less
  have success := Machine.mem_trace_step member
  have coherent := (Machine.trace_invariant genesis.coherent
    (fun _ _ _ => coherent_step) actions _ member).1
  dsimp only at less success coherent
  cases action with
  | instruction ix =>
      refine ⟨ix, rfl, ?_⟩
      have ⟨_, users⟩ := step_allowed success
      simp only [step, bind_eq_ok, require_eq_ok, exists_const] at success
      by_cases named : ix.vault = some vault
      · exact process_release success.2 named less
      · have other : ix.spends vault = false := by
          rw [Instruction.spends, decide_eq_false named, Bool.and_false]
        have grows :=
          (process_spends success.2).grows other fun account present spender spends => by
          rw [coherent.wellFormed.spenders_of_owned coherent.owned
            (fun _ vault => derived_of_isVault vault) vaulted present] at spends
          rw [List.mem_singleton.mp spends]
          exact fun signed => Bool.noConfusion (vaulted.symm.trans (users vault signed))
        exact absurd less (not_lt.mpr grows.balance_le)
  | tick now =>
      cases step_effect success
      exact absurd less (lt_irrefl _)
  | external tokens =>
      cases step_effect success with
      | external external minted => exact absurd less (not_lt.mpr (external.balance_le vaulted))

end

theorem account_kept_unless_signed_sample :
    ∃ kept, (@run Jobs.Sample.runtime (Sample.run (Sample.actions.take 5))
        (Sample.actions.drop 5)).tokens.lookup Network.Sample.vault = some kept ∧
      kept.mint = id.nosToken ∧ kept.owner = Network.Sample.vault ∧ 600 ≤ kept.amount :=
  @account_kept_unless_signed Jobs.Sample.runtime _ _ Network.Sample.vault
    (.holding id.nosToken Network.Sample.vault 600) (by decide +kernel) (by decide +kernel)

theorem supply_kept_sample :
    (Sample.run Sample.actions).tokens.supply id.nosToken = constants.nosTotalSupply := by
  rw [show constants.nosTotalSupply = Sample.start.tokens.supply id.nosToken by decide +kernel]
  refine @supply_kept Jobs.Sample.runtime _ Sample.actions id.nosToken ?_
  intro event member tokens same
  have inside := Machine.action_mem member
  rw [same] at inside
  simp [Sample.actions, Sample.init, Sample.stake, Sample.enter, Sample.openMarket, Sample.list,
    Sample.work, Sample.finish] at inside

/-- The payment of the job is released by its node. -/
theorem vault_spent_by_release_sample :
    ∃ event ∈ Sample.trace Sample.actions, ∃ ix, event.action = .instruction ix ∧
      Release event.before Sample.marketVault ix := by
  have paid : ∃ event ∈ Sample.trace Sample.actions,
      event.after.tokens.balance Sample.marketVault <
        event.before.tokens.balance Sample.marketVault := by decide +kernel
  obtain ⟨event, member, less⟩ := paid
  exact ⟨event, member, @vault_spent_by_release Jobs.Sample.runtime _ Sample.genesis Sample.actions
    event member Sample.marketVault rfl less⟩

end Nosana.Chain
