import Nosana.Chain
import Nosana.NetworkSimulation

set_option autoImplicit false

/- A run of the chain looks to each of the programs like a run of its own: what the other
programs do is activity of others in the token program, and a fee that a pool pays is one that
somebody adds. -/
namespace Nosana

open Checked

/-! What a program sees of another one -/

theorem Staking.process_clock {s s' : State} {ix : Instruction}
    (user : isVault ix.authority = false) (success : process s ix = .ok s') :
    s'.clock = s.clock := by
  have stepped : step s (.instruction ix) = .ok s' := by
    simp only [step, bind_eq_ok, require_eq_ok]
    exact ⟨(), user, success⟩
  cases step_effect stepped <;> rfl

namespace Pools

/-- The fee that an instruction adds to the rewards pool. -/
def Instruction.fee (s : State) : Instruction → Option (Rewards.Accounts.AddFee × Nat)
  | .claimFee a =>
    match s.pools.lookup a.pool with
    | none => none
    | some pool =>
      match pool.claim (s.tokens.balance a.vault) s.clock with
      | .error _ => none
      | .ok (amount, claimed) =>
        if amount < claimed.emission then none
        else some (⟨a.vault, a.rewardsReflection, a.rewardsVault, a.vault⟩, amount)
  | _ => none

/-- An instruction adds its fee to the rewards pool, or leaves the rewards program alone. -/
theorem process_rewards {s s' : State} {ix : Instruction} (success : process s ix = .ok s') :
    s'.clock = s.clock ∧
      ((ix.fee s = none ∧ s'.rewards = { s.rewards with tokens := s'.tokens }) ∨
        ∃ a amount, ix.fee s = some (a, amount) ∧ isVault a.authority = true ∧
          Rewards.addFee s.rewards a amount = .ok s'.rewards) := by
  cases ix with
  | openPool a emission startTime claimType closeable =>
      simp only [process, openPool, bind_eq_ok, require_eq_ok, pure_eq_ok, exists_const] at success
      obtain ⟨-, -, -, -, -, -, rfl⟩ := success
      exact ⟨rfl, Or.inl ⟨rfl, rfl⟩⟩
  | claimFee a =>
      simp only [process, claimFee, bind_eq_ok, Prod.exists] at success
      obtain ⟨vault, pool, constraints, amount, claimed, computed, success⟩ := success
      obtain ⟨present, -, loaded, -⟩ := claimFeeConstraints_eq_ok constraints
      rw [← Tokens.balance_of_lookup loaded] at computed
      split at success
      · rename_i short
        cases success
        exact ⟨rfl, Or.inl ⟨by simp only [Instruction.fee, present, computed, short, if_true], rfl⟩⟩
      · rename_i enough
        simp only [bind_eq_ok, require_eq_ok, pure_eq_ok, exists_const] at success
        obtain ⟨vaulted, rewards, added, rfl⟩ := success
        refine ⟨rfl, Or.inr ⟨_, amount, ?_, ?_, added⟩⟩
        · simp only [Instruction.fee, present, computed, enough, if_false]
        · rw [vaulted]
          rfl
  | claimTransfer a =>
      simp only [process, claimTransfer, bind_eq_ok, require_eq_ok, pure_eq_ok, exists_const,
        Prod.exists] at success
      obtain ⟨-, -, -, -, -, -, -, tokens, -, rfl⟩ := success
      exact ⟨rfl, Or.inl ⟨rfl, rfl⟩⟩
  | close a =>
      simp only [process, close, bind_eq_ok, require_eq_ok, pure_eq_ok, exists_const] at success
      obtain ⟨-, -, -, -, -, -, -, -, -, -, tokens, -, rfl⟩ := success
      exact ⟨rfl, Or.inl ⟨rfl, rfl⟩⟩
  | updateBeneficiary a =>
      simp only [process, updateBeneficiary, bind_eq_ok, require_eq_ok, pure_eq_ok,
        exists_const] at success
      obtain ⟨-, -, -, -, -, -, -, -, -, rfl⟩ := success
      exact ⟨rfl, Or.inl ⟨rfl, rfl⟩⟩

end Pools

namespace Chain

section

variable [Jobs.Runtime] {s s' : State} {action : Action}

/-- What every successful step does. -/
inductive Effect (s : State) : Action → State → Prop
  | jobs {ix : Jobs.Instruction} {board : Jobs.State}
      (processed : Jobs.process s.board ix = .ok board) :
      Effect s (.instruction (.jobs ix)) (s.withBoard board)
  | staking {ix : Staking.Instruction} {staking : Staking.State}
      (processed : Staking.process s.network.staking ix = .ok staking) :
      Effect s (.instruction (.staking ix))
        { s with network := { s.network with staking := staking } }
  | rewards {stake : Pubkey} {ix : Rewards.Instruction} {pool : Rewards.State}
      (processed : Rewards.process s.network.pool ix = .ok pool) :
      Effect s (.instruction (.rewards stake ix)) { s with network := s.network.withPool pool }
  | pools {ix : Pools.Instruction} {emission : Pools.State}
      (processed : Pools.process s.emission ix = .ok emission) :
      Effect s (.instruction (.pools ix)) (s.withEmission emission)
  | nodes {ix : Nodes.Instruction} {nodes : Nodes.State}
      (processed : Nodes.process s.nodes ix = .ok nodes) :
      Effect s (.instruction (.nodes ix)) { s with nodes := nodes }
  | tick {now : Int} (later : s.clock ≤ now) (fits : Signed 64 now) :
      Effect s (.tick now) (s.withClock now)
  | external {tokens : Tokens}
      (external : Tokens.External isVault constants.nosTotalSupply s.tokens tokens)
      (minted : tokens.Minted) : Effect s (.external tokens) (s.withTokens tokens)

theorem process_effect {ix : Instruction} (success : process s ix = .ok s') :
    Effect s (.instruction ix) s' := by
  cases ix with
  | jobs ix =>
      simp only [process, bind_eq_ok, pure_eq_ok] at success
      obtain ⟨board, processed, rfl⟩ := success
      exact .jobs processed
  | staking ix =>
      simp only [process, bind_eq_ok, pure_eq_ok] at success
      obtain ⟨staking, processed, rfl⟩ := success
      exact .staking processed
  | rewards stake ix =>
      simp only [process, bind_eq_ok, pure_eq_ok] at success
      obtain ⟨pool, processed, rfl⟩ := success
      exact .rewards processed
  | pools ix =>
      simp only [process, bind_eq_ok, pure_eq_ok] at success
      obtain ⟨emission, processed, rfl⟩ := success
      exact .pools processed
  | nodes ix =>
      simp only [process, bind_eq_ok, pure_eq_ok] at success
      obtain ⟨nodes, processed, rfl⟩ := success
      exact .nodes processed

theorem step_effect (success : step s action = .ok s') : Effect s action s' := by
  cases action with
  | instruction ix =>
      simp only [step, bind_eq_ok, require_eq_ok, exists_const] at success
      exact process_effect success.2
  | tick now =>
      simp only [step, bind_eq_ok, require_eq_ok, pure_eq_ok, exists_const] at success
      obtain ⟨⟨later, fits⟩, rfl⟩ := success
      exact .tick later fits
  | external tokens =>
      simp only [step, bind_eq_ok, require_eq_ok, pure_eq_ok, exists_const] at success
      obtain ⟨⟨external, minted⟩, rfl⟩ := success
      exact .external external minted

theorem step_allowed {ix : Instruction} (success : step s (.instruction ix) = .ok s') :
    ix.Faithful s ∧ ix.SignedByUsers := by
  simp only [step, bind_eq_ok, require_eq_ok, exists_const] at success
  exact success.1

/-! The token accounts -/

/-- A program spends the tokens of those who sign, and what is in its own vaults. -/
theorem process_spent {ix : Instruction} (success : process s ix = .ok s') :
    Tokens.Spent ix.isVault ix.signers s.tokens s'.tokens := by
  cases process_effect success with
  | jobs processed => exact Jobs.process_spent (fun _ _ vault => vault) processed
  | staking processed => exact Staking.process_spent (fun _ _ vault => vault) processed
  | rewards processed => exact Rewards.process_spent (fun _ _ vault => vault) processed
  | pools processed => exact Pools.process_spent (fun _ _ vault => vault) processed
  | nodes => exact .rest

/-- What holds of the token accounts in every state of a run. -/
structure Coherent (s : State) : Prop where
  owned : Tokens.Owned isVault s.tokens
  wellFormed : s.tokens.WellFormed constants.nosTotalSupply
  minted : s.tokens.Minted

omit [Jobs.Runtime] in
theorem Genesis.coherent (genesis : Genesis s) : Coherent s := by
  refine ⟨fun key account vault present => ?_, genesis.network.staking.tokens, genesis.pools.minted⟩
  have absent : s.tokens.lookup key = none := by
    simp only [isVault, Bool.or_eq_true] at vault
    rcases vault with ((jobs | staking) | rewards) | pools
    · exact genesis.jobs.vaults key jobs
    · exact genesis.network.staking.vaults key staking
    · exact genesis.network.rewards.vaults key rewards
    · exact genesis.pools.vaults key pools
  rw [absent] at present
  cases present

omit [Jobs.Runtime] in
theorem addressed_of_isVault {ix : Instruction} (vault : Pubkey) (account : TokenAccount)
    (own : ix.isVault vault = true) : Tokens.Addressed vault account := by
  cases vault with
  | associatedToken owner mint => cases ix <;> cases own
  | _ => trivial

omit [Jobs.Runtime] in
theorem derived_of_isVault {key : Pubkey} (vault : isVault key = true) : key.derived = true := by
  cases key <;> first | rfl | cases vault

theorem coherent_step (coherent : Coherent s) (success : step s action = .ok s') : Coherent s' := by
  have ⟨owned, wellFormed, minted⟩ := coherent
  cases action with
  | instruction ix =>
      simp only [step, bind_eq_ok, require_eq_ok, exists_const] at success
      have spent := process_spent success.2
      exact ⟨spent.owned owned, spent.wellFormed addressed_of_isVault wellFormed,
        spent.minted minted⟩
  | tick now =>
      cases step_effect success
      exact ⟨owned, wellFormed, minted⟩
  | external tokens =>
      cases step_effect success with
      | external external minted =>
          exact ⟨owned.of_kinds fun key vault => external.kind_eq vault, external.wellFormed,
            minted⟩

/-- The vaults that an action can spend from. -/
def Action.isVault : Action → Pubkey → Bool
  | .instruction ix => ix.isVault
  | _ => fun _ => false

/-- To the vaults of another program only comes something in. -/
theorem step_external (coherent : Coherent s) (success : step s action = .ok s')
    {other : Pubkey → Bool}
    (apart : ∀ key, other key = true → isVault key = true ∧ action.isVault key = false) :
    Tokens.External other constants.nosTotalSupply s.tokens s'.tokens := by
  have ⟨owned, wellFormed, _⟩ := coherent
  cases action with
  | instruction ix =>
      have ⟨_, users⟩ := step_allowed success
      simp only [step, bind_eq_ok, require_eq_ok, exists_const] at success
      exact (process_spent success.2).external owned wellFormed addressed_of_isVault apart
        (fun _ vault => derived_of_isVault vault) users
  | tick now =>
      cases step_effect success
      exact ⟨wellFormed, fun key _ => Tokens.grows_rfl _⟩
  | external tokens =>
      cases step_effect success with
      | external external minted =>
          exact ⟨external.wellFormed, fun key vault => external.vaults key (apart key vault).1⟩

end

/-! What happens, as the programs see it -/

def jobsSeen (event : Event) : Option Jobs.Action :=
  match event.action with
  | .instruction (.jobs ix) => some (.instruction ix)
  | .tick now => some (.tick now)
  | _ => some (.external event.after.tokens)

/-- A fee that a pool pays is one that is added with the signature of its vault. -/
def networkSeen (event : Event) : Option Network.Action :=
  match event.action with
  | .instruction (.staking ix) => some (.staking ix)
  | .instruction (.rewards stake ix) => some (.rewards stake ix)
  | .instruction (.pools ix) =>
    match ix.fee event.before.emission with
    | some (a, amount) => some (.rewards a.reflection (.addFee a amount))
    | none => some (.external event.after.tokens)
  | .tick now => some (.tick now)
  | _ => some (.external event.after.tokens)

def poolsSeen (event : Event) : Option Pools.Action :=
  match event.action with
  | .instruction (.pools ix) => some (.instruction ix)
  | .tick now => some (.tick now)
  | _ => some (.external event.after.network.pool)

def nodesSeen (event : Event) : Option Nodes.Instruction :=
  match event.action with
  | .instruction (.nodes ix) => some ix
  | _ => none

/-! The vaults of one program are no vaults of another -/

theorem isVault_of_jobs {key : Pubkey} (vault : Jobs.isVault key = true) :
    isVault key = true ∧ Staking.isVault key = false ∧ Rewards.isVault key = false ∧
      Pools.isVault key = false := by
  cases key <;> first | exact ⟨rfl, rfl, rfl, rfl⟩ | cases vault

theorem isVault_of_network {key : Pubkey} (vault : Network.isVault key = true) :
    isVault key = true ∧ Jobs.isVault key = false ∧ Pools.isVault key = false := by
  cases key <;> first | exact ⟨rfl, rfl, rfl⟩ | cases vault

theorem isVault_of_pools {key : Pubkey} (vault : Pools.isVault key = true) :
    isVault key = true ∧ Jobs.isVault key = false ∧ Staking.isVault key = false ∧
      Rewards.isVault key = false := by
  cases key <;> first | exact ⟨rfl, rfl, rfl, rfl⟩ | cases vault

/-- No vault of any program signs an instruction of one of them. -/
theorem not_isVault {ix : Instruction} {signer : Pubkey} (users : ix.SignedByUsers)
    (signs : signer ∈ ix.signers) : Jobs.isVault signer = false ∧ Staking.isVault signer = false ∧
      Rewards.isVault signer = false ∧ Pools.isVault signer = false := by
  have user := users signer signs
  simpa [isVault, and_assoc] using user

/-! The parts of the chain -/

section

variable [Jobs.Runtime]

/-- What the other programs do is, for the jobs program, activity of others. -/
theorem jobs_external {s s' : State} {action : Action} (coherent : Coherent s)
    (success : step s action = .ok s')
    (other : ∀ key, Jobs.isVault key = true → action.isVault key = false)
    (same : s'.board = { s.board with tokens := s'.tokens }) :
    Jobs.step s.board (.external s'.tokens) = .ok s'.board := by
  have external := step_external coherent success fun key vault =>
    ⟨(isVault_of_jobs vault).1, other key vault⟩
  simp only [Jobs.step, bind_eq_ok, require_eq_ok, pure_eq_ok]
  exact ⟨(), ⟨external.wellFormed.mono (by decide), external.vaults⟩, same.symm⟩

theorem jobs_part : Machine.Part step Coherent Jobs.step State.board jobsSeen where
  kept _ coherent success := coherent_step coherent success
  own := by
    rintro ⟨s, action, s'⟩ coherent success seen label
    dsimp only at coherent success ⊢
    cases step_effect success with
    | @jobs ix board processed =>
        cases label
        have clock : board = { board with clock := s.clock } := by
          rw [← show board.clock = s.clock from Jobs.process_clock processed]
        rw [State.board_withBoard, ← clock]
        exact processed
    | staking processed =>
        cases label
        have ⟨_, users⟩ := step_allowed success
        have user := (not_isVault users (List.mem_singleton_self _)).2.1
        refine jobs_external coherent success (fun key vault => (isVault_of_jobs vault).2.1) ?_
        have clock := Staking.process_clock user processed
        simp only [State.board, State.clock, State.tokens, clock]
    | rewards processed =>
        cases label
        exact jobs_external coherent success (fun key vault => (isVault_of_jobs vault).2.2.1) rfl
    | pools processed =>
        cases label
        exact jobs_external coherent success (fun key vault => (isVault_of_jobs vault).2.2.2) rfl
    | nodes processed | external external minted =>
        cases label
        exact jobs_external coherent success (fun _ _ => rfl) rfl
    | tick later fits =>
        cases label
        simp only [Jobs.step, bind_eq_ok, require_eq_ok, pure_eq_ok]
        exact ⟨(), ⟨later, fits⟩, rfl⟩
  frame := by
    rintro ⟨s, action, s'⟩ - - label
    simp only [jobsSeen] at label
    split at label <;> cases label

theorem network_external {s s' : State} {action : Action} (coherent : Coherent s)
    (success : step s action = .ok s')
    (other : ∀ key, Network.isVault key = true → action.isVault key = false)
    (same : s'.network =
      { s.network with staking := { s.network.staking with tokens := s'.tokens } }) :
    Network.step s.network (.external s'.tokens) = .ok s'.network := by
  have external := step_external coherent success fun key vault =>
    ⟨(isVault_of_network vault).1, other key vault⟩
  simp only [Network.step, Network.process, bind_eq_ok, require_eq_ok, pure_eq_ok]
  exact ⟨(), ⟨trivial, trivial⟩, (), external, same.symm⟩

theorem network_part : Machine.Part step Coherent Network.step State.network networkSeen where
  kept _ coherent success := coherent_step coherent success
  own := by
    rintro ⟨s, action, s'⟩ coherent success seen label
    dsimp only at coherent success ⊢
    cases step_effect success with
    | jobs processed =>
        cases label
        exact network_external coherent success
          (fun key vault => (isVault_of_network vault).2.1) rfl
    | staking processed =>
        cases label
        obtain ⟨faithful, users⟩ := step_allowed success
        have user := not_isVault users (List.mem_singleton_self _)
        simp only [Network.step, Network.process, bind_eq_ok, require_eq_ok, pure_eq_ok]
        exact ⟨(), ⟨faithful, Bool.or_eq_false_iff.mpr ⟨user.2.1, user.2.2.1⟩⟩, _, processed, rfl⟩
    | rewards processed =>
        cases label
        obtain ⟨faithful, users⟩ := step_allowed success
        simp only [Network.step, Network.process, bind_eq_ok, require_eq_ok, pure_eq_ok]
        refine ⟨(), ⟨faithful, fun signer signs => ?_⟩, _, processed, rfl⟩
        have user := not_isVault users (Option.mem_toList.mpr signs)
        exact Bool.or_eq_false_iff.mpr ⟨user.2.1, user.2.2.1⟩
    | pools processed =>
        rcases (Pools.process_rewards processed).2 with
          ⟨free, same⟩ | ⟨a, amount, fee, vaulted, added⟩
        · simp only [networkSeen, free, Option.mem_some] at label
          cases label
          refine network_external coherent success
            (fun key vault => (isVault_of_network vault).2.2) ?_
          exact congrArg s.network.withPool same
        · simp only [networkSeen, fee, Option.mem_some] at label
          cases label
          have user : Network.isVault a.authority = false := by
            cases vault : Network.isVault a.authority with
            | false => rfl
            | true => cases vaulted.symm.trans (isVault_of_network vault).2.2
          simp only [Network.step, Network.process, bind_eq_ok, require_eq_ok, pure_eq_ok]
          refine ⟨(), ⟨?_, ?_⟩, _, added, rfl⟩
          · intro stake read
            cases read
          · intro signer signs
            cases signs
            exact user
    | nodes processed =>
        cases label
        exact network_external coherent success (fun _ _ => rfl) rfl
    | external external minted =>
        cases label
        exact network_external coherent success (fun _ _ => rfl) rfl
    | tick later fits =>
        cases label
        simp only [Network.step, Network.process, bind_eq_ok, require_eq_ok, pure_eq_ok]
        exact ⟨(), ⟨trivial, trivial⟩, (), ⟨later, fits⟩, rfl⟩
  frame := by
    rintro ⟨s, action, s'⟩ - - label
    simp only [networkSeen] at label
    split at label
    · cases label
    · cases label
    · split at label <;> cases label
    · cases label
    · cases label

theorem pools_external {s s' : State} {action : Action} (coherent : Coherent s)
    (success : step s action = .ok s')
    (other : ∀ key, Pools.isVault key = true → action.isVault key = false)
    (same : s'.emission = { s.emission with rewards := s'.network.pool }) :
    Pools.step s.emission (.external s'.network.pool) = .ok s'.emission := by
  have external := step_external coherent success fun key vault =>
    ⟨(isVault_of_pools vault).1, other key vault⟩
  simp only [Pools.step, bind_eq_ok, require_eq_ok, pure_eq_ok]
  exact ⟨(), ⟨⟨external.wellFormed.mono (by decide), external.vaults⟩,
    (coherent_step coherent success).minted⟩, same.symm⟩

theorem pools_part : Machine.Part step Coherent Pools.step State.emission poolsSeen where
  kept _ coherent success := coherent_step coherent success
  own := by
    rintro ⟨s, action, s'⟩ coherent success seen label
    dsimp only at coherent success ⊢
    cases step_effect success with
    | jobs processed =>
        cases label
        exact pools_external coherent success (fun key vault => (isVault_of_pools vault).2.1) rfl
    | staking processed =>
        cases label
        have ⟨_, users⟩ := step_allowed success
        have user := (not_isVault users (List.mem_singleton_self _)).2.1
        refine pools_external coherent success (fun key vault => (isVault_of_pools vault).2.2.1) ?_
        have clock := Staking.process_clock user processed
        simp only [State.emission, State.clock, clock]
    | rewards processed =>
        cases label
        exact pools_external coherent success (fun key vault => (isVault_of_pools vault).2.2.2) rfl
    | @pools ix emission processed =>
        cases label
        have ⟨_, users⟩ := step_allowed success
        have user := (not_isVault users (List.mem_singleton_self _)).2.2.2
        have clock : emission = { emission with clock := s.clock } := by
          rw [← show emission.clock = s.clock from (Pools.process_rewards processed).1]
        rw [State.emission_withEmission, ← clock]
        simp only [Pools.step, bind_eq_ok, require_eq_ok]
        exact ⟨(), user, processed⟩
    | nodes processed =>
        cases label
        exact pools_external coherent success (fun _ _ => rfl) rfl
    | external external minted =>
        cases label
        exact pools_external coherent success (fun _ _ => rfl) rfl
    | tick later fits =>
        cases label
        simp only [Pools.step, bind_eq_ok, require_eq_ok, pure_eq_ok]
        exact ⟨(), ⟨later, fits⟩, rfl⟩
  frame := by
    rintro ⟨s, action, s'⟩ - - label
    simp only [poolsSeen] at label
    split at label <;> cases label

theorem nodes_part : Machine.Part step Coherent Nodes.process State.nodes nodesSeen where
  kept _ coherent success := coherent_step coherent success
  own := by
    rintro ⟨s, action, s'⟩ coherent success seen label
    dsimp only at coherent success ⊢
    cases step_effect success with
    | nodes processed =>
        cases label
        exact processed
    | _ => cases label
  frame := by
    rintro ⟨s, action, s'⟩ coherent success label
    dsimp only at coherent success ⊢
    cases step_effect success with
    | nodes processed => cases label
    | _ => rfl

/-- What happens, as the staking program sees it. -/
def stakingSeen (event : Event) : Option Staking.Action :=
  (event.project State.network networkSeen).bind Network.stakingSeen

/-- What happens, as the rewards program sees it. -/
def rewardsSeen (event : Event) : Option Rewards.Action :=
  (event.project State.network networkSeen).bind Network.rewardsSeen

/-- What holds in every state of a run, with what the staking program keeps. -/
def Steady (s : State) : Prop := Coherent s ∧ Network.Coherent s.network

omit [Jobs.Runtime] in
theorem Genesis.steady {s : State} (genesis : Genesis s) : Steady s :=
  ⟨genesis.coherent, genesis.network.coherent⟩

theorem staking_part :
    Machine.Part step Steady Staking.step (fun s => s.network.staking) stakingSeen :=
  network_part.comp Network.staking_part

theorem rewards_part :
    Machine.Part step Steady Rewards.step (fun s => s.network.pool) rewardsSeen :=
  network_part.comp Network.rewards_part

/-- Every run of the chain is, to each of the programs, a run of its own: step by step, with the
accounts of the program before and after, and with the same last state. -/
theorem runs_of_programs {s : State} (genesis : Genesis s) (actions : List Action) :
    (Jobs.trace s.board ((trace s actions).filterMap jobsSeen) =
        (trace s actions).filterMap (Machine.Event.project State.board jobsSeen) ∧
      Jobs.run s.board ((trace s actions).filterMap jobsSeen) = (run s actions).board) ∧
    (Staking.trace s.network.staking ((trace s actions).filterMap stakingSeen) =
        (trace s actions).filterMap
          (Machine.Event.project (fun state => state.network.staking) stakingSeen) ∧
      Staking.run s.network.staking ((trace s actions).filterMap stakingSeen) =
        (run s actions).network.staking) ∧
    (Rewards.trace s.network.pool ((trace s actions).filterMap rewardsSeen) =
        (trace s actions).filterMap
          (Machine.Event.project (fun state => state.network.pool) rewardsSeen) ∧
      Rewards.run s.network.pool ((trace s actions).filterMap rewardsSeen) =
        (run s actions).network.pool) ∧
    (Pools.trace s.emission ((trace s actions).filterMap poolsSeen) =
        (trace s actions).filterMap (Machine.Event.project State.emission poolsSeen) ∧
      Pools.run s.emission ((trace s actions).filterMap poolsSeen) = (run s actions).emission) ∧
    (Machine.trace Nodes.process s.nodes ((trace s actions).filterMap nodesSeen) =
        (trace s actions).filterMap (Machine.Event.project State.nodes nodesSeen) ∧
      Machine.run Nodes.process s.nodes ((trace s actions).filterMap nodesSeen) =
        (run s actions).nodes) :=
  ⟨jobs_part.simulates genesis.coherent actions, staking_part.simulates genesis.steady actions,
    rewards_part.simulates genesis.steady actions, pools_part.simulates genesis.coherent actions,
    nodes_part.simulates genesis.coherent actions⟩

end

theorem runs_of_programs_sample :
    @Jobs.run Jobs.Sample.runtime Sample.start.board
        ((Sample.trace Sample.actions).filterMap jobsSeen) = (Sample.run Sample.actions).board ∧
      Staking.run Sample.start.network.staking
        ((Sample.trace Sample.actions).filterMap stakingSeen) =
          (Sample.run Sample.actions).network.staking ∧
      Rewards.run Sample.start.network.pool
        ((Sample.trace Sample.actions).filterMap rewardsSeen) =
          (Sample.run Sample.actions).network.pool := by
  have ⟨jobs, staking, rewards, _⟩ :=
    @runs_of_programs Jobs.Sample.runtime _ Sample.genesis Sample.actions
  exact ⟨jobs.2, staking.2, rewards.2⟩

end Chain

end Nosana
