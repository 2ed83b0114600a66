import Nosana.Projection
import Nosana.Spending

set_option autoImplicit false

/- A run of both programs looks to each of them like a run of its own: what the other one
does is activity of others in the token program. -/
namespace Nosana.Network

open Checked

/-! What the instructions do -/

theorem derived_of_isVault {key : Pubkey} (vault : isVault key = true) : key.derived = true := by
  cases key <;> first | rfl | cases vault

theorem addressed_of_isVault {key : Pubkey} (account : TokenAccount) (vault : isVault key = true) :
    Tokens.Addressed key account := by
  cases key <;> trivial

theorem isVault_of_staking {key : Pubkey} (vault : Staking.isVault key = true) :
    isVault key = true ∧ Rewards.isVault key = false := by
  cases key <;> first | exact ⟨rfl, rfl⟩ | cases vault

theorem isVault_of_rewards {key : Pubkey} (vault : Rewards.isVault key = true) :
    isVault key = true ∧ Staking.isVault key = false := by
  cases key <;> first | exact ⟨rfl, rfl⟩ | cases vault

/-- An instruction of the staking program that users sign is a step of that program. -/
theorem staking_step {s s' : Staking.State} {ix : Staking.Instruction}
    (user : isVault ix.authority = false) (success : Staking.process s ix = .ok s') :
    Staking.step s (.instruction ix) = .ok s' := by
  unfold isVault at user
  simp only [Staking.step, bind_eq_ok, require_eq_ok]
  exact ⟨(), (Bool.or_eq_false_iff.mp user).1, success⟩

theorem staking_spent {s s' : Staking.State} {ix : Staking.Instruction}
    (success : Staking.process s ix = .ok s') :
    Tokens.Spent Staking.isVault [ix.authority] s.tokens s'.tokens :=
  Staking.process_spent (fun _ _ vault => vault) success

theorem rewards_spent {s s' : Rewards.State} {ix : Rewards.Instruction}
    (success : Rewards.process s ix = .ok s') :
    Tokens.Spent Rewards.isVault ix.signers s.tokens s'.tokens :=
  Rewards.process_spent (fun _ _ vault => vault) success

/-! What each program sees -/

/-- What happens, as the staking program sees it. -/
def stakingSeen (event : Event) : Option Staking.Action :=
  match event.action with
  | .staking ix => some (.instruction ix)
  | .tick now => some (.tick now)
  | _ => some (.external event.after.staking.tokens)

/-- What happens, as the rewards program sees it. -/
def rewardsSeen (event : Event) : Option Rewards.Action :=
  match event.action with
  | .rewards _ ix => some (.instruction ix)
  | .tick _ => none
  | _ => some (.external event.after.staking.tokens)

/-- What holds in every state of a run. -/
structure Coherent (s : State) : Prop where
  sound : Staking.Sound s.staking
  owned : Tokens.Owned isVault s.staking.tokens

theorem Genesis.coherent {s : State} (genesis : Genesis s) : Coherent s := by
  refine ⟨genesis.staking.sound, fun key account vault present => ?_⟩
  have none : s.staking.tokens.lookup key = none := by
    unfold isVault at vault
    rcases Bool.or_eq_true_iff.mp vault with staking | rewards
    · exact genesis.staking.vaults key staking
    · exact genesis.rewards.vaults key rewards
  rw [none] at present
  cases present

section

variable {s s' : State} {action : Action}

theorem step_eq_ok (success : step s action = .ok s') :
    Faithful s action ∧ SignedByUsers action ∧ process s action = .ok s' := by
  simp only [step, bind_eq_ok, require_eq_ok, exists_const] at success
  exact ⟨success.1.1, success.1.2, success.2⟩

theorem mem_signers {ix : Rewards.Instruction} {signer : Pubkey} (signs : signer ∈ ix.signers) :
    signer ∈ ix.signer := Option.mem_toList.mp signs

/-- An instruction of the rewards program moves nothing out of the vault of a stake. -/
theorem staking_external {pool : Rewards.State} {ix : Rewards.Instruction} (coherent : Coherent s)
    (users : ∀ signer ∈ ix.signer, isVault signer = false)
    (success : Rewards.process s.pool ix = .ok pool) :
    Tokens.External Staking.isVault constants.nosTotalSupply s.staking.tokens pool.tokens :=
  (rewards_spent success).external coherent.owned coherent.sound.tokens
    (fun _ account vault => addressed_of_isVault account (isVault_of_rewards vault).1)
    (fun _ vault => isVault_of_staking vault) (fun _ vault => derived_of_isVault vault)
    (fun signer signs => users signer (mem_signers signs))

/-- An instruction of the staking program moves nothing out of the vault of the pool. -/
theorem rewards_external {staking : Staking.State} {ix : Staking.Instruction}
    (coherent : Coherent s) (user : isVault ix.authority = false)
    (success : Staking.process s.staking ix = .ok staking) :
    Tokens.External Rewards.isVault supplyCap s.staking.tokens staking.tokens :=
  (staking_spent success).external coherent.owned (coherent.sound.tokens.mono (by decide))
    (fun _ account vault => addressed_of_isVault account (isVault_of_staking vault).1)
    (fun _ vault => isVault_of_rewards vault) (fun _ vault => derived_of_isVault vault)
    (fun signer signs => by rw [List.mem_singleton.mp signs]; exact user)

/-- The staking program sees a step of its own. -/
theorem staking_sees (coherent : Coherent s) (success : step s action = .ok s')
    {seen : Staking.Action} (label : seen ∈ stakingSeen ⟨s, action, s'⟩) :
    Staking.step s.staking seen = .ok s'.staking := by
  obtain ⟨-, users, processed⟩ := step_eq_ok success
  cases action with
  | staking ix =>
      cases label
      simp only [process, bind_eq_ok, pure_eq_ok] at processed
      obtain ⟨staking, processed, rfl⟩ := processed
      exact staking_step users processed
  | rewards stake ix =>
      cases label
      simp only [process, bind_eq_ok, pure_eq_ok] at processed
      obtain ⟨pool, processed, rfl⟩ := processed
      simp only [Staking.step, bind_eq_ok, require_eq_ok, pure_eq_ok]
      exact ⟨(), staking_external coherent users processed, rfl⟩
  | tick now =>
      cases label
      simp only [process, bind_eq_ok, require_eq_ok, pure_eq_ok, exists_const] at processed
      obtain ⟨later, rfl⟩ := processed
      simp only [Staking.step, bind_eq_ok, require_eq_ok, pure_eq_ok]
      exact ⟨(), later, trivial⟩
  | external tokens =>
      cases label
      simp only [process, bind_eq_ok, require_eq_ok, pure_eq_ok, exists_const] at processed
      obtain ⟨allowed, rfl⟩ := processed
      simp only [Staking.step, bind_eq_ok, require_eq_ok, pure_eq_ok]
      exact ⟨(), ⟨allowed.wellFormed, fun key vault =>
        allowed.vaults key (isVault_of_staking vault).1⟩, trivial⟩

/-- The rewards program sees a step of its own, or none. -/
theorem rewards_sees (coherent : Coherent s) (success : step s action = .ok s')
    {seen : Rewards.Action} (label : seen ∈ rewardsSeen ⟨s, action, s'⟩) :
    Rewards.step s.pool seen = .ok s'.pool := by
  obtain ⟨-, users, processed⟩ := step_eq_ok success
  cases action with
  | staking ix =>
      cases label
      simp only [process, bind_eq_ok, pure_eq_ok] at processed
      obtain ⟨staking, processed, rfl⟩ := processed
      simp only [Rewards.step, bind_eq_ok, require_eq_ok, pure_eq_ok]
      exact ⟨(), rewards_external coherent users processed, rfl⟩
  | rewards stake ix =>
      cases label
      simp only [process, bind_eq_ok, pure_eq_ok] at processed
      obtain ⟨pool, processed, rfl⟩ := processed
      exact processed
  | tick now => cases label
  | external tokens =>
      cases label
      simp only [process, bind_eq_ok, require_eq_ok, pure_eq_ok, exists_const] at processed
      obtain ⟨allowed, rfl⟩ := processed
      simp only [Rewards.step, bind_eq_ok, require_eq_ok, pure_eq_ok]
      exact ⟨(), ⟨allowed.wellFormed.mono (by decide), fun key vault =>
        allowed.vaults key (isVault_of_rewards vault).1⟩, rfl⟩

theorem coherent_step (coherent : Coherent s) (success : step s action = .ok s') : Coherent s' := by
  have ⟨sound, owned⟩ := coherent
  have ⟨seen, label⟩ : ∃ seen, seen ∈ stakingSeen ⟨s, action, s'⟩ := by
    cases action <;> exact ⟨_, rfl⟩
  refine ⟨Staking.sound_step sound (staking_sees coherent success label), ?_⟩
  obtain ⟨-, users, success⟩ := step_eq_ok success
  cases action with
  | staking ix =>
      simp only [process, bind_eq_ok, pure_eq_ok] at success
      obtain ⟨staking, processed, rfl⟩ := success
      exact (staking_spent processed).owned owned
  | rewards stake ix =>
      simp only [process, bind_eq_ok, pure_eq_ok] at success
      obtain ⟨pool, processed, rfl⟩ := success
      exact (rewards_spent processed).owned owned
  | tick now =>
      simp only [process, bind_eq_ok, require_eq_ok, pure_eq_ok, exists_const] at success
      obtain ⟨-, rfl⟩ := success
      exact owned
  | external tokens =>
      simp only [process, bind_eq_ok, require_eq_ok, pure_eq_ok, exists_const] at success
      obtain ⟨allowed, rfl⟩ := success
      exact owned.of_kinds fun key vault => allowed.kind_eq vault

end

/-! The programs as parts of the network of both -/

theorem staking_part :
    Machine.Part step Coherent Staking.step State.staking stakingSeen where
  kept _ coherent success := coherent_step coherent success
  own _ coherent success _ label := staking_sees coherent success label
  frame := by
    rintro ⟨s, action, s'⟩ - - label
    simp only [stakingSeen] at label
    split at label <;> cases label

theorem rewards_part : Machine.Part step Coherent Rewards.step State.pool rewardsSeen where
  kept _ coherent success := coherent_step coherent success
  own _ coherent success _ label := rewards_sees coherent success label
  frame := by
    rintro ⟨s, action, s'⟩ - success label
    dsimp only at success ⊢
    obtain ⟨-, -, processed⟩ := step_eq_ok success
    cases action with
    | tick now =>
        simp only [process, bind_eq_ok, require_eq_ok, pure_eq_ok, exists_const] at processed
        obtain ⟨-, rfl⟩ := processed
        rfl
    | _ => cases label

end Nosana.Network
