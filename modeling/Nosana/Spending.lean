import Nosana.Custody
import Nosana.JobsEffects
import Nosana.Network
import Nosana.PoolsEffects

set_option autoImplicit false

/- Whose tokens the instructions of the programs move. Each program touches one vault at most with
an instruction, the one that its caller names. -/
namespace Nosana

open Checked Tokens

namespace Jobs

/-- Who signs an instruction, apart from the accounts that it creates. -/
def Instruction.signers : Instruction → List Pubkey
  | .openMarket a _ _ _ _ _ => [a.authority]
  | .update a _ _ _ _ _ => [a.authority]
  | .close a => [a.authority]
  | .closeAdmin a => [a.authority]
  | .setSettings a => [a.authority]
  | .closeSettings a => [a.authority]
  | .assign a _ _ => [a.payer, a.authority]
  | .list a _ _ => [a.payer, a.authority]
  | .delist a => [a.authority]
  | .recover a => [a.authority]
  | .extend a _ => [a.authority, a.payer]
  | .endJob a => [a.authority]
  | .work a => [a.payer, a.authority]
  | .stop a => [a.authority]
  | .complete a _ => [a.authority]
  | .finish a _ => [a.authority]
  | .quit a => [a.authority]
  | .quitAdmin a => [a.authority]
  | .clean _ => []
  | .cleanAdmin a => [a.authority]

/-- The vault that an instruction opens, closes or pays from. -/
def Instruction.vault : Instruction → Option Pubkey
  | .openMarket a _ _ _ _ _ => some a.vault
  | .close a => some a.vault
  | .closeAdmin a => some a.vault
  | .delist a => some a.vault
  | .recover a => some a.vault
  | .endJob a => some a.vault
  | .finish a _ => some a.vault
  | _ => none

variable {own : Pubkey → Bool} {signers : List Pubkey} {before tokens result : Tokens}

theorem payDeposit_spent {job : JobAccount} {duration : Int}
    {user vault rewardsVault payer : Pubkey} (signer : payer ∈ signers)
    (success : payDeposit tokens job duration user vault rewardsVault payer = .ok result) :
    Spent own signers tokens result := by
  rcases payDeposit_eq_ok.mp success with ⟨-, rfl⟩ | ⟨-, deposit, -, moved⟩
  · exact .rest
  · exact .signed .rest signer moved

theorem transferFromVault_spent {market vault destination : Pubkey} {amount : Nat}
    (covers : isVault vault = true → own vault = true) (earlier : Spent own signers before tokens)
    (success : transferFromVault tokens market vault destination amount = .ok result) :
    Spent own signers before result := by
  obtain ⟨account, -, seeds, moved⟩ := transferFromVault_eq_ok.mp success
  exact .paid earlier (covers (by rw [seeds]; rfl)) moved

theorem settle_spent {job : JobAccount} {market vault user deposit : Pubkey}
    (covers : isVault vault = true → own vault = true)
    (success : settle tokens job market vault user deposit = .ok result) :
    Spent own signers tokens result := by
  rcases settle_eq_ok.mp success with ⟨-, rfl⟩ | ⟨-, total, amount, paid, -, -, -, first, second⟩
  · exact .rest
  · exact transferFromVault_spent covers (transferFromVault_spent covers .rest first) second

theorem Refunded.spent {job : JobAccount} {market vault deposit : Pubkey}
    (refunded : Refunded tokens result job market vault deposit)
    (covers : isVault vault = true → own vault = true) :
    Spent own signers tokens result := by
  rcases refunded with ⟨-, rfl⟩ | ⟨-, total, -, moved⟩
  · exact .rest
  · exact transferFromVault_spent covers .rest moved

/-- The vault of a market that is closed has been emptied. -/
theorem closeVaultAndMarket_spent {s s' : State} {a : Accounts.Close} {market : MarketAccount}
    (covers : isVault a.vault = true → own a.vault = true)
    (success : closeVaultAndMarket s a market = .ok s') :
    Spent own signers s.tokens s'.tokens := by
  simp only [closeVaultAndMarket, Tokens.load, bind_eq_ok, get_eq_ok, require_eq_ok, pure_eq_ok,
    exists_and_left, exists_and_right, exists_const] at success
  obtain ⟨-, -, vault, loaded, -, apart, -, emptied, moved, rfl⟩ := success
  obtain ⟨account, found, seeds, transferred⟩ := transferFromVault_eq_ok.mp moved
  cases loaded.symm.trans found
  obtain ⟨rest, left, -⟩ := Tokens.exists_of_kind (Tokens.kind_transfer transferred a.vault) found
  have balance := Tokens.balance_source transferred apart
  rw [Tokens.balance_of_lookup left, Tokens.balance_of_lookup found] at balance
  have vaulted := covers (by rw [seeds]; rfl)
  have spent : Spent own signers s.tokens emptied := transferFromVault_spent covers .rest moved
  have closed := Spent.closed spent vaulted left (by omega)
  unfold State.closeSettingsAccount
  split <;> exact closed

/-- The jobs program spends the tokens of those who sign, and what is in the vaults of markets. -/
theorem process_spent [Runtime] {s s' : State} {ix : Instruction}
    (covers : ∀ vault ∈ ix.vault, isVault vault = true → own vault = true)
    (success : process s ix = .ok s') : Spent own ix.signers s.tokens s'.tokens := by
  have stepped : step s (.instruction ix) = .ok s' := success
  cases step_effect stepped with
  | @openMarket a _ _ _ _ _ _ fresh freshVault seeds =>
      exact .opened .rest (covers a.vault rfl (by rw [seeds]; rfl)) freshVault.2.2.2.2 _
  | @closeMarket a _ _ closing =>
      obtain ⟨market, -, closed⟩ := closing_eq_ok closing stepped
      have vault : ix.vault = some a.vault := by
        rcases closing with same | same <;> cases same <;> rfl
      exact closeVaultAndMarket_spent (covers a.vault vault) closed
  | listQueued posted | listStranded posted | listMatched posted | assign posted =>
      exact payDeposit_spent List.mem_cons_self posted.paid
  | @extend a _ _ _ _ present placed opened vaulted associated queued apart longer paid =>
      have signer : a.payer ∈ [a.authority, a.payer] := by simp
      exact payDeposit_spent signer paid
  | @delist a _ _ _ present placed opened vaulted queued waiting member apart refunded =>
      exact refunded.spent (covers a.vault rfl)
  | @recover a _ _ _ _ present placed opened vaulted stopped apart amount refunded =>
      exact transferFromVault_spent (covers a.vault rfl) .rest refunded
  | @endJob a _ _ _ _ running apart associated settled =>
      exact settle_spent (covers a.vault rfl) settled
  | @finish a _ _ _ _ _ running queued apart associated settled =>
      exact settle_spent (covers a.vault rfl) settled
  | _ => exact .rest

end Jobs

namespace Staking

/-- The vault that an instruction opens, closes or pays from. -/
def Instruction.vault : Instruction → Option Pubkey
  | .stake a _ _ => some a.vault
  | .close a => some a.vault
  | .withdraw a => some a.vault
  | .slash a _ => some a.vault
  | _ => none

variable {own : Pubkey → Bool}

theorem transferFromVault_spent {signers : List Pubkey} {tokens result : Tokens}
    {stake : StakeAccount} {vault destination : Pubkey} {amount : Nat}
    (covers : isVault vault = true → own vault = true)
    (success : transferFromVault tokens stake vault destination amount = .ok result) :
    Spent own signers tokens result := by
  have moved := transferFromVault_eq_ok success
  simp only [transferFromVault, bind_eq_ok, require_eq_ok, exists_const] at success
  obtain ⟨account, -, seeds, -⟩ := success
  exact .paid .rest (covers (by rw [seeds]; rfl)) moved

/-- The staking program spends the tokens of those who sign, and what is in the vaults of stakes. -/
theorem process_spent {s s' : State} {ix : Instruction}
    (covers : ∀ vault ∈ ix.vault, isVault vault = true → own vault = true)
    (success : process s ix = .ok s') : Spent own [ix.authority] s.tokens s'.tokens := by
  cases ix with
  | init a =>
      simp only [process, init, bind_eq_ok, require_eq_ok, pure_eq_ok, exists_const] at success
      obtain ⟨-, -, rfl⟩ := success
      exact .rest
  | stake a amount duration =>
      simp only [process, stake, bind_eq_ok, require_eq_ok, pure_eq_ok, exists_const] at success
      obtain ⟨mint, -, -, seeds, freshVault, -, -, -, -, -, -, -, -, -, tokens, paid, rfl⟩ :=
        success
      have vaulted := covers a.vault rfl (by rw [seeds]; rfl)
      exact .signed (.opened .rest vaulted freshVault.2.2 _) (List.mem_singleton_self _) paid
  | unstake a =>
      simp only [process, unstake, bind_eq_ok, require_eq_ok, pure_eq_ok, exists_const] at success
      obtain ⟨-, -, -, -, -, -, -, -, -, -, rfl⟩ := success
      exact .rest
  | restake a =>
      simp only [process, restake, bind_eq_ok, require_eq_ok, pure_eq_ok, exists_const] at success
      obtain ⟨-, -, -, -, -, -, -, -, -, -, rfl⟩ := success
      exact .rest
  | topup a amount =>
      simp only [process, topup, bind_eq_ok, require_eq_ok, pure_eq_ok, exists_const] at success
      obtain ⟨-, -, -, -, -, -, -, -, -, -, -, -, -, tokens, paid, rfl⟩ := success
      exact .signed .rest (List.mem_singleton_self _) paid
  | extend a duration =>
      simp only [process, extend, bind_eq_ok, require_eq_ok, pure_eq_ok, exists_const] at success
      obtain ⟨-, -, -, -, -, -, -, -, -, -, rfl⟩ := success
      exact .rest
  | close a =>
      simp only [process, close, Tokens.load, bind_eq_ok, get_eq_ok, require_eq_ok, pure_eq_ok,
        exists_const] at success
      obtain ⟨-, -, stake, -, account, loaded, -, -, -, -, -, -, -, -, empty, -, seeds, rfl⟩ :=
        success
      exact .closed .rest (covers a.vault rfl (by rw [seeds]; rfl)) loaded empty
  | withdraw a =>
      simp only [process, withdraw, bind_eq_ok, Prod.exists] at success
      obtain ⟨account, stake, -, amount, -, success⟩ := success
      split at success
      · simp only [bind_eq_ok, pure_eq_ok] at success
        obtain ⟨tokens, paid, rfl⟩ := success
        exact transferFromVault_spent (covers a.vault rfl) paid
      · cases success
        exact .rest
  | slash a amount =>
      simp only [process, slash, bind_eq_ok, require_eq_ok, pure_eq_ok, exists_const] at success
      obtain ⟨-, -, -, -, -, -, -, -, -, -, -, -, -, slashed, -, tokens, paid, rfl⟩ := success
      exact transferFromVault_spent (covers a.vault rfl) paid
  | updateSettings a =>
      simp only [process, updateSettings, bind_eq_ok, require_eq_ok, pure_eq_ok,
        exists_const] at success
      obtain ⟨-, -, -, -, -, -, rfl⟩ := success
      exact .rest

end Staking

namespace Rewards

def Instruction.signers (ix : Instruction) : List Pubkey := ix.signer.toList

/-- The vault that an instruction opens or pays from. -/
def Instruction.vault : Instruction → Option Pubkey
  | .init a => some a.vault
  | .claim a => some a.vault
  | _ => none

/-- The rewards program spends the tokens of those who sign, and what is in its vault. -/
theorem process_spent {own : Pubkey → Bool} {s s' : State} {ix : Instruction}
    (covers : ∀ vault ∈ ix.vault, isVault vault = true → own vault = true)
    (success : process s ix = .ok s') : Spent own ix.signers s.tokens s'.tokens := by
  cases process_effect success with
  | @opened a _ _ _ vaulted fresh =>
      exact .opened .rest (covers a.vault rfl (by rw [vaulted]; rfl)) fresh.2.2 _
  | feeAdded _ _ _ _ moved => exact .signed .rest (List.mem_singleton_self _) moved
  | @claimed a _ _ _ _ _ _ _ _ _ _ _ signed moved =>
      obtain ⟨mint, vaulted⟩ := signed
      exact .paid .rest (covers a.vault rfl (by rw [vaulted]; rfl)) moved
  | entered | claimedNothing | synced | closed => exact .rest

end Rewards

namespace Pools

/-- The vault that an instruction opens, closes or pays from. -/
def Instruction.vault : Instruction → Option Pubkey
  | .openPool a _ _ _ _ => some a.vault
  | .claimFee a => some a.vault
  | .claimTransfer a => some a.vault
  | .close a => some a.vault
  | .updateBeneficiary _ => none

/-- The pools program spends what is in the vaults of pools. -/
theorem process_spent {own : Pubkey → Bool} {s s' : State} {ix : Instruction}
    (covers : ∀ vault ∈ ix.vault, isVault vault = true → own vault = true)
    (success : process s ix = .ok s') : Spent own [ix.authority] s.tokens s'.tokens := by
  cases ix with
  | openPool a emission startTime claimType closeable =>
      simp only [process, openPool, bind_eq_ok, require_eq_ok, pure_eq_ok, exists_const] at success
      obtain ⟨-, -, -, vaulted, fresh, -, rfl⟩ := success
      exact .opened .rest (covers a.vault rfl (by rw [vaulted]; rfl)) fresh.2.2.2 _
  | claimFee a =>
      simp only [process, claimFee, bind_eq_ok, Prod.exists] at success
      obtain ⟨-, pool, -, amount, claimed, -, success⟩ := success
      split at success
      · cases success
        exact .rest
      · simp only [bind_eq_ok, require_eq_ok, pure_eq_ok, exists_const] at success
        obtain ⟨vaulted, rewards, added, rfl⟩ := success
        exact .paid .rest (covers a.vault rfl (by rw [vaulted]; rfl)) (addFee_tokens added)
  | claimTransfer a =>
      simp only [process, claimTransfer, transferFromVault, bind_eq_ok, require_eq_ok, pure_eq_ok,
        exists_const, Prod.exists] at success
      obtain ⟨-, pool, -, amount, claimed, -, -, tokens, ⟨vaulted, paid⟩, rfl⟩ := success
      exact .paid .rest (covers a.vault rfl (by rw [vaulted]; rfl)) paid
  | close a =>
      simp only [process, close, transferFromVault, Tokens.load, bind_eq_ok, get_eq_ok,
        require_eq_ok, pure_eq_ok, exists_const] at success
      obtain ⟨account, loaded, -, -, -, -, -, -, -, apart, tokens, ⟨vaulted, paid⟩, rfl⟩ := success
      have own := covers a.vault rfl (by rw [vaulted]; rfl)
      obtain ⟨rest, left, -⟩ := Tokens.exists_of_kind (Tokens.kind_transfer paid a.vault) loaded
      have balance := Tokens.balance_source paid apart
      rw [Tokens.balance_of_lookup left, Tokens.balance_of_lookup loaded] at balance
      exact .closed (.paid .rest own paid) own left (by omega)
  | updateBeneficiary a =>
      simp only [process, updateBeneficiary, bind_eq_ok, require_eq_ok, pure_eq_ok,
        exists_const] at success
      obtain ⟨-, -, -, -, -, -, -, -, -, rfl⟩ := success
      exact .rest

end Pools

end Nosana
