import Nosana.Token

set_option autoImplicit false

/- What a program can do with token accounts that are not its own: it moves tokens for those who
sign for them, and out of vaults that it signs for itself. -/
namespace Nosana.Tokens

/-- Transfers that a signer allows or that leave a vault of the program, and vaults of the
program that are opened or closed empty. -/
inductive Spent (own : Pubkey → Bool) (signers : List Pubkey) (before : Tokens) : Tokens → Prop
  | rest : Spent own signers before before
  | signed {tokens result : Tokens} {source destination authority : Pubkey} {amount : Nat}
      (earlier : Spent own signers before tokens) (signer : authority ∈ signers)
      (success : tokens.transfer source destination authority amount = .ok result) :
      Spent own signers before result
  | paid {tokens result : Tokens} {vault destination : Pubkey} {amount : Nat}
      (earlier : Spent own signers before tokens) (vaulted : own vault = true)
      (success : tokens.transfer vault destination vault amount = .ok result) :
      Spent own signers before result
  | opened {tokens : Tokens} {vault : Pubkey} (earlier : Spent own signers before tokens)
      (vaulted : own vault = true) (fresh : vault ∉ tokens) (mint : Pubkey) :
      Spent own signers before (tokens.insert vault (.holding mint vault 0))
  | closed {tokens : Tokens} {vault : Pubkey} {account : TokenAccount}
      (earlier : Spent own signers before tokens) (vaulted : own vault = true)
      (present : tokens.lookup vault = some account) (empty : account.amount = 0) :
      Spent own signers before (tokens.erase vault)

/-- Every vault is its own owner. -/
def Owned (isVault : Pubkey → Bool) (tokens : Tokens) : Prop :=
  ∀ key account, isVault key = true → tokens.lookup key = some account → account.owner = key

theorem Owned.of_kinds {isVault : Pubkey → Bool} {before after : Tokens}
    (owned : Owned isVault before)
    (kinds : ∀ key, isVault key = true →
      (after.lookup key).map TokenAccount.kind = (before.lookup key).map TokenAccount.kind) :
    Owned isVault after := owned_of_kinds owned kinds

/-- Nobody but the program can move tokens out of a vault. -/
theorem WellFormed.spenders_of_owned {isVault : Pubkey → Bool} {cap : Nat} {tokens : Tokens}
    (wellFormed : tokens.WellFormed cap) (owned : Owned isVault tokens)
    (derived : ∀ key, isVault key = true → key.derived = true) {key : Pubkey}
    {account : TokenAccount} (vault : isVault key = true)
    (present : tokens.lookup key = some account) : account.spenders = [key] := by
  have self := owned key account vault present
  have undelegated := (wellFormed.regular key account present).undelegated (derived key vault) self
  rw [TokenAccount.spenders, self, undelegated]
  rfl

/-- An account that is closed when it is empty takes nothing from a supply. -/
theorem supply_erase_empty {tokens : Tokens} {key : Pubkey} {account : TokenAccount}
    (present : tokens.lookup key = some account) (empty : account.amount = 0) (mint : Pubkey) :
    supply (tokens.erase key) mint = tokens.supply mint := by
  have split := Finmap.total_erase
    (fun _ (other : TokenAccount) => if other.mint = mint then other.amount else 0) tokens key
    account present
  rw [empty, ite_self, Nat.zero_add] at split
  exact split.symm

/-- The supply of every mint fits, also of one that nobody holds. -/
theorem Minted.supply_lt {tokens : Tokens} (minted : tokens.Minted) (mint : Pubkey) :
    tokens.supply mint < 2 ^ 64 := by
  by_cases held : ∃ key account, tokens.lookup key = some account ∧ account.mint = mint
  · obtain ⟨key, account, present, rfl⟩ := held
    exact minted key account present
  · have none : tokens.supply mint = 0 := by
      apply Finmap.total_eq_zero
      intro key account present
      exact if_neg fun same => held ⟨key, account, present, same⟩
    omega

theorem Grows.balance_le {before after : Tokens} {key : Pubkey}
    (grows : Grows (before.lookup key) (after.lookup key)) :
    before.balance key ≤ after.balance key := by
  unfold Grows at grows
  unfold balance
  split at grows <;> simp_all

namespace Spent

variable {own isVault : Pubkey → Bool} {signers : List Pubkey} {before after : Tokens}

/-- Nobody comes to be able to move tokens out of an account that is no vault of the program. -/
theorem spenders_subset (spent : Spent own signers before after) {key : Pubkey}
    (other : own key = false) {account : TokenAccount}
    (present : before.lookup key = some account) :
    ∃ kept, after.lookup key = some kept ∧ kept.spenders ⊆ account.spenders := by
  have apart : ∀ vault, own vault = true → key ≠ vault := by
    rintro _ vaulted rfl
    rw [other] at vaulted
    cases vaulted
  induction spent with
  | rest => exact ⟨account, present, List.Subset.refl _⟩
  | signed _ _ success ih | paid _ _ success ih =>
      obtain ⟨middle, inside, fewer⟩ := ih
      obtain ⟨kept, found, follows⟩ := follows_transfer success inside
      exact ⟨kept, found, List.Subset.trans follows.spenders_subset fewer⟩
  | opened _ vaulted _ _ ih =>
      rw [Finmap.lookup_insert_of_ne _ (apart _ vaulted)]
      exact ih
  | closed _ vaulted _ _ ih =>
      rw [Finmap.lookup_erase_ne (apart _ vaulted)]
      exact ih

/-- An account whose owner and delegate did not sign, and which is no vault of the program, only
grows. -/
theorem grows (spent : Spent own signers before after) {key : Pubkey} (other : own key = false)
    (unsigned : ∀ account, before.lookup key = some account →
      ∀ spender ∈ account.spenders, spender ∉ signers) :
    Grows (before.lookup key) (after.lookup key) := by
  have apart : ∀ vault, own vault = true → key ≠ vault := by
    rintro _ vaulted rfl
    rw [other] at vaulted
    cases vaulted
  induction spent with
  | rest => exact grows_rfl _
  | @signed tokens result source destination authority amount earlier signer success ih =>
      have source : key ≠ source := by
        rintro rfl
        cases present : before.lookup key with
        | none =>
            obtain ⟨sender, -, sent, -⟩ := transfer_eq_ok.mp success
            simp [present, sent, Grows] at ih
        | some account =>
            obtain ⟨sender, sent, fewer⟩ := earlier.spenders_subset other present
            exact unsigned account present authority
              (fewer (mem_spenders_of_transfer success sent)) signer
      exact ih.trans (grows_transfer success source)
  | paid earlier vaulted success ih => exact ih.trans (grows_transfer success (apart _ vaulted))
  | opened earlier vaulted fresh mint ih =>
      rw [Finmap.lookup_insert_of_ne _ (apart _ vaulted)]
      exact ih
  | closed earlier vaulted present empty ih =>
      rw [Finmap.lookup_erase_ne (apart _ vaulted)]
      exact ih

/-- Whatever a program does, the supply of every mint stays. -/
theorem supply_eq (spent : Spent own signers before after) (mint : Pubkey) :
    after.supply mint = before.supply mint := by
  induction spent with
  | rest => rfl
  | signed _ _ success ih => rw [supply_transfer success, ih]
  | paid _ _ success ih => rw [supply_transfer success, ih]
  | opened _ _ fresh _ ih => rw [supply_insert_empty fresh, ih]
  | closed _ _ present empty ih => rw [supply_erase_empty present empty, ih]

theorem owned (spent : Spent own signers before after) (owned : Owned isVault before) :
    Owned isVault after := by
  induction spent with
  | rest => exact owned
  | signed _ _ success ih => exact ih.of_kinds fun key _ => kind_transfer success key
  | paid _ _ success ih => exact ih.of_kinds fun key _ => kind_transfer success key
  | opened _ _ _ mint ih =>
      intro key account vault present
      rcases Finmap.lookup_insert_eq_some present with ⟨rfl, rfl⟩ | ⟨-, earlier⟩
      · rfl
      · exact ih key account vault earlier
  | closed _ _ _ _ ih =>
      intro key account vault present
      exact ih key account vault (Finmap.lookup_erase_eq_some present).2

theorem wellFormed (spent : Spent own signers before after) {cap : Nat}
    (placed : ∀ vault account, own vault = true → Addressed vault account)
    (wellFormed : before.WellFormed cap) : after.WellFormed cap := by
  induction spent with
  | rest => exact wellFormed
  | signed _ _ success ih => exact ih.transfer success
  | paid _ _ success ih => exact ih.transfer success
  | opened _ vaulted fresh _ ih => exact ih.insert_empty fresh (placed _ _ vaulted)
  | closed _ _ present _ ih => exact ih.erase present

theorem minted (spent : Spent own signers before after) (minted : before.Minted) :
    after.Minted := by
  induction spent with
  | rest => exact minted
  | signed _ _ success ih => exact ih.transfer success
  | paid _ _ success ih => exact ih.transfer success
  | opened _ _ fresh mint ih =>
      intro key account present
      rw [supply_insert_empty fresh]
      exact ih.supply_lt account.mint
  | closed _ _ _ _ ih => exact ih.erase _

/-- To the vaults of other programs only comes something in. -/
theorem external {other : Pubkey → Bool} (spent : Spent own signers before after) {cap : Nat}
    (owned : Owned isVault before) (wellFormed : before.WellFormed cap)
    (placed : ∀ vault account, own vault = true → Addressed vault account)
    (apart : ∀ key, other key = true → isVault key = true ∧ own key = false)
    (derived : ∀ key, isVault key = true → key.derived = true)
    (users : ∀ signer ∈ signers, isVault signer = false) : External other cap before after := by
  refine ⟨spent.wellFormed placed wellFormed, fun key vault => ?_⟩
  obtain ⟨vaulted, foreign⟩ := apart key vault
  refine spent.grows foreign fun account present spender spends signed => ?_
  rw [wellFormed.spenders_of_owned owned derived vaulted present, List.mem_singleton] at spends
  rw [spends] at signed
  rw [users key signed] at vaulted
  cases vaulted

end Spent

end Nosana.Tokens
