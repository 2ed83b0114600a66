import Nosana.PoolsProgram
import Nosana.RewardsEffects

set_option autoImplicit false

/- What every successful step of the pools program does. -/
namespace Nosana.Pools

open Checked

/-! The claim of a pool that has started -/

namespace PoolAccount

/-- What the pool has emitted since its start. -/
def emitted (self : PoolAccount) (now : Int) : Nat :=
  (now - self.startTime).toNat * self.emission

/-- What has been emitted and not been claimed. -/
def due (self : PoolAccount) (now : Int) : Nat := self.emitted now - self.claimedTokens

variable {self claimed : PoolAccount} {available amount : Nat} {now : Int}

theorem asU64_of_signed {a : Int} (fits : Signed 64 a) (positive : 0 ≤ a) :
    asU64 a = a.toNat := by
  have upper := fits.2
  unfold asU64
  rw [Int.emod_eq_of_lt positive (by omega)]

/-- A claim adds what is due, as far as it is available; the sum always fits. -/
theorem claim_eq_ok (started : self.startTime < now) :
    self.claim available now = .ok (amount, claimed) ↔
      Signed 64 (now - self.startTime) ∧ self.emitted now < 2 ^ 64 ∧
        self.claimedTokens ≤ self.emitted now ∧ amount = min (self.due now) available ∧
        claimed = { self with claimedTokens := self.claimedTokens + amount } := by
  have positive : 0 ≤ now - self.startTime := by omega
  simp only [claim, subSigned, mul, sub, add, bind_eq_ok, checked_eq_ok, pure_eq_ok,
    Prod.mk.injEq]
  constructor
  · rintro ⟨_, ⟨fits, rfl⟩, _, ⟨small, rfl⟩, _, ⟨covered, rfl⟩, _, ⟨-, rfl⟩, rfl, rfl⟩
    rw [asU64_of_signed fits positive] at small covered ⊢
    exact ⟨fits, small, covered, rfl, rfl⟩
  · rintro ⟨fits, small, covered, rfl, rfl⟩
    have elapsed := asU64_of_signed fits positive
    unfold due emitted at *
    refine ⟨_, ⟨fits, rfl⟩, _, ⟨by rw [elapsed]; exact small, rfl⟩, _,
      ⟨by rw [elapsed]; exact covered, rfl⟩, _, ⟨?_, rfl⟩, ?_, ?_⟩
    · rw [elapsed]
      omega
    · rw [elapsed]
    · rw [elapsed]

/-- The emission of a pool does not change when it is claimed from. -/
theorem claim_emission (started : self.startTime < now)
    (computed : self.claim available now = .ok (amount, claimed)) :
    claimed.emission = self.emission := by
  obtain ⟨-, -, -, -, rfl⟩ := (claim_eq_ok started).mp computed
  rfl

end PoolAccount

@[simp] theorem loadPool_eq_ok {s : State} {key : Pubkey} {pool : PoolAccount} :
    s.loadPool key = .ok pool ↔ s.pools.lookup key = some pool := get_eq_ok _ _ _

/-- A claim that goes through: the pool has started, and it has noted what it gives. -/
structure Claimed (s : State) (key : Pubkey) (pool : PoolAccount) (amount : Nat)
    (claimed : PoolAccount) : Prop where
  present : s.pools.lookup key = some pool
  started : pool.startTime < s.clock
  loaded : pool.vault ∈ s.tokens
  computed : pool.claim (s.tokens.balance pool.vault) s.clock = .ok (amount, claimed)

inductive Effect (s : State) : Action → State → Prop
  | opened {a : Accounts.Open} {emission : Nat} {startTime : Int} {claimType : Nat}
      {closeable : Bool} {beneficiary : TokenAccount}
      (loaded : s.tokens.lookup a.beneficiary = some beneficiary)
      (mint : beneficiary.mint = a.mint) (vaulted : a.vault = .poolsVault a.pool)
      (fresh : s.Vacant a.pool) (freshVault : s.Vacant a.vault) :
      Effect s (.instruction (.openPool a emission startTime claimType closeable))
        { s.withTokens (s.tokens.insert a.vault (.holding a.mint a.vault 0)) with
          pools := s.pools.insert a.pool (PoolAccount.zeroed.init a.authority a.beneficiary
            (ClaimType.ofU8 claimType).toU8 closeable emission startTime a.vault) }
  | noted {a : Accounts.ClaimFee} {pool claimed : PoolAccount} {amount : Nat}
      (claims : Claimed s a.pool pool amount claimed)
      (kind : pool.claimType = ClaimType.addFee.toU8) (short : amount < pool.emission) :
      Effect s (.instruction (.claimFee a)) { s with pools := s.pools.insert a.pool claimed }
  | claimedFee {a : Accounts.ClaimFee} {pool claimed : PoolAccount} {amount : Nat}
      {rewards : Rewards.State} (claims : Claimed s a.pool pool amount claimed)
      (kind : pool.claimType = ClaimType.addFee.toU8) (enough : pool.emission ≤ amount)
      (apart : pool.vault ≠ a.rewardsVault)
      (paid : s.tokens.transfer pool.vault a.rewardsVault pool.vault amount = .ok rewards.tokens) :
      Effect s (.instruction (.claimFee a))
        { s with pools := s.pools.insert a.pool claimed, rewards := rewards }
  | claimedTransfer {a : Accounts.ClaimTransfer} {pool claimed : PoolAccount} {amount : Nat}
      {tokens : Tokens} (claims : Claimed s a.pool pool amount claimed)
      (kind : pool.claimType = ClaimType.transfer.toU8) (enough : pool.emission ≤ amount)
      (apart : pool.vault ≠ a.beneficiary)
      (paid : s.tokens.transfer pool.vault a.beneficiary pool.vault amount = .ok tokens) :
      Effect s (.instruction (.claimTransfer a))
        { s.withTokens tokens with pools := s.pools.insert a.pool claimed }
  | closed {a : Accounts.Close} {pool : PoolAccount} {account : TokenAccount} {tokens : Tokens}
      (present : s.pools.lookup a.pool = some pool)
      (allowed : pool.closeable = true ∨ account.amount = 0)
      (apart : pool.vault ≠ a.user) (loaded : s.tokens.lookup pool.vault = some account)
      (paid : s.tokens.transfer pool.vault a.user pool.vault account.amount = .ok tokens) :
      Effect s (.instruction (.close a))
        { s.withTokens (tokens.erase pool.vault) with pools := s.pools.erase a.pool }
  | updated {a : Accounts.UpdateBeneficiary} {pool : PoolAccount}
      (present : s.pools.lookup a.pool = some pool) :
      Effect s (.instruction (.updateBeneficiary a))
        { s with pools := s.pools.insert a.pool (pool.updateBeneficiary a.newBeneficiary) }
  | tick {now : Int} (later : s.clock ≤ now) (fits : Signed 64 now) :
      Effect s (.tick now) { s with clock := now }
  | external {rewards : Rewards.State}
      (external : Tokens.External isVault supplyCap s.tokens rewards.tokens)
      (minted : rewards.tokens.Minted) : Effect s (.external rewards) { s with rewards := rewards }

section

variable {s s' : State}

theorem claimFeeConstraints_eq_ok {a : Accounts.ClaimFee} {vault : TokenAccount}
    {pool : PoolAccount} (success : claimFeeConstraints s a = .ok (vault, pool)) :
    s.pools.lookup a.pool = some pool ∧ pool.vault = a.vault ∧
      s.tokens.lookup a.vault = some vault ∧ pool.startTime < s.clock ∧
      pool.claimType = ClaimType.addFee.toU8 ∧ a.vault ≠ a.rewardsVault := by
  simp only [claimFeeConstraints, Tokens.load, bind_eq_ok, get_eq_ok, loadPool_eq_ok,
    require_eq_ok, pure_eq_ok, exists_const, Prod.mk.injEq] at success
  obtain ⟨account, loaded, -, -, -, -, other, present, vaulted, started, kind, -, apart, rfl,
    rfl⟩ :=
    success
  exact ⟨present, vaulted.symm, loaded, started, kind, apart⟩

theorem claimTransferConstraints_eq_ok {a : Accounts.ClaimTransfer} {vault : TokenAccount}
    {pool : PoolAccount} (success : claimTransferConstraints s a = .ok (vault, pool)) :
    s.pools.lookup a.pool = some pool ∧ pool.vault = a.vault ∧
      s.tokens.lookup a.vault = some vault ∧ pool.startTime < s.clock ∧
      pool.claimType = ClaimType.transfer.toU8 ∧ a.vault ≠ a.beneficiary := by
  simp only [claimTransferConstraints, Tokens.load, bind_eq_ok, get_eq_ok, loadPool_eq_ok,
    require_eq_ok, pure_eq_ok, exists_const, Prod.mk.injEq] at success
  obtain ⟨account, loaded, -, -, other, present, vaulted, -, started, kind, apart, rfl, rfl⟩ :=
    success
  exact ⟨present, vaulted.symm, loaded, started, kind, apart⟩

/-- What adding a fee does to the token accounts. -/
theorem addFee_tokens {rewards after : Rewards.State} {a : Rewards.Accounts.AddFee} {amount : Nat}
    (success : Rewards.addFee rewards a amount = .ok after) :
    rewards.tokens.transfer a.user a.vault a.authority amount = .ok after.tokens := by
  cases Rewards.addFee_effect success with
  | feeAdded _ _ _ _ moved => exact moved

theorem openPool_effect {a : Accounts.Open} {emission : Nat} {startTime : Int} {claimType : Nat}
    {closeable : Bool} (success : openPool s a emission startTime claimType closeable = .ok s') :
    Effect s (.instruction (.openPool a emission startTime claimType closeable)) s' := by
  simp only [openPool, Tokens.load, bind_eq_ok, get_eq_ok, require_eq_ok, pure_eq_ok,
    exists_const] at success
  obtain ⟨beneficiary, loaded, fresh, vaulted, freshVault, mint, rfl⟩ := success
  exact .opened loaded mint vaulted fresh freshVault

theorem claimFee_effect {a : Accounts.ClaimFee} (success : claimFee s a = .ok s') :
    Effect s (.instruction (.claimFee a)) s' := by
  simp only [claimFee, bind_eq_ok, Prod.exists] at success
  obtain ⟨vault, pool, constraints, amount, claimed, computed, success⟩ := success
  obtain ⟨present, vaulted, loaded, started, kind, apart⟩ := claimFeeConstraints_eq_ok constraints
  rw [← vaulted] at loaded apart
  rw [← Tokens.balance_of_lookup loaded] at computed
  have claims : Claimed s a.pool pool amount claimed :=
    ⟨present, started, Finmap.mem_of_lookup_eq_some loaded, computed⟩
  have emission := PoolAccount.claim_emission started computed
  split at success
  · rename_i short
    cases success
    rw [emission] at short
    exact .noted claims kind short
  · rename_i enough
    rw [emission] at enough
    simp only [bind_eq_ok, require_eq_ok, pure_eq_ok, exists_const] at success
    obtain ⟨-, rewards, added, rfl⟩ := success
    have paid := addFee_tokens added
    rw [← vaulted] at paid
    exact .claimedFee claims kind (Nat.le_of_not_lt enough) apart paid

theorem claimTransfer_effect {a : Accounts.ClaimTransfer} (success : claimTransfer s a = .ok s') :
    Effect s (.instruction (.claimTransfer a)) s' := by
  simp only [claimTransfer, transferFromVault, bind_eq_ok, require_eq_ok, pure_eq_ok, exists_const,
    Prod.exists] at success
  obtain ⟨vault, pool, constraints, amount, claimed, computed, enough, tokens, ⟨-, paid⟩, rfl⟩ :=
    success
  obtain ⟨present, vaulted, loaded, started, kind, apart⟩ :=
    claimTransferConstraints_eq_ok constraints
  rw [← vaulted] at loaded apart paid
  rw [← Tokens.balance_of_lookup loaded] at computed
  rw [PoolAccount.claim_emission started computed] at enough
  exact .claimedTransfer ⟨present, started, Finmap.mem_of_lookup_eq_some loaded, computed⟩ kind
    enough apart paid

theorem close_effect {a : Accounts.Close} (success : close s a = .ok s') :
    Effect s (.instruction (.close a)) s' := by
  simp only [close, Tokens.load, transferFromVault, bind_eq_ok, get_eq_ok, loadPool_eq_ok,
    require_eq_ok, pure_eq_ok, exists_const] at success
  obtain ⟨account, loaded, -, -, pool, present, -, vaulted, allowed, apart, tokens, ⟨-, paid⟩,
    rfl⟩ := success
  rw [← vaulted] at loaded apart paid ⊢
  exact .closed present allowed apart loaded paid

theorem updateBeneficiary_effect {a : Accounts.UpdateBeneficiary}
    (success : updateBeneficiary s a = .ok s') :
    Effect s (.instruction (.updateBeneficiary a)) s' := by
  simp only [updateBeneficiary, bind_eq_ok, loadPool_eq_ok, require_eq_ok, pure_eq_ok,
    exists_const] at success
  obtain ⟨-, -, -, -, pool, present, -, -, -, rfl⟩ := success
  exact .updated present

theorem step_effect {action : Action} (success : step s action = .ok s') : Effect s action s' := by
  cases action with
  | tick now =>
      simp only [step, bind_eq_ok, require_eq_ok, pure_eq_ok, exists_const] at success
      obtain ⟨⟨later, fits⟩, rfl⟩ := success
      exact .tick later fits
  | external rewards =>
      simp only [step, bind_eq_ok, require_eq_ok, pure_eq_ok, exists_const] at success
      obtain ⟨⟨external, minted⟩, rfl⟩ := success
      exact .external external minted
  | instruction ix =>
      simp only [step, bind_eq_ok, require_eq_ok, exists_const] at success
      obtain ⟨-, success⟩ := success
      cases ix with
      | openPool a emission startTime claimType closeable => exact openPool_effect success
      | claimFee a => exact claimFee_effect success
      | claimTransfer a => exact claimTransfer_effect success
      | close a => exact close_effect success
      | updateBeneficiary a => exact updateBeneficiary_effect success

end

end Nosana.Pools
