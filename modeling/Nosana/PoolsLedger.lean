import Nosana.PoolsEffects

set_option autoImplicit false

/- What one step can do to a pool, and the books of a pool from its opening on. -/
namespace Nosana.Pools

open Checked

/-- The vault of every pool is its own, owns itself, has no delegate, and holds tokens of a mint
whose supply fits; so does the clock. -/
structure Sound (s : State) : Prop where
  homed : ∀ key pool, s.pools.lookup key = some pool → pool.vault = .poolsVault key
  owned : ∀ key account, isVault key = true → s.tokens.lookup key = some account →
    account.owner = key
  undelegated : ∀ key, isVault key = true → s.tokens.Undelegated key
  minted : s.tokens.Minted
  clock : Signed 64 s.clock

theorem derived_of_isVault {key : Pubkey} (vault : isVault key = true) : key.derived = true := by
  cases key <;> first | rfl | cases vault

theorem Genesis.sound {s : State} (genesis : Genesis s) : Sound s := by
  refine ⟨fun key pool present => ?_, fun key account vault present => ?_,
    fun key vault account present => ?_, genesis.minted, genesis.clock⟩
  · simp [genesis.pools] at present
  · rw [genesis.vaults key vault] at present
    cases present
  · rw [genesis.vaults key vault] at present
    cases present

def Action.claims (key : Pubkey) : Action → Bool
  | .instruction (.claimFee a) => a.pool == key
  | .instruction (.claimTransfer a) => a.pool == key
  | _ => false

def Action.closes (key : Pubkey) : Action → Bool
  | .instruction (.close a) => a.pool == key
  | _ => false

/-- What a claim took out of the vault of a pool. -/
def paidOut (key : Pubkey) (event : Event) : Nat :=
  if event.action.claims key then
    event.before.tokens.balance (.poolsVault key) - event.after.tokens.balance (.poolsVault key)
  else 0

/-- What all claims of a history took out of the vault of a pool. -/
def paid (key : Pubkey) (history : List Event) : Nat := (history.map (paidOut key)).sum

theorem paid_concat (key : Pubkey) (past : List Event) (event : Event) :
    paid key (past ++ [event]) = paid key past + paidOut key event := by
  simp [paid]

/-- What one step can do to a pool. -/
inductive Turn (event : Event) (key : Pubkey) (pool : PoolAccount) : Prop
  | kept (quiet : event.action.claims key = false)
      (after : event.after.pools.lookup key = some pool)
  | renamed {beneficiary : Pubkey} (quiet : event.action.claims key = false)
      (after : event.after.pools.lookup key = some (pool.updateBeneficiary beneficiary))
  | noted {a : Accounts.ClaimFee} {amount : Nat} {claimed : PoolAccount}
      (action : event.action = .instruction (.claimFee a)) (same : a.pool = key)
      (claims : Claimed event.before key pool amount claimed)
      (kind : pool.claimType = ClaimType.addFee.toU8)
      (after : event.after.pools.lookup key = some claimed) (short : amount < pool.emission)
      (balance : event.after.tokens.balance pool.vault = event.before.tokens.balance pool.vault)
  | claimed {amount : Nat} {claimed : PoolAccount} (claiming : event.action.claims key = true)
      (claims : Claimed event.before key pool amount claimed)
      (after : event.after.pools.lookup key = some claimed) (enough : pool.emission ≤ amount)
      (fee : (∃ a, event.action = .instruction (.claimFee a)) →
        pool.claimType = ClaimType.addFee.toU8)
      (balance : event.after.tokens.balance pool.vault + amount =
        event.before.tokens.balance pool.vault)
  | closed (closes : event.action.closes key = true)

section

variable {s s' : State} {key : Pubkey} {pool : PoolAccount} {action : Action}

/-- Another pool is written, or none. -/
theorem kept_of_ne {event : Event} {other : Pubkey} {value : PoolAccount}
    (present : event.before.pools.lookup key = some pool) (apart : other ≠ key)
    (quiet : event.action.claims key = false)
    (pools : event.after.pools = event.before.pools.insert other value) : Turn event key pool := by
  apply Turn.kept quiet
  rw [pools, Finmap.lookup_insert_of_ne _ (Ne.symm apart), present]

theorem step_turn (present : s.pools.lookup key = some pool) (success : step s action = .ok s') :
    Turn ⟨s, action, s'⟩ key pool := by
  cases step_effect success with
  | @opened a _ _ _ _ _ loaded mint vaulted fresh =>
      have apart : a.pool ≠ key := by
        rintro rfl
        exact fresh.1 (Finmap.mem_of_lookup_eq_some present)
      exact kept_of_ne present apart rfl rfl
  | @noted a other claimed amount claims kind short =>
      by_cases same : a.pool = key
      · subst same
        cases present.symm.trans claims.present
        exact .noted rfl rfl claims kind (Finmap.lookup_insert _) short rfl
      · exact kept_of_ne present same (by simp [Action.claims, same]) rfl
  | @claimedFee a other claimed amount rewards claims kind enough apart moved =>
      by_cases same : a.pool = key
      · subst same
        cases present.symm.trans claims.present
        exact .claimed (by simp [Action.claims]) claims (Finmap.lookup_insert _) enough
          (fun _ => kind) (Tokens.balance_source moved apart)
      · exact kept_of_ne present same (by simp [Action.claims, same]) rfl
  | @claimedTransfer a other claimed amount tokens claims kind enough apart moved =>
      by_cases same : a.pool = key
      · subst same
        cases present.symm.trans claims.present
        exact .claimed (by simp [Action.claims]) claims (Finmap.lookup_insert _) enough
          (fun fee => by cases fee.choose_spec) (Tokens.balance_source moved apart)
      · exact kept_of_ne present same (by simp [Action.claims, same]) rfl
  | @closed a other account tokens found allowed apart loaded moved =>
      by_cases same : a.pool = key
      · exact .closed (by simp [Action.closes, same])
      · apply Turn.kept rfl
        rw [← present]
        exact Finmap.lookup_erase_ne (Ne.symm same)
  | @updated a other found =>
      by_cases same : a.pool = key
      · subst same
        cases present.symm.trans found
        exact .renamed rfl (Finmap.lookup_insert _)
      · exact kept_of_ne present same rfl rfl
  | tick => exact .kept rfl present
  | external => exact .kept rfl present

/-- What the program writes into its accounts keeps their vaults. -/
theorem homed_insert {pools : Finmap fun _ : Pubkey => PoolAccount}
    (homed : ∀ key pool, pools.lookup key = some pool → pool.vault = .poolsVault key)
    (own : pool.vault = .poolsVault key) :
    ∀ other found, (pools.insert key pool).lookup other = some found →
      found.vault = .poolsVault other := by
  intro other found inside
  rcases Finmap.lookup_insert_eq_some inside with ⟨rfl, rfl⟩ | ⟨-, earlier⟩
  · exact own
  · exact homed other found earlier

theorem Claimed.vault_eq {amount : Nat} {claimed : PoolAccount}
    (claims : Claimed s key pool amount claimed) : claimed.vault = pool.vault := by
  obtain ⟨-, -, -, -, rfl⟩ := (PoolAccount.claim_eq_ok claims.started).mp claims.computed
  rfl

theorem sound_step (sound : Sound s) (success : step s action = .ok s') : Sound s' := by
  have ⟨homed, owned, undelegated, minted, clock⟩ := sound
  cases step_effect success with
  | opened loaded mint vaulted fresh freshVault =>
      refine ⟨homed_insert homed vaulted, fun key account vault present => ?_,
        fun key vault => (undelegated key vault).insert_holding _ _ _ _,
        minted.insert_empty freshVault.2.2.2 loaded mint, clock⟩
      rcases Finmap.lookup_insert_eq_some present with ⟨rfl, rfl⟩ | ⟨-, earlier⟩
      · rfl
      · exact owned key account vault earlier
  | noted claims kind short =>
      exact ⟨homed_insert homed (claims.vault_eq.trans (homed _ _ claims.present)), owned,
        undelegated, minted, clock⟩
  | claimedFee claims kind enough apart moved =>
      exact ⟨homed_insert homed (claims.vault_eq.trans (homed _ _ claims.present)),
        Tokens.owned_of_kinds owned fun key _ => Tokens.kind_transfer moved key,
        fun key vault => (undelegated key vault).transfer moved, minted.transfer moved, clock⟩
  | claimedTransfer claims kind enough apart moved =>
      exact ⟨homed_insert homed (claims.vault_eq.trans (homed _ _ claims.present)),
        Tokens.owned_of_kinds owned fun key _ => Tokens.kind_transfer moved key,
        fun key vault => (undelegated key vault).transfer moved, minted.transfer moved, clock⟩
  | closed present allowed apart loaded moved =>
      have still := Tokens.owned_of_kinds owned fun key _ => Tokens.kind_transfer moved key
      exact ⟨fun key pool inside => homed key pool (Finmap.lookup_erase_eq_some inside).2,
        fun key account vault inside =>
          still key account vault (Finmap.lookup_erase_eq_some inside).2,
        fun key vault account inside =>
          (undelegated key vault).transfer moved account (Finmap.lookup_erase_eq_some inside).2,
        (minted.transfer moved).erase _, clock⟩
  | updated present =>
      have own := homed _ _ present
      exact ⟨homed_insert homed own, owned, undelegated, minted, clock⟩
  | tick later fits => exact ⟨homed, owned, undelegated, minted, fits⟩
  | external external capped =>
      have still := Tokens.owned_of_kinds owned fun key vault => external.kind_eq vault
      refine ⟨homed, still, fun key vault account present => ?_, capped, clock⟩
      have regular := external.wellFormed.regular key account present
      exact regular.undelegated (derived_of_isVault vault) (still key account vault present)

theorem sound_run {start : State} (genesis : Genesis start) (actions : List Action) :
    Sound (run start actions) :=
  Machine.run_invariant genesis.sound (fun _ _ _ sound success => sound_step sound success) actions

theorem step_clock (success : step s action = .ok s') : s.clock ≤ s'.clock := by
  cases step_effect success with
  | tick later => exact later
  | _ => exact le_refl _

/-- Only claims from a pool and its close take tokens out of its vault. -/
theorem vault_held (sound : Sound s) (success : step s action = .ok s')
    (quiet : action.claims key = false) (kept : action.closes key = false) :
    s.tokens.balance (.poolsVault key) ≤ s'.tokens.balance (.poolsVault key) := by
  have apart : ∀ {other : Pubkey} {pool : PoolAccount}, s.pools.lookup other = some pool →
      (other == key) = false → Pubkey.poolsVault key ≠ pool.vault := by
    intro other pool present different same
    rw [sound.homed other pool present] at same
    cases same
    simp at different
  cases step_effect success with
  | opened loaded mint vaulted fresh freshVault =>
      exact le_of_eq (Tokens.balance_insert_empty freshVault.2.2.2 _ _ _).symm
  | noted claims kind short => exact le_refl _
  | claimedFee claims kind enough _ moved =>
      exact Tokens.balance_le_of_ne_source moved (apart claims.present quiet)
  | claimedTransfer claims kind enough _ moved =>
      exact Tokens.balance_le_of_ne_source moved (apart claims.present quiet)
  | closed present allowed _ loaded moved =>
      have other := apart present kept
      have held := Tokens.balance_le_of_ne_source moved other
      show _ ≤ Tokens.balance (Finmap.erase _ _) _
      rw [Tokens.balance_erase_of_ne other]
      exact held
  | updated present => exact le_refl _
  | tick => exact le_refl _
  | external external capped => exact external.balance_le rfl

/-- A pool that may not be closed is only closed empty. -/
theorem empty_of_closed (sound : Sound s) (success : step s action = .ok s')
    (closes : action.closes key = true) (present : s.pools.lookup key = some pool)
    (locked : pool.closeable = false) : s.tokens.balance (.poolsVault key) = 0 := by
  cases step_effect success with
  | closed found allowed apart loaded moved =>
      have same := beq_iff_eq.mp closes
      subst same
      cases present.symm.trans found
      have empty := allowed.resolve_left (by simp [locked])
      rw [← sound.homed _ _ present, Tokens.balance_of_lookup loaded, empty]
  | _ => cases closes

end

end Nosana.Pools
