import Nosana.PoolsSchedule

set_option autoImplicit false

/- When the vault of a pool can be emptied by transfers: a rest below the emission of a second
stays, and anything else can be claimed at once when enough time has passed. -/
namespace Nosana.Pools

open Checked

/-! A rest that stays -/

/-- A pool that may not be closed, with less in its vault than it emits in a second. -/
structure Stranded (key : Pubkey) (held : Nat) (s : State) : Prop where
  sound : Sound s
  pool : ∃ pool, s.pools.lookup key = some pool ∧ pool.claimType = ClaimType.transfer.toU8 ∧
    pool.closeable = false ∧ held < pool.emission
  some : 0 < held
  held : s.tokens.balance (.poolsVault key) = held

section

variable {s s' : State} {key : Pubkey} {pool : PoolAccount} {action : Action} {held : Nat}

/-- A transfer is claimed only from a vault that holds the emission of a second. -/
theorem claim_enough (sound : Sound s) (present : s.pools.lookup key = some pool)
    (kind : pool.claimType = ClaimType.transfer.toU8) (success : step s action = .ok s')
    (claiming : action.claims key = true) :
    pool.emission ≤ s.tokens.balance (.poolsVault key) := by
  cases step_turn present success with
  | kept quiet after => rw [claiming] at quiet; cases quiet
  | renamed quiet after => rw [claiming] at quiet; cases quiet
  | noted called same claims fees after short balance => rw [kind] at fees; cases fees
  | @claimed amount claimed _ claims after enough fee balance =>
      have exact := claims.amounts.2.1
      have most : amount ≤ s.tokens.balance pool.vault := by
        rw [exact]
        exact min_le_right _ _
      rw [← sound.homed key pool present]
      exact le_trans enough most
  | closed closes =>
      cases action with
      | instruction ix => cases ix <;> first | cases closes | cases claiming
      | tick => cases closes
      | external => cases closes

/-- Without funding, nothing happens to a rest below the emission of a second. -/
theorem Stranded.next (stranded : Stranded key held s) (success : step s action = .ok s')
    (unfunded : s'.tokens.balance (.poolsVault key) ≤ s.tokens.balance (.poolsVault key)) :
    action.claims key = false ∧ action.closes key = false ∧ Stranded key held s' := by
  have ⟨sound, ⟨pool, present, kind, locked, short⟩, some, rest⟩ := stranded
  have quiet : action.claims key = false := by
    apply Bool.eq_false_of_not_eq_true
    intro claiming
    have enough := claim_enough sound present kind success claiming
    omega
  have kept : action.closes key = false := by
    apply Bool.eq_false_of_not_eq_true
    intro closes
    have empty := empty_of_closed sound success closes present locked
    omega
  have most := vault_held sound success quiet kept
  have held : s'.tokens.balance (.poolsVault key) = held := by omega
  refine ⟨quiet, kept, sound_step sound success, ?_, some, held⟩
  cases step_turn present success with
  | kept _ after => exact ⟨pool, after, kind, locked, short⟩
  | renamed _ after => exact ⟨_, after, kind, locked, short⟩
  | noted called same claims fees => rw [kind] at fees; cases fees
  | claimed claiming => rw [quiet] at claiming; cases claiming
  | closed closes => rw [kept] at closes; cases closes

/-- A run without funding never claims a rest below the emission of a second, nor closes its
pool. -/
theorem Stranded.run (stranded : Stranded key held s) (later : List Action)
    (unfunded : ∀ event ∈ trace s later,
      event.after.tokens.balance (.poolsVault key) ≤
        event.before.tokens.balance (.poolsVault key)) :
    (∀ event ∈ trace s later,
      event.action.claims key = false ∧ event.action.closes key = false) ∧
      Stranded key held (run s later) := by
  apply Machine.guarded_induction
    (P := fun past state => (∀ event ∈ past,
      event.action.claims key = false ∧ event.action.closes key = false) ∧ Stranded key held state)
    (fun event => event.after.tokens.balance (.poolsVault key) ≤
      event.before.tokens.balance (.poolsVault key)) ⟨by simp, stranded⟩ _ later unfunded
  intro past state action after before success _ less
  obtain ⟨quiet, kept, next⟩ := before.2.next success less
  refine ⟨fun event member => ?_, next⟩
  rcases List.mem_append.mp member with earlier | last
  · exact before.1 event earlier
  · rw [List.mem_singleton] at last
    rw [last]
    exact ⟨quiet, kept⟩

end

/-! A vault that can be emptied -/

/-- The first time at which an amount has been emitted. -/
def PoolAccount.coveredAt (self : PoolAccount) (amount : Nat) : Int :=
  self.startTime + ((amount + self.emission - 1) / self.emission : Nat)

/-- Everything that has been noted or is in the vault can be emitted before a number of the
program overflows. -/
structure InTime (s : State) (pool : PoolAccount) (held : Nat) : Prop where
  emits : 0 < pool.emission
  current : s.clock - pool.startTime < 2 ^ 63 ∧ pool.emitted s.clock < 2 ^ 64
  room : pool.emitted (pool.coveredAt (pool.claimedTokens + held)) < 2 ^ 64
  timely : Signed 64 (pool.coveredAt (pool.claimedTokens + held))
  elapsed : pool.coveredAt (pool.claimedTokens + held) - pool.startTime < 2 ^ 63

/-- The beneficiary is another token account of the mint of the vault, and whoever may freeze
accounts of that mint has frozen neither. -/
structure Receives (s : State) (pool : PoolAccount) : Prop where
  apart : pool.vault ≠ pool.beneficiary
  mints : (s.tokens.lookup pool.beneficiary).map TokenAccount.mint =
    (s.tokens.lookup pool.vault).map TokenAccount.mint
  thawed : ∀ key ∈ [pool.vault, pool.beneficiary], ∀ account ∈ s.tokens.lookup key,
    account.frozen = false

section

variable {s : State} {key : Pubkey} {pool : PoolAccount} {sender receiver : TokenAccount}
  {held : Nat}

theorem PoolAccount.le_emitted_coveredAt {self : PoolAccount} (amount : Nat)
    (emits : 0 < self.emission) : amount ≤ self.emitted (self.coveredAt amount) := by
  have elapsed : (self.coveredAt amount - self.startTime).toNat =
      (amount + self.emission - 1) / self.emission := by
    unfold coveredAt
    rw [Int.add_comm, Int.add_sub_cancel, Int.toNat_natCast]
  unfold emitted
  rw [elapsed]
  have above := Nat.lt_div_mul_add emits (a := amount + self.emission - 1)
  omega

/-- Something is emitted only after the start. -/
theorem PoolAccount.startTime_lt_coveredAt {self : PoolAccount} {amount : Nat}
    (emits : 0 < self.emission) (some : 0 < amount) : self.startTime < self.coveredAt amount := by
  have positive : 0 < (amount + self.emission - 1) / self.emission :=
    Nat.div_pos (by omega) emits
  unfold coveredAt
  exact Int.lt_add_of_pos_right _ (Int.natCast_pos.mpr positive)

/-- There is a time, not before now, at which all that is in the vault is due. -/
theorem InTime.exists_time (inTime : InTime s pool held) (some : 0 < held)
    (clock : Signed 64 s.clock) :
    ∃ now, s.clock ≤ now ∧ Signed 64 now ∧ pool.startTime < now ∧
      Signed 64 (now - pool.startTime) ∧ pool.emitted now < 2 ^ 64 ∧
      pool.claimedTokens + held ≤ pool.emitted now := by
  have ⟨emits, ⟨current, fitting⟩, room, timely, elapsed⟩ := inTime
  have above := PoolAccount.le_emitted_coveredAt (pool.claimedTokens + held) emits
  have starts : pool.startTime < pool.coveredAt (pool.claimedTokens + held) :=
    PoolAccount.startTime_lt_coveredAt emits (Nat.lt_add_left _ some)
  have fits : ∀ now, pool.startTime < now → now - pool.startTime < 2 ^ 63 →
      Signed 64 (now - pool.startTime) := by
    intro now later short
    unfold Signed
    omega
  by_cases early : s.clock ≤ pool.coveredAt (pool.claimedTokens + held)
  · exact ⟨_, early, timely, starts, fits _ starts elapsed, room, above⟩
  · have late : pool.coveredAt (pool.claimedTokens + held) ≤ s.clock := by omega
    have more := pool.emitted_mono late
    have started := lt_of_lt_of_le starts late
    exact ⟨_, le_refl _, clock, started, fits _ started current, fitting, by omega⟩

theorem step_of_process {s' : State} (ix : Instruction) (outside : isVault ix.authority = false)
    (success : process s ix = .ok s') : step s (.instruction ix) = .ok s' := by
  simp only [step, bind_eq_ok, require_eq_ok, exists_const]
  exact ⟨outside, success⟩

theorem lookup_of_balance {tokens : Tokens} {address : Pubkey} (some : 0 < tokens.balance address) :
    ∃ account, tokens.lookup address = Option.some account := by
  cases present : tokens.lookup address with
  | some account => exact ⟨account, rfl⟩
  | none =>
      rw [Tokens.balance_of_absent present] at some
      cases some

/-- The vault owns itself, and what it holds always fits into another account. -/
theorem transfer_of_vault (sound : Sound s) (vaulted : pool.vault = .poolsVault key)
    (sent : s.tokens.lookup pool.vault = some sender) {destination : Pubkey}
    (received : s.tokens.lookup destination = some receiver) (apart : pool.vault ≠ destination)
    (mint : sender.mint = receiver.mint)
    (thawed : sender.frozen = false ∧ receiver.frozen = false) :
    ∃ tokens, s.tokens.transfer pool.vault destination pool.vault sender.amount = .ok tokens := by
  have vault : isVault pool.vault = true := by
    rw [vaulted]
    rfl
  have own : sender.owner = pool.vault := sound.owned _ _ vault sent
  obtain ⟨tokens, moved⟩ := Tokens.transfer_of_funded sent received apart
    (sound.undelegated _ vault sender sent) thawed (le_refl _) mint (sound.minted _ _ sent)
  rw [own] at moved
  exact ⟨tokens, moved⟩

/-- A claim when all that is in the vault is due. -/
theorem claimTransfer_of_due (sound : Sound s) (present : s.pools.lookup key = some pool)
    (kind : pool.claimType = ClaimType.transfer.toU8)
    (sent : s.tokens.lookup pool.vault = some sender)
    (received : s.tokens.lookup pool.beneficiary = some receiver)
    (apart : pool.vault ≠ pool.beneficiary) (mint : sender.mint = receiver.mint)
    (thawed : sender.frozen = false ∧ receiver.frozen = false)
    (started : pool.startTime < s.clock) (fits : Signed 64 (s.clock - pool.startTime))
    (small : pool.emitted s.clock < 2 ^ 64)
    (due : pool.claimedTokens + sender.amount ≤ pool.emitted s.clock)
    (enough : pool.emission ≤ sender.amount) (caller : Pubkey) :
    ∃ tokens, s.tokens.transfer pool.vault pool.beneficiary pool.vault sender.amount = .ok tokens ∧
      claimTransfer s ⟨pool.vault, pool.beneficiary, key, caller⟩ =
        .ok { s.withTokens tokens with
          pools := s.pools.insert key
            { pool with claimedTokens := pool.claimedTokens + sender.amount } } := by
  have vaulted := sound.homed key pool present
  obtain ⟨tokens, moved⟩ := transfer_of_vault sound vaulted sent received apart mint thawed
  have all : sender.amount = min (pool.due s.clock) sender.amount := by
    unfold PoolAccount.due
    omega
  have computed : pool.claim sender.amount s.clock = .ok (sender.amount, _) :=
    (PoolAccount.claim_eq_ok started).mpr ⟨fits, small, by omega, all, rfl⟩
  have constraints : claimTransferConstraints s ⟨pool.vault, pool.beneficiary, key, caller⟩ =
      .ok (sender, pool) := by
    simp only [claimTransferConstraints, Tokens.load, bind_eq_ok, get_eq_ok, loadPool_eq_ok,
      require_eq_ok, pure_eq_ok, exists_const]
    exact ⟨sender, sent, receiver, received, pool, present, rfl, rfl, started, kind, apart, rfl⟩
  refine ⟨tokens, moved, ?_⟩
  simp only [claimTransfer, transferFromVault, bind_eq_ok, require_eq_ok, pure_eq_ok, exists_const,
    Prod.exists]
  exact ⟨sender, pool, constraints, _, _, computed, enough, tokens, ⟨vaulted, moved⟩, rfl⟩

/-- An empty vault can be closed with its pool. -/
theorem close_of_empty (sound : Sound s) (present : s.pools.lookup key = some pool)
    (sent : s.tokens.lookup pool.vault = some sender) (empty : sender.amount = 0)
    {user : Pubkey} (received : s.tokens.lookup user = some receiver) (apart : pool.vault ≠ user)
    (mint : sender.mint = receiver.mint)
    (thawed : sender.frozen = false ∧ receiver.frozen = false) :
    ∃ s', close s ⟨pool.vault, user, key, pool.authority⟩ = .ok s' := by
  have vaulted := sound.homed key pool present
  obtain ⟨tokens, moved⟩ := transfer_of_vault sound vaulted sent received apart mint thawed
  simp only [close, transferFromVault, Tokens.load, bind_eq_ok, get_eq_ok,
    loadPool_eq_ok, require_eq_ok, pure_eq_ok, exists_const]
  exact ⟨_, sender, sent, receiver, received, pool, present, rfl, rfl, Or.inr empty, apart, tokens,
    ⟨vaulted, moved⟩, rfl⟩

/-- At the right time one claim empties the vault, and then the pool can be closed. -/
theorem InTime.drains (inTime : InTime s pool (s.tokens.balance pool.vault)) (sound : Sound s)
    (present : s.pools.lookup key = some pool) (kind : pool.claimType = ClaimType.transfer.toU8)
    (receives : Receives s pool) (enough : pool.emission ≤ s.tokens.balance pool.vault)
    {caller : Pubkey} (outside : isVault caller = false) :
    ∃ now later drained closed, step s (.tick now) = .ok later ∧
      step later (.instruction (.claimTransfer ⟨pool.vault, pool.beneficiary, key, caller⟩)) =
        .ok drained ∧
      drained.tokens.balance pool.vault = 0 ∧
      drained.tokens.balance pool.beneficiary =
        s.tokens.balance pool.beneficiary + s.tokens.balance pool.vault ∧
      close drained ⟨pool.vault, pool.beneficiary, key, pool.authority⟩ = .ok closed := by
  obtain ⟨apart, mints, thawed⟩ := receives
  have some := lt_of_lt_of_le inTime.emits enough
  obtain ⟨sender, sent⟩ := lookup_of_balance some
  rw [sent, Option.map_some] at mints
  obtain ⟨receiver, received, mint⟩ := Option.map_eq_some_iff.mp mints
  obtain ⟨now, after, fits, started, elapsed, small, due⟩ := inTime.exists_time some sound.clock
  rw [Tokens.balance_of_lookup sent] at due enough ⊢
  have movable : sender.frozen = false ∧ receiver.frozen = false :=
    ⟨thawed _ List.mem_cons_self sender sent,
      thawed _ (List.mem_cons_of_mem _ List.mem_cons_self) receiver received⟩
  have tick : step s (.tick now) = .ok { s with clock := now } := by
    simp only [step, bind_eq_ok, require_eq_ok, pure_eq_ok, exists_const]
    exact ⟨⟨after, fits⟩, trivial⟩
  have soundLater := sound_step sound tick
  obtain ⟨tokens, moved, success⟩ := claimTransfer_of_due soundLater present kind sent received
    apart mint.symm movable started elapsed small due enough caller
  have claim := step_of_process
    (.claimTransfer ⟨pool.vault, pool.beneficiary, key, caller⟩) outside success
  have held : s.tokens.balance pool.vault = sender.amount := Tokens.balance_of_lookup sent
  have empty : tokens.balance pool.vault = 0 := by
    have left : tokens.balance pool.vault + sender.amount = s.tokens.balance pool.vault :=
      Tokens.balance_source moved apart
    omega
  have gained := Tokens.balance_destination moved apart
  obtain ⟨emptied, rest, left⟩ := Tokens.follows_transfer moved sent
  obtain ⟨paid, credited, added⟩ := Tokens.follows_transfer moved received
  obtain ⟨closed, closes⟩ := close_of_empty (sound_step soundLater claim) (Finmap.lookup_insert _)
    rest (by rw [← Tokens.balance_of_lookup rest, empty]) credited apart
    ((Prod.mk.inj left.kind).1.trans (mint.symm.trans (Prod.mk.inj added.kind).1.symm))
    ⟨left.frozen.trans movable.1, added.frozen.trans movable.2⟩
  exact ⟨now, _, _, closed, tick, claim, empty, gained, closes⟩

/-- A pool that may not be closed keeps a rest below the emission of a second for as long as
nobody adds to it. A vault that holds at least that can be emptied by one claim at a later time,
and the pool can be closed then. -/
theorem vault_drains_unless_short {start : State} (genesis : Genesis start)
    (actions : List Action) (present : (run start actions).pools.lookup key = some pool)
    (kind : pool.claimType = ClaimType.transfer.toU8) :
    (pool.closeable = false → 0 < (run start actions).tokens.balance pool.vault →
      (run start actions).tokens.balance pool.vault < pool.emission → ∀ later,
      (∀ event ∈ trace (run start actions) later,
        event.after.tokens.balance pool.vault ≤ event.before.tokens.balance pool.vault) →
      (∀ event ∈ trace (run start actions) later,
        event.action.claims key = false ∧ event.action.closes key = false) ∧
      (run (run start actions) later).tokens.balance pool.vault =
        (run start actions).tokens.balance pool.vault) ∧
    (∀ caller, isVault caller = false → Receives (run start actions) pool →
      pool.emission ≤ (run start actions).tokens.balance pool.vault →
      InTime (run start actions) pool ((run start actions).tokens.balance pool.vault) →
      ∃ now later drained closed, step (run start actions) (.tick now) = .ok later ∧
        step later (.instruction (.claimTransfer ⟨pool.vault, pool.beneficiary, key, caller⟩)) =
          .ok drained ∧
        drained.tokens.balance pool.vault = 0 ∧
        drained.tokens.balance pool.beneficiary =
          (run start actions).tokens.balance pool.beneficiary +
            (run start actions).tokens.balance pool.vault ∧
        close drained ⟨pool.vault, pool.beneficiary, key, pool.authority⟩ = .ok closed) := by
  have sound := sound_run genesis actions
  have vaulted := sound.homed key pool present
  constructor
  · intro locked some short later unfunded
    rw [vaulted] at some short unfunded ⊢
    have stranded : Stranded key _ (run start actions) :=
      ⟨sound, ⟨pool, present, kind, locked, short⟩, some, rfl⟩
    have ⟨quiet, after⟩ := stranded.run later unfunded
    exact ⟨quiet, after.held⟩
  · intro caller outside receives enough inTime
    exact inTime.drains sound present kind receives enough outside

namespace Sample

/-- The pool is opened, and an amount is put into its vault. -/
def holding (amount : Nat) : State := run start [openPool .transfer, fund amount]

def transferPool : PoolAccount :=
  ⟨Rewards.Sample.payer, beneficiary .transfer, 0, 0, false, 100, 0, vault⟩

end Sample

theorem vault_drains_unless_short_sample :
    (∃ now later drained, step (Sample.holding 500) (.tick now) = .ok later ∧
      step later Sample.claimTransfer = .ok drained ∧ drained.tokens.balance Sample.vault = 0) ∧
    (run (Sample.holding 14) [.tick 1, Sample.claimTransfer]).tokens.balance Sample.vault =
      (Sample.holding 14).tokens.balance Sample.vault := by
  constructor
  · have present : (Sample.holding 500).pools.lookup Sample.pool = some Sample.transferPool := rfl
    obtain ⟨now, later, drained, -, tick, claim, empty, -⟩ :=
      (vault_drains_unless_short Sample.genesis _ present rfl).2 Rewards.Sample.payer rfl
        ⟨by decide, by decide +kernel, by decide +kernel⟩ (by decide +kernel)
        ⟨by decide, by decide +kernel, by decide +kernel, by decide +kernel, by decide +kernel⟩
    exact ⟨now, later, drained, tick, claim, empty⟩
  · have present : (Sample.holding 14).pools.lookup Sample.pool = some Sample.transferPool := rfl
    have stays := (vault_drains_unless_short Sample.genesis _ present rfl).1 rfl
      (by decide +kernel) (by decide +kernel) [.tick 1, Sample.claimTransfer] (by decide +kernel)
    exact stays.2

/-- Fourteen tokens are never claimed from a pool that emits a hundred in a second. -/
theorem fourteen_tokens_stuck :
    ∃ pool, (Sample.holding 14).pools.lookup Sample.pool = some pool ∧
      pool.claimType = ClaimType.transfer.toU8 ∧ pool.closeable = false ∧ 0 < pool.emission ∧
      0 < (Sample.holding 14).tokens.balance pool.vault ∧
      ¬ ∃ now later a drained, step (Sample.holding 14) (.tick now) = .ok later ∧
        a.pool = Sample.pool ∧ step later (.instruction (.claimTransfer a)) = .ok drained := by
  refine ⟨Sample.transferPool, rfl, rfl, rfl, by decide, by decide +kernel, ?_⟩
  rintro ⟨now, later, a, drained, tick, same, claim⟩
  have sound := sound_step (sound_run Sample.genesis _) tick
  cases step_effect tick with
  | tick after fits =>
      have present : (Sample.holding 14).pools.lookup Sample.pool = some Sample.transferPool := rfl
      have enough := claim_enough sound present rfl claim (beq_iff_eq.mpr same)
      have short : (Sample.holding 14).tokens.balance Sample.vault <
          Sample.transferPool.emission := by
        decide +kernel
      exact absurd enough (Nat.not_le_of_lt short)

end

end Nosana.Pools
