import Nosana.PoolsLedger

set_option autoImplicit false

/- A pool from its opening on: what it has noted as claimed, what it has paid, and what it has
emitted. -/
namespace Nosana.Pools

open Checked

/-- A claim of a fee finds nothing due, nothing in the vault, or the emission of a second both
due and in the vault. -/
def Full (key : Pubkey) (event : Event) : Prop :=
  ∀ a, event.action = .instruction (.claimFee a) → a.pool = key →
    ∀ pool, event.before.pools.lookup key = some pool →
      pool.due event.before.clock = 0 ∨ event.before.tokens.balance pool.vault = 0 ∨
        (pool.emission ≤ pool.due event.before.clock ∧
          pool.emission ≤ event.before.tokens.balance pool.vault)

/-- The pool that `open` creates. -/
def created (a : Accounts.Open) (emission : Nat) (startTime : Int) (claimType : Nat)
    (closeable : Bool) : PoolAccount :=
  PoolAccount.zeroed.init a.authority a.beneficiary (ClaimType.ofU8 claimType).toU8 closeable
    emission startTime a.vault

/-- The pool has the terms it was opened with. -/
def PoolAccount.SameTerms (self first : PoolAccount) : Prop :=
  self = { first with beneficiary := self.beneficiary, claimedTokens := self.claimedTokens }

/-- A pool and its history since it was opened. -/
structure Tracked (first : PoolAccount) (key : Pubkey) (past : List Event) (s : State)
    (pool : PoolAccount) : Prop where
  present : s.pools.lookup key = some pool
  terms : pool.SameTerms first
  covered : paid key past ≤ pool.claimedTokens
  emitted : pool.claimedTokens ≤ pool.emitted s.clock
  full : pool.claimedTokens = paid key past ↔ ∀ event ∈ past, Full key event

section

variable {s s' start : State} {key : Pubkey} {pool first claimed : PoolAccount}
  {past : List Event} {action : Action} {amount : Nat}

theorem PoolAccount.emitted_mono (self : PoolAccount) {now later : Int} (further : now ≤ later) :
    self.emitted now ≤ self.emitted later := by
  unfold emitted
  apply Nat.mul_le_mul_right
  omega

theorem PoolAccount.emitted_cast {self : PoolAccount} {now : Int} (started : self.startTime < now) :
    (self.emitted now : Int) = self.emission * (now - self.startTime) := by
  have elapsed : ((now - self.startTime).toNat : Int) = now - self.startTime :=
    Int.toNat_of_nonneg (by omega)
  unfold emitted
  rw [Int.natCast_mul, elapsed, Int.mul_comm]

/-- What has been claimed is covered at any later time, so a claim only fails when the time or
the emission does not fit. -/
theorem PoolAccount.claim_succeeds_iff {self : PoolAccount} {available : Nat} {now earlier : Int}
    (emitted : self.claimedTokens ≤ self.emitted earlier) (later : earlier ≤ now)
    (started : self.startTime < now) :
    (∃ result, self.claim available now = .ok result) ↔
      Signed 64 (now - self.startTime) ∧ self.emitted now < 2 ^ 64 := by
  have covered := emitted.trans (self.emitted_mono later)
  constructor
  · rintro ⟨⟨amount, claimed⟩, computed⟩
    have ⟨fits, small, _⟩ := (claim_eq_ok started).mp computed
    exact ⟨fits, small⟩
  · rintro ⟨fits, small⟩
    exact ⟨_, (claim_eq_ok started).mpr ⟨fits, small, covered, rfl, rfl⟩⟩

/-- What a claim finds and notes, in numbers. -/
theorem Claimed.amounts (claims : Claimed s key pool amount claimed) :
    pool.claimedTokens ≤ pool.emitted s.clock ∧
      amount = min (pool.due s.clock) (s.tokens.balance pool.vault) ∧
      claimed = { pool with claimedTokens := pool.claimedTokens + amount } := by
  obtain ⟨-, -, covered, exact, same⟩ := (PoolAccount.claim_eq_ok claims.started).mp claims.computed
  exact ⟨covered, exact, same⟩

theorem Claimed.claimedTokens_le (claims : Claimed s key pool amount claimed) :
    claimed.claimedTokens ≤ claimed.emitted s.clock := by
  obtain ⟨covered, exact, rfl⟩ := claims.amounts
  have part : amount ≤ pool.emitted s.clock - pool.claimedTokens := by
    rw [exact]
    exact min_le_left _ _
  show pool.claimedTokens + amount ≤ pool.emitted s.clock
  omega

theorem full_of_quiet {event : Event} (quiet : event.action.claims key = false) :
    Full key event := by
  intro a called same
  simp [called, Action.claims, same] at quiet

theorem paidOut_of_quiet {event : Event} (quiet : event.action.claims key = false) :
    paidOut key event = 0 := by
  simp [paidOut, quiet]

/-- A history stays full with an event exactly when that event is full. -/
theorem full_concat {event : Event} :
    (∀ earlier ∈ past ++ [event], Full key earlier) ↔
      (∀ earlier ∈ past, Full key earlier) ∧ Full key event := by
  simp [or_imp, forall_and]

/-- An event that does not claim from the pool leaves its books as they are. -/
theorem Tracked.quiet (tracked : Tracked first key past s pool) {other : PoolAccount}
    (quiet : action.claims key = false) (after : s'.pools.lookup key = some other)
    (terms : other.SameTerms first) (same : other.claimedTokens = pool.claimedTokens)
    (emitted : other.claimedTokens ≤ other.emitted s'.clock) :
    Tracked first key (past ++ [⟨s, action, s'⟩]) s' other := by
  have nothing : paid key (past ++ [⟨s, action, s'⟩]) = paid key past := by
    rw [paid_concat]
    exact congrArg _ (paidOut_of_quiet quiet)
  refine ⟨after, terms, ?_, emitted, ?_⟩
  · rw [nothing, same]
    exact tracked.covered
  · rw [nothing, same, full_concat, tracked.full]
    exact ⟨fun all => ⟨all, full_of_quiet quiet⟩, And.left⟩

/-- A claim of a fee is full when it claims nothing or enough to be paid. -/
theorem full_iff {a : Accounts.ClaimFee} (same : a.pool = key)
    (claims : Claimed s key pool amount claimed) :
    Full key ⟨s, .instruction (.claimFee a), s'⟩ ↔ amount = 0 ∨ pool.emission ≤ amount := by
  have exact := claims.amounts.2.1
  constructor
  · intro full
    rcases full a rfl same pool claims.present with none | empty | ⟨due, funded⟩
    · left
      rw [exact, none, Nat.zero_min]
    · left
      rw [exact, empty, Nat.min_zero]
    · right
      rw [exact]
      exact le_min due funded
  · intro whole b _ _ other found
    cases claims.present.symm.trans found
    show pool.due s.clock = 0 ∨ s.tokens.balance pool.vault = 0 ∨
      pool.emission ≤ pool.due s.clock ∧ pool.emission ≤ s.tokens.balance pool.vault
    omega

/-- What a claim of one pool notes in it and pays out of its vault. -/
structure Payment (event : Event) (key : Pubkey) (pool : PoolAccount) (amount : Nat)
    (claimed : PoolAccount) : Prop where
  claims : Claimed event.before key pool amount claimed
  after : event.after.pools.lookup key = some claimed
  balance : event.after.tokens.balance pool.vault + paidOut key event =
    event.before.tokens.balance pool.vault
  most : paidOut key event ≤ amount
  full : paidOut key event = amount ↔ Full key event

/-- Every claim from a pool is a payment, if only of nothing. -/
theorem payment_of_step (present : s.pools.lookup key = some pool)
    (home : pool.vault = .poolsVault key) (success : step s action = .ok s')
    (claiming : action.claims key = true) (kept : action.closes key = false) :
    ∃ amount claimed, Payment ⟨s, action, s'⟩ key pool amount claimed := by
  have taken : paidOut key ⟨s, action, s'⟩ =
      s.tokens.balance pool.vault - s'.tokens.balance pool.vault := by
    unfold paidOut
    rw [if_pos claiming, home]
  cases step_turn present success with
  | kept quiet after => rw [claiming] at quiet; cases quiet
  | renamed quiet after => rw [claiming] at quiet; cases quiet
  | @noted a amount claimed called same claims kind after short balance =>
      cases called
      have balance : s'.tokens.balance pool.vault = s.tokens.balance pool.vault := balance
      have nothing : paidOut key ⟨s, .instruction (.claimFee a), s'⟩ = 0 := by omega
      refine ⟨amount, claimed, claims, after, by omega, by omega, ?_⟩
      rw [nothing, full_iff same claims]
      have short : amount < pool.emission := short
      omega
  | @claimed amount claimed _ claims after enough fee balance =>
      have balance : s'.tokens.balance pool.vault + amount = s.tokens.balance pool.vault := balance
      have all : paidOut key ⟨s, action, s'⟩ = amount := by omega
      refine ⟨amount, claimed, claims, after, by omega, le_of_eq all, ?_⟩
      refine iff_of_true all fun a called same => ?_
      cases called
      exact (full_iff same claims).mpr (Or.inr enough) a rfl same
  | closed closes => rw [closes] at kept; cases kept

/-- Only fees are claimed short, and a pool that is claimed by transfers pays no fees. -/
theorem full_of_transfer (present : s.pools.lookup key = some pool)
    (kind : pool.claimType = ClaimType.transfer.toU8) (success : step s action = .ok s') :
    Full key ⟨s, action, s'⟩ := by
  rintro a rfl rfl
  have fees : pool.claimType = ClaimType.addFee.toU8 := by
    cases step_effect success with
    | noted claims fees short =>
        cases present.symm.trans claims.present
        exact fees
    | claimedFee claims fees enough apart moved =>
        cases present.symm.trans claims.present
        exact fees
  rw [kind] at fees
  cases fees

/-- A claim adds the same to the counter and, if it is paid, to what has left the vault. -/
theorem Tracked.claim (tracked : Tracked first key past s pool)
    (payment : Payment ⟨s, action, s'⟩ key pool amount claimed) (later : s.clock ≤ s'.clock) :
    Tracked first key (past ++ [⟨s, action, s'⟩]) s' claimed := by
  have ⟨present, terms, covered, emitted, earlier⟩ := tracked
  have ⟨claims, after, _, most, full⟩ := payment
  have within := claims.claimedTokens_le
  obtain ⟨-, -, rfl⟩ := claims.amounts
  refine ⟨after, ?_, ?_, within.trans (PoolAccount.emitted_mono _ later), ?_⟩
  · unfold PoolAccount.SameTerms at terms ⊢
    rw [terms]
  · rw [paid_concat]
    exact Nat.add_le_add covered most
  · rw [full_concat, ← earlier, ← full, paid_concat]
    show pool.claimedTokens + amount = _ ↔ _
    omega

theorem Tracked.home (tracked : Tracked first key past s pool)
    (home : first.vault = .poolsVault key) : pool.vault = .poolsVault key := by
  rw [← home, tracked.terms]

/-- Every step but the close of the pool keeps its books, and its counter does not fall. -/
theorem Tracked.next (tracked : Tracked first key past s pool)
    (home : first.vault = .poolsVault key)
    (success : step s action = .ok s') (kept : action.closes key = false) :
    ∃ other, Tracked first key (past ++ [⟨s, action, s'⟩]) s' other ∧
      pool.claimedTokens ≤ other.claimedTokens := by
  have later := step_clock success
  by_cases claiming : action.claims key = true
  · obtain ⟨amount, claimed, payment⟩ :=
      payment_of_step tracked.present (tracked.home home) success claiming kept
    refine ⟨claimed, tracked.claim payment later, ?_⟩
    rw [payment.claims.amounts.2.2]
    exact Nat.le_add_right _ _
  · have quiet := Bool.eq_false_of_not_eq_true claiming
    have ⟨present, terms, _, emitted, _⟩ := tracked
    have further := emitted.trans (PoolAccount.emitted_mono _ later)
    cases step_turn present success with
    | kept _ after => exact ⟨pool, tracked.quiet quiet after terms rfl further, le_refl _⟩
    | @renamed beneficiary _ after =>
        have renamed : (pool.updateBeneficiary beneficiary).SameTerms first := by
          unfold PoolAccount.SameTerms at terms ⊢
          rw [terms]
          rfl
        exact ⟨_, tracked.quiet quiet after renamed rfl further, le_refl _⟩
    | noted called same => simp [show action = _ from called, Action.claims, same] at claiming
    | claimed now => exact absurd now claiming
    | closed closes => rw [closes] at kept; cases kept

end

section

variable {s start : State} {a : Accounts.Open} {emission : Nat} {startTime : Int}
  {claimType : Nat} {closeable : Bool}

theorem of_created {pool : PoolAccount}
    (terms : pool.SameTerms (created a emission startTime claimType closeable)) :
    pool.startTime = startTime ∧ pool.emission = emission ∧ pool.vault = a.vault ∧
      pool.claimType = (ClaimType.ofU8 claimType).toU8 := by
  rw [terms]
  exact ⟨rfl, rfl, rfl, rfl⟩

theorem tracked_open
    (opened : step s (.instruction (.openPool a emission startTime claimType closeable)) =
      .ok start) :
    a.vault = .poolsVault a.pool ∧
      Tracked (created a emission startTime claimType closeable) a.pool [] start
        (created a emission startTime claimType closeable) := by
  cases step_effect opened with
  | opened loaded mint vaulted fresh freshVault =>
      exact ⟨vaulted, Finmap.lookup_insert _, rfl, le_refl _, Nat.zero_le _,
        iff_of_true rfl (by simp)⟩

/-- As long as a pool is not closed, it is there with its books. -/
theorem tracked_run
    (opened : step s (.instruction (.openPool a emission startTime claimType closeable)) =
      .ok start)
    (actions : List Action)
    (kept : ∀ event ∈ trace start actions, event.action.closes a.pool = false) :
    ∃ pool, Tracked (created a emission startTime claimType closeable) a.pool
      (trace start actions) (run start actions) pool := by
  have ⟨home, tracked⟩ := tracked_open opened
  apply Machine.guarded_induction
    (P := fun past state => ∃ pool, Tracked _ a.pool past state pool)
    (fun event => event.action.closes a.pool = false) ⟨_, tracked⟩ _ actions kept
  intro past state action after before success _ unclosed
  obtain ⟨pool, tracked⟩ := before
  obtain ⟨other, next, -⟩ := tracked.next home success unclosed
  exact ⟨other, next⟩

/-- What a pool has noted as claimed is what its claims have paid, exactly as long as every claim
of a fee was full. -/
theorem claimed_eq_paid_iff_full
    (opened : step s (.instruction (.openPool a emission startTime claimType closeable)) =
      .ok start)
    (actions : List Action)
    (kept : ∀ event ∈ trace start actions, event.action.closes a.pool = false) :
    ∃ pool, (run start actions).pools.lookup a.pool = some pool ∧
      (pool.claimedTokens = paid a.pool (trace start actions) ↔
        ∀ event ∈ trace start actions, Full a.pool event) := by
  obtain ⟨pool, tracked⟩ := tracked_run opened actions kept
  exact ⟨pool, tracked.present, tracked.full⟩

namespace Sample

/-- Fourteen tokens are claimed after a second, less than its emission. -/
def underfunded : List Action := [fund 14, .tick 1, claimFee]

/-- Full fees are claimed twice. -/
def fees : List Action := [fund 500, .tick 1, claimFee, .tick 3, claimFee]

/-- The vault always holds what is due. -/
def transfers : List Action := [fund 500, .tick 1, claimTransfer, .tick 3, claimTransfer]

end Sample

theorem claimed_eq_paid_iff_full_sample :
    ∃ pool, (run (Sample.opened .addFee) Sample.fees).pools.lookup Sample.pool = some pool ∧
      (pool.claimedTokens = paid Sample.pool (trace (Sample.opened .addFee) Sample.fees) ↔
        ∀ event ∈ trace (Sample.opened .addFee) Sample.fees, Full Sample.pool event) := by
  have opening : step Sample.start (Sample.openPool .addFee) = .ok (Sample.opened .addFee) := rfl
  have kept : ∀ event ∈ trace (Sample.opened .addFee) Sample.fees,
      event.action.closes Sample.pool = false := by
    decide +kernel
  exact claimed_eq_paid_iff_full opening Sample.fees kept

/-- The pool notes the fourteen tokens as claimed, and pays nothing. -/
theorem short_fee_noted_unpaid :
    ¬ ∀ pool, (run (Sample.opened .addFee) Sample.underfunded).pools.lookup Sample.pool =
        some pool →
      pool.claimedTokens = paid Sample.pool (trace (Sample.opened .addFee) Sample.underfunded) := by
  intro exact
  have noted : ∃ pool ∈ (run (Sample.opened .addFee) Sample.underfunded).pools.lookup Sample.pool,
      pool.claimedTokens ≠
        paid Sample.pool (trace (Sample.opened .addFee) Sample.underfunded) := by
    decide +kernel
  obtain ⟨pool, present, unpaid⟩ := noted
  exact unpaid (exact pool present)

/-- Before each event of the run, the pool has the history up to there. -/
theorem tracked_before {actions : List Action} {past rest : List Event} {event : Event}
    (opened : step s (.instruction (.openPool a emission startTime claimType closeable)) =
      .ok start)
    (kept : ∀ event ∈ trace start actions, event.action.closes a.pool = false)
    (split : trace start actions = past ++ event :: rest) :
    step event.before event.action = .ok event.after ∧ event.action.closes a.pool = false ∧
      ∃ pool, Tracked (created a emission startTime claimType closeable) a.pool past event.before
        pool := by
  have member : event ∈ trace start actions := by
    rw [split]
    exact List.mem_append_right _ (List.mem_cons_self ..)
  obtain ⟨front, same, last⟩ := Machine.exists_before split
  have earlier : ∀ event ∈ trace start front, event.action.closes a.pool = false := by
    intro event before
    apply kept event
    rw [split, ← same]
    exact List.mem_append_left _ before
  obtain ⟨pool, tracked⟩ := tracked_run opened front earlier
  refine ⟨Machine.mem_trace_step member, kept event member, pool, ?_⟩
  rw [← same, ← last]
  exact tracked

theorem full_of_transfers {actions : List Action}
    (opened : step s (.instruction (.openPool a emission startTime claimType closeable)) =
      .ok start)
    (kept : ∀ event ∈ trace start actions, event.action.closes a.pool = false)
    (kind : ClaimType.ofU8 claimType = .transfer) :
    ∀ event ∈ trace start actions, Full a.pool event := by
  intro event member
  obtain ⟨past, rest, split⟩ := List.append_of_mem member
  obtain ⟨success, -, pool, tracked⟩ := tracked_before opened kept split
  apply full_of_transfer tracked.present _ success
  rw [(of_created tracked.terms).2.2.2, kind]

/-- The pool can be claimed from at any later time at which what it has emitted fits, and each of
its claims follows the emission: the counter does not fall, stays within what has been emitted
and covers what was paid. A transfer that finds all that is due pays the rest of the emission. -/
theorem claims_follow_emission
    (opened : step s (.instruction (.openPool a emission startTime claimType closeable)) =
      .ok start)
    (actions : List Action)
    (kept : ∀ event ∈ trace start actions, event.action.closes a.pool = false) :
    (∃ pool, (run start actions).pools.lookup a.pool = some pool ∧
      pool.SameTerms (created a emission startTime claimType closeable) ∧
      ∀ available now, (run start actions).clock ≤ now → startTime < now →
        ((∃ result, pool.claim available now = .ok result) ↔
          Signed 64 (now - startTime) ∧ (now - startTime).toNat * emission < 2 ^ 64)) ∧
    ∀ past event rest, trace start actions = past ++ event :: rest →
      ∃ pool claimed, event.before.pools.lookup a.pool = some pool ∧
        event.after.pools.lookup a.pool = some claimed ∧
        pool.claimedTokens ≤ claimed.claimedTokens ∧
        paid a.pool (past ++ [event]) ≤ claimed.claimedTokens ∧
        (event.action.claims a.pool = true →
          startTime < event.before.clock ∧
          (claimed.claimedTokens : Int) ≤ emission * (event.before.clock - startTime) ∧
          event.after.tokens.balance a.vault + paidOut a.pool event =
            event.before.tokens.balance a.vault ∧
          (ClaimType.ofU8 claimType = .transfer →
            pool.due event.before.clock ≤ event.before.tokens.balance a.vault →
            (paid a.pool (past ++ [event]) : Int) =
              emission * (event.before.clock - startTime))) := by
  have ⟨home, _⟩ := tracked_open opened
  constructor
  · obtain ⟨pool, tracked⟩ := tracked_run opened actions kept
    refine ⟨pool, tracked.present, tracked.terms, fun available now later started => ?_⟩
    obtain ⟨begins, emits, -, -⟩ := of_created tracked.terms
    rw [← begins] at started ⊢
    rw [← emits]
    exact PoolAccount.claim_succeeds_iff tracked.emitted later started
  · intro past event rest split
    obtain ⟨success, unclosed, pool, tracked⟩ := tracked_before opened kept split
    obtain ⟨claimed, next, grown⟩ := tracked.next home success unclosed
    refine ⟨pool, claimed, tracked.present, next.present, grown, next.covered, fun claiming => ?_⟩
    obtain ⟨amount, other, payment⟩ :=
      payment_of_step tracked.present (tracked.home home) success claiming unclosed
    cases next.present.symm.trans payment.after
    have started := payment.claims.started
    have within := payment.claims.claimedTokens_le
    obtain ⟨covered, exact, rfl⟩ := payment.claims.amounts
    have line := PoolAccount.emitted_cast started
    obtain ⟨begins, emits, vaulted, kind⟩ := of_created tracked.terms
    rw [begins, emits] at line
    rw [← vaulted, ← line]
    refine ⟨begins ▸ started, Int.ofNat_le.mpr within, payment.balance, fun transfer funded => ?_⟩
    have before_all : paid a.pool past = pool.claimedTokens := by
      apply Eq.symm
      apply tracked.full.mpr
      intro earlier before
      apply full_of_transfers opened kept transfer
      rw [split]
      exact List.mem_append_left _ before
    have now_all : paidOut a.pool event = amount := by
      apply payment.full.mpr
      apply full_of_transfers opened kept transfer
      rw [split]
      exact List.mem_append_right _ (List.mem_cons_self ..)
    rw [paid_concat, before_all, now_all, exact, min_eq_left funded]
    have whole : pool.claimedTokens + pool.due event.before.clock =
        pool.emitted event.before.clock := Nat.add_sub_of_le covered
    exact congrArg Nat.cast whole

theorem claims_follow_emission_sample :
    ∃ pool, (run (Sample.opened .transfer) Sample.transfers).pools.lookup Sample.pool = some pool ∧
      ∃ result, pool.claim 200 5 = .ok result := by
  have opening : step Sample.start (Sample.openPool .transfer) = .ok (Sample.opened .transfer) :=
    rfl
  have kept : ∀ event ∈ trace (Sample.opened .transfer) Sample.transfers,
      event.action.closes Sample.pool = false := by
    decide +kernel
  have ⟨⟨pool, present, _, claims⟩, _⟩ := claims_follow_emission opening Sample.transfers kept
  refine ⟨pool, present, (claims 200 5 ?_ (by decide)).mpr ⟨by decide, by decide⟩⟩
  decide +kernel

/-- Three seconds of emission are paid, however they are claimed. -/
example : paid Sample.pool (trace (Sample.opened .transfer) Sample.transfers) = 300 := by
  decide +kernel

end

end Nosana.Pools
