import Nosana.Interleaving
import Nosana.PoolsSchedule

set_option autoImplicit false

/- Until when a pool can be claimed from. All that it has emitted since its start is computed
as a `u64`, before it is compared with what is left to claim. -/
namespace Nosana.Pools

open Checked

/-- A claim of a pool, with what its vault holds. -/
structure Call where
  available : Nat
  now : Int

namespace PoolAccount

/-- The time since the start fits, and is no longer than the emission fills a `u64` in. -/
def InRange (self : PoolAccount) (now : Int) : Prop :=
  Signed 64 (now - self.startTime) ∧
    (self.emission ≠ 0 → now ≤ self.startTime + ((2 ^ 64 - 1) / self.emission : Nat))

instance (self : PoolAccount) (now : Int) : Decidable (self.InRange now) :=
  inferInstanceAs (Decidable (_ ∧ _))

/-- What a claim leaves of the pool. -/
def claimAt (self : PoolAccount) (call : Call) : Except Error PoolAccount := do
  let (_, claimed) ← self.claim call.available call.now
  return claimed

variable {self : PoolAccount} {now later : Int}

/-- A pool out of range stays out of range. -/
theorem InRange.earlier (inRange : self.InRange later) (before : now ≤ later)
    (started : self.startTime < now) : self.InRange now := by
  obtain ⟨⟨_, upper⟩, soon⟩ := inRange
  exact ⟨⟨by omega, by omega⟩, fun some => before.trans (soon some)⟩

/-- In range, all that has been emitted fits. -/
theorem inRange_iff :
    self.InRange now ↔ Signed 64 (now - self.startTime) ∧ self.emitted now < 2 ^ 64 := by
  apply and_congr_right
  intro _
  unfold emitted
  by_cases none : self.emission = 0
  · simp [none]
  · have positive := Nat.pos_of_ne_zero none
    have limit : (now - self.startTime).toNat * self.emission ≤ 2 ^ 64 - 1 ↔
        now - self.startTime ≤ ((2 ^ 64 - 1) / self.emission : Nat) := by
      rw [← Nat.le_div_iff_mul_le positive, Int.toNat_le]
    constructor
    · intro soon
      have fits := limit.mpr (by have bound := soon none; omega)
      omega
    · intro small _
      have bound := limit.mp (by omega)
      omega

/-- A claim goes through in range, and then notes no more than what has been emitted. -/
theorem claimAt_eq_ok {call : Call} {claimed : PoolAccount} (started : self.startTime < call.now) :
    self.claimAt call = .ok claimed ↔ self.InRange call.now ∧
      self.claimedTokens ≤ self.emitted call.now ∧
      claimed = { self with
        claimedTokens := self.claimedTokens + min (self.due call.now) call.available } := by
  simp only [claimAt, bind_eq_ok, pure_eq_ok, Prod.exists, claim_eq_ok started, inRange_iff]
  constructor
  · rintro ⟨_, _, ⟨fits, small, covered, rfl, rfl⟩, rfl⟩
    exact ⟨⟨fits, small⟩, covered, rfl⟩
  · rintro ⟨⟨fits, small⟩, covered, rfl⟩
    exact ⟨_, _, ⟨fits, small, covered, rfl, rfl⟩, rfl⟩

/-- Claims one after the other all go through exactly when they come in range. -/
theorem completes_claimAt {calls : List Call} {earlier : Int}
    (emitted : self.claimedTokens ≤ self.emitted earlier)
    (ordered : calls.Pairwise fun first second => first.now ≤ second.now)
    (timely : ∀ call ∈ calls, earlier ≤ call.now ∧ self.startTime < call.now) :
    Machine.Completes claimAt self calls ↔ ∀ call ∈ calls, self.InRange call.now := by
  induction calls generalizing self earlier with
  | nil => simp [Machine.Completes, Machine.trace]
  | cons call rest ih =>
      obtain ⟨after, started⟩ := timely call List.mem_cons_self
      obtain ⟨first, others⟩ := List.pairwise_cons.mp ordered
      have covered := emitted.trans (self.emitted_mono after)
      let claimed : PoolAccount := { self with
        claimedTokens := self.claimedTokens + min (self.due call.now) call.available }
      have noted : claimed.claimedTokens ≤ claimed.emitted call.now := by
        show self.claimedTokens + min (self.emitted call.now - self.claimedTokens) call.available ≤
          self.emitted call.now
        omega
      have onward := @ih claimed call.now noted others fun next member =>
        ⟨first next member, (timely next (List.mem_cons_of_mem _ member)).2⟩
      rw [Machine.completes_cons, List.forall_mem_cons]
      constructor
      · rintro ⟨next, success, completes⟩
        obtain ⟨inRange, -, rfl⟩ := (claimAt_eq_ok started).mp success
        exact ⟨inRange, onward.mp completes⟩
      · rintro ⟨inRange, later⟩
        exact ⟨claimed, (claimAt_eq_ok started).mpr ⟨inRange, covered, rfl⟩, onward.mpr later⟩

/-- Of claims in the order of their times, the last one is the first to come out of range. -/
theorem completes_claimAt_iff_last {calls : List Call} (unclaimed : self.claimedTokens = 0)
    (ordered : calls.Pairwise fun first second => first.now ≤ second.now)
    (started : ∀ call ∈ calls, self.startTime < call.now) :
    Machine.Completes claimAt self calls ↔
      ∀ last ∈ calls.getLast?, self.InRange last.now := by
  have emitted : self.claimedTokens ≤ self.emitted self.startTime := by omega
  rw [completes_claimAt emitted ordered fun call member =>
    ⟨le_of_lt (started call member), started call member⟩]
  constructor
  · intro all last found
    exact all last (List.mem_of_getLast? found)
  · intro inRange call member
    rcases List.eq_nil_or_concat calls with rfl | ⟨front, last, rfl⟩
    · cases member
    · rw [List.concat_eq_append] at *
      have ended := inRange last (by simp)
      rcases List.mem_append.mp member with before | same
      · have later := (List.pairwise_append.mp ordered).2.2 call before last (by simp)
        exact ended.earlier later (started call member)
      · rw [List.mem_singleton] at same
        rw [same]
        exact ended

end PoolAccount

section

variable {s start : State} {a : Accounts.Open} {emission : Nat} {startTime : Int}
  {claimType : Nat} {closeable : Bool}

/-- In every state of its life a pool has the terms it was opened with, and has not noted more than
it has emitted. -/
theorem tracked_reached
    (opened : step s (.instruction (.openPool a emission startTime claimType closeable)) =
      .ok start)
    (actions : List Action)
    (kept : ∀ event ∈ trace start actions, event.action.closes a.pool = false) :
    ∀ state ∈ reached start actions, ∃ past pool,
      Tracked (created a emission startTime claimType closeable) a.pool past state pool := by
  have ⟨home, tracked⟩ := tracked_open opened
  apply Machine.guarded_reached
    (P := fun past state => ∃ pool, Tracked _ a.pool past state pool)
    (fun event => event.action.closes a.pool = false) ⟨_, tracked⟩ _ actions kept
  intro past state action after before success unclosed
  obtain ⟨pool, tracked⟩ := before
  obtain ⟨other, next, -⟩ := tracked.next home success unclosed
  exact ⟨other, next⟩

/-- The range of a pool does not change with its claims. -/
theorem PoolAccount.SameTerms.inRange {self first : PoolAccount} (terms : self.SameTerms first)
    (now : Int) : self.InRange now ↔ first.InRange now := by
  rw [terms]
  rfl

/-- The claims of a pool, at times that do not decrease and whatever its vault holds, all go through
exactly when the last of them is in range. And in its life on the chain, whatever else happens
there, it can always be claimed from exactly when the clock is still in range at the end. -/
theorem claims_go_through_iff_in_range
    (opened : step s (.instruction (.openPool a emission startTime claimType closeable)) =
      .ok start) :
    (∀ calls : List Call, (calls.Pairwise fun first second => first.now ≤ second.now) →
      (∀ call ∈ calls, startTime < call.now) →
      (Machine.Completes PoolAccount.claimAt
          (created a emission startTime claimType closeable) calls ↔
        ∀ last ∈ calls.getLast?,
          (created a emission startTime claimType closeable).InRange last.now)) ∧
    ∀ actions : List Action,
      (∀ event ∈ trace start actions, event.action.closes a.pool = false) →
      ((∀ state ∈ reached start actions, startTime < state.clock →
          ∀ pool ∈ state.pools.lookup a.pool, ∀ available,
            ∃ result, pool.claim available state.clock = .ok result) ↔
        (startTime < (run start actions).clock →
          (created a emission startTime claimType closeable).InRange
            (run start actions).clock)) := by
  refine ⟨fun calls ordered started =>
    PoolAccount.completes_claimAt_iff_last rfl ordered started, fun actions kept => ?_⟩
  have tracked := tracked_reached opened actions kept
  have goes : ∀ state ∈ reached start actions, startTime < state.clock →
      ∀ pool ∈ state.pools.lookup a.pool, ∀ available,
        ((∃ result, pool.claim available state.clock = .ok result) ↔
          (created a emission startTime claimType closeable).InRange state.clock) := by
    intro state member started pool present available
    obtain ⟨past, other, books⟩ := tracked state member
    cases present.symm.trans books.present
    rw [← (of_created books.terms).1] at started
    rw [← books.terms.inRange, PoolAccount.inRange_iff]
    exact PoolAccount.claim_succeeds_iff books.emitted (le_refl _) started
  constructor
  · intro always started
    have last : run start actions ∈ reached start actions := Machine.run_mem_reached start actions
    obtain ⟨past, pool, books⟩ := tracked _ last
    exact (goes _ last started pool books.present 0).mp
      (always _ last started pool books.present 0)
  · intro inRange state member started pool present available
    have earlier : state.clock ≤ (run start actions).clock :=
      Machine.reached_le (fun _ _ _ success => step_clock success) start actions state member
    exact (goes state member started pool present available).mpr
      ((inRange (lt_of_lt_of_le started earlier)).earlier earlier started)

namespace Sample

/-- A pool that pays fees, of the given emission from the start of time on. -/
def emitting (emission : Nat) : Action :=
  .instruction (.openPool ⟨pool, vault, beneficiary .addFee, Rewards.Sample.payer, id.nosToken⟩
    emission 0 ClaimType.addFee.toU8 false)

def emittingPool (emission : Nat) : PoolAccount :=
  ⟨Rewards.Sample.payer, beneficiary .addFee, ClaimType.addFee.toU8, 0, false, emission, 0, vault⟩

end Sample

theorem claims_go_through_iff_in_range_sample :
    Machine.Completes PoolAccount.claimAt (Sample.emittingPool 100) [⟨500, 1⟩, ⟨300, 3⟩] ↔
    ∀ last ∈ [(⟨500, 1⟩ : Call), ⟨300, 3⟩].getLast?,
      (Sample.emittingPool 100).InRange last.now := by
  have opening :
    step Sample.start (Sample.emitting 100) = .ok (run Sample.start [Sample.emitting 100]) :=
    rfl
  exact (claims_go_through_iff_in_range opening).1 [⟨500, 1⟩, ⟨300, 3⟩] (by decide) (by decide)

/-- A pool of `2^63` base units a second is claimed from after its first second, and is out of range
from its second one on, for good. -/
theorem fast_pool_freezes :
    step Sample.start (Sample.emitting (2 ^ 63)) =
      .ok (run Sample.start [Sample.emitting (2 ^ 63)]) ∧
    failure (step (run Sample.start [Sample.emitting (2 ^ 63), .tick 1]) Sample.claimFee) = none ∧
    ¬ Machine.Completes PoolAccount.claimAt (Sample.emittingPool (2 ^ 63)) [⟨0, 1⟩, ⟨0, 2⟩] ∧
    step (run Sample.start [Sample.emitting (2 ^ 63), .tick 1, Sample.claimFee, .tick 2])
      Sample.claimFee = .error (.panic .overflow) ∧
    ∀ now, 2 ≤ now → ¬ (Sample.emittingPool (2 ^ 63)).InRange now := by
  refine ⟨rfl, by decide +kernel, ?_, failure_eq_some.mp (by decide +kernel), fun now later => ?_⟩
  · rw [PoolAccount.completes_claimAt_iff_last rfl (by decide) (by decide)]
    decide
  · intro inRange
    have second : (Sample.emittingPool (2 ^ 63)).InRange 2 := inRange.earlier later (by decide)
    exact absurd second (by decide)

end

end Nosana.Pools
