import Nosana.JobsEffects

set_option autoImplicit false

/- How long a job account stays readable after the job is done. The program takes the
expiration from the market that the caller of `clean` passes. -/
namespace Nosana.Jobs

open Checked

/-- If the job account is closed, the job was done and the expiration of the market it was
listed in, where that market still exists, was over. -/
def KeepsReadable [Runtime] (s : State) (a : Accounts.Clean) : Prop :=
  ∀ s', process s (.clean a) = .ok s' → ∃ job, s.jobs.lookup a.job = some job ∧
    job.state = JobState.done.toU8 ∧ ∀ market, s.markets.lookup job.market = some market →
      market.jobExpiration < s.clock - job.timeEnd

/-- The caller passes a market whose expiration is shorter than that of the job's own market,
which is still ahead. The clock ends at `2^63 - 1`. -/
def Accounts.Clean.Undercuts (s : State) (a : Accounts.Clean) : Prop :=
  ∃ job market own, s.jobs.lookup a.job = some job ∧ job.payer = a.payer ∧
    job.state = JobState.done.toU8 ∧ s.markets.lookup a.market = some market ∧
    s.markets.lookup job.market = some own ∧ market.jobExpiration < own.jobExpiration ∧
    s.clock ≤ job.timeEnd + own.jobExpiration ∧ job.timeEnd + market.jobExpiration < 2 ^ 63 - 1

/-- A job that is done ended in the past. -/
structure Dated (s : State) : Prop where
  clock : 0 ≤ s.clock ∧ Signed 64 s.clock
  ended : ∀ key job, s.jobs.lookup key = some job → job.state = JobState.done.toU8 →
    0 ≤ job.timeEnd ∧ job.timeEnd ≤ s.clock

theorem Genesis.dated {s : State} (genesis : Genesis s) : Dated s := by
  refine ⟨genesis.clock, fun key job present => ?_⟩
  simp [genesis.jobs] at present

/-- An instruction that leaves every done job as it was, or ends one now. -/
theorem Dated.step {s s' : State} (dated : Dated s) (clock : s'.clock = s.clock)
    (jobs : ∀ key job, s'.jobs.lookup key = some job → job.state = JobState.done.toU8 →
      job.timeEnd = s.clock ∨ ∃ old, s.jobs.lookup key = some old ∧
        old.state = JobState.done.toU8 ∧ job.timeEnd = old.timeEnd) : Dated s' := by
  refine ⟨clock ▸ dated.clock, fun key job present done => ?_⟩
  rw [clock]
  rcases jobs key job present done with now | ⟨old, before, was, same⟩
  · rw [now]
    exact ⟨dated.clock.1, le_refl _⟩
  · rw [same]
    exact dated.ended key old before was

/-- One job account written. -/
theorem Dated.insert {s s' : State} (dated : Dated s) {key : Pubkey} {next : JobAccount}
    (clock : s'.clock = s.clock) (jobs : s'.jobs = s.jobs.insert key next)
    (ends : next.state = JobState.done.toU8 → next.timeEnd = s.clock ∨
      ∃ old, s.jobs.lookup key = some old ∧ old.state = JobState.done.toU8 ∧
        next.timeEnd = old.timeEnd) : Dated s' := by
  apply dated.step clock
  intro other job present done
  rw [jobs] at present
  rcases Finmap.lookup_insert_eq_some present with ⟨rfl, rfl⟩ | ⟨-, before⟩
  · exact ends done
  · exact Or.inr ⟨job, before, done, rfl⟩

theorem Dated.erase {s s' : State} (dated : Dated s) {key : Pubkey}
    (clock : s'.clock = s.clock) (jobs : s'.jobs = s.jobs.erase key) : Dated s' := by
  apply dated.step clock
  intro other job present done
  rw [jobs] at present
  exact Or.inr ⟨job, (Finmap.lookup_erase_eq_some present).2, done, rfl⟩

theorem Dated.same {s s' : State} (dated : Dated s) (clock : s'.clock = s.clock)
    (jobs : s'.jobs = s.jobs) : Dated s' := by
  apply dated.step clock
  intro key job present done
  exact Or.inr ⟨job, jobs ▸ present, done, rfl⟩

/-- A job that was just created is not done. -/
theorem Posted.undone {s : State} {key marketKey : Pubkey} {market : MarketAccount}
    {job : JobAccount} {user vault rewardsVault payer : Pubkey} {tokens : Tokens}
    (posted : Posted s key marketKey market job user vault rewardsVault payer tokens) :
    job.state ≠ JobState.done.toU8 := by
  obtain ⟨ipfsJob, project, timeout, created⟩ := posted.created
  have queuedDone : JobState.queued.toU8 ≠ JobState.done.toU8 := by decide
  rw [created]
  exact queuedDone

variable [Runtime]

theorem dated_step {s s' : State} {action : Action} (dated : Dated s)
    (success : step s action = .ok s') : Dated s' := by
  cases step_effect success with
  | closeMarket closing markets jobs =>
      rcases closing with rfl | rfl
      · exact dated.same (process_clock (show process s (.close _) = .ok s' from success)) jobs
      · exact dated.same (process_clock (show process s (.closeAdmin _) = .ok s' from success)) jobs
  | listQueued posted | listStranded posted | listMatched posted | assign posted =>
      exact dated.insert rfl rfl fun done => absurd done posted.undone
  | extend present placed opened vaulted associated queued =>
      refine dated.insert rfl rfl fun done => ?_
      have queuedDone : JobState.queued.toU8 ≠ JobState.done.toU8 := by decide
      exact absurd (queued.symm.trans done) queuedDone
  | endJob | finish =>
      exact dated.insert rfl rfl fun _ => Or.inl rfl
  | complete present done =>
      exact dated.insert rfl rfl fun _ => Or.inr ⟨_, present, done, rfl⟩
  | quit =>
      refine dated.insert rfl rfl fun done => ?_
      have stoppedDone : JobState.stopped.toU8 ≠ JobState.done.toU8 := by decide
      exact absurd done stoppedDone
  | delist | recover | clean | cleanAdmin => exact dated.erase rfl rfl
  | tick later fits =>
      refine ⟨⟨le_trans dated.clock.1 later, fits⟩, fun key job present done => ?_⟩
      have ⟨positive, past⟩ := dated.ended key job present done
      exact ⟨positive, le_trans past later⟩
  | _ => exact dated.same rfl rfl

theorem run_dated {s : State} (genesis : Genesis s) (actions : List Action) :
    Dated (run s actions) :=
  Machine.run_invariant genesis.dated (fun _ _ _ dated success => dated_step dated success) actions

omit [Runtime] in
/-- When a job account can be cleaned. -/
theorem clean_eq_ok {s s' : State} {a : Accounts.Clean} :
    clean s a = .ok s' ↔ ∃ job market, s.jobs.lookup a.job = some job ∧
      s.markets.lookup a.market = some market ∧ job.payer = a.payer ∧
      job.state = JobState.done.toU8 ∧ Signed 64 (s.clock - job.timeEnd) ∧
      market.jobExpiration < s.clock - job.timeEnd ∧
      s' = { s with jobs := s.jobs.erase a.job } := by
  simp only [clean, bind_eq_ok, loadJob_eq_ok, loadMarket_eq_ok, require_eq_ok, pure_eq_ok,
    subSigned, checked_eq_ok, exists_const]
  constructor
  · rintro ⟨job, present, market, opened, payer, done, age, ⟨fits, rfl⟩, expired, rfl⟩
    exact ⟨job, market, present, opened, payer, done, fits, expired, rfl⟩
  · rintro ⟨job, market, present, opened, payer, done, fits, expired, rfl⟩
    exact ⟨job, present, market, opened, payer, done, _, ⟨fits, rfl⟩, expired, rfl⟩

/-- Whatever markets there are and whichever one the caller passes, a job account stays
readable until the expiration of its own market, at every clock value to come, exactly when
the market that is passed does not undercut it. -/
theorem clean_keeps_readable_iff {s : State} (genesis : Genesis s) (actions : List Action)
    (a : Accounts.Clean) :
    (∀ now, (run s actions).clock ≤ now → Signed 64 now →
      KeepsReadable { run s actions with clock := now } a) ↔ ¬ a.Undercuts (run s actions) := by
  have dated := run_dated genesis actions
  constructor
  · rintro readable ⟨job, market, own, present, payer, done, opened, home, shorter, ahead, early⟩
    -- the first clock value at which the passed market lets the account go
    let now := max (run s actions).clock (job.timeEnd + market.jobExpiration + 1)
    obtain ⟨positive, past⟩ := dated.ended a.job job present done
    obtain ⟨_, _, bound⟩ := dated.clock
    have reached : (run s actions).clock ≤ now := le_max_left _ _
    have elapsed : job.timeEnd + market.jobExpiration + 1 ≤ now := le_max_right _ _
    have inside : now ≤ job.timeEnd + own.jobExpiration := max_le ahead (by omega)
    have last : now < 2 ^ 63 := max_lt bound (by omega)
    have fits : Signed 64 now := ⟨by omega, last⟩
    have cleaned : process { run s actions with clock := now } (.clean a) =
        .ok { run s actions with clock := now, jobs := (run s actions).jobs.erase a.job } :=
      clean_eq_ok.mpr ⟨job, market, present, opened, payer, done,
        fits.sub (by omega) positive, by dsimp only; omega, rfl⟩
    obtain ⟨found, same, -, expired⟩ := readable now reached fits _ cleaned
    cases present.symm.trans same
    have gone := expired own home
    dsimp only at gone
    omega
  · intro never now later fits s' success
    obtain ⟨job, market, present, opened, payer, done, _, expired, -⟩ := clean_eq_ok.mp success
    refine ⟨job, present, done, fun own home => ?_⟩
    by_contra ahead
    obtain ⟨_, bound⟩ := fits
    dsimp only at expired ahead
    exact never ⟨job, market, own, present, payer, done, opened, home, by omega, by omega, by omega⟩

namespace Sample

/-- The job's own market keeps results for a minute; a stranger opens one that does not. -/
def cheapMarket : Pubkey := .address 40

def openPatientMarket : Action :=
  .instruction (.openMarket ⟨id.nosToken, market, vault, admin, id.systemProgram⟩ 60 2 60 0 0)

def openCheapMarket : Action :=
  .instruction (.openMarket ⟨id.nosToken, cheapMarket, .jobsVault cheapMarket id.nosToken,
    .address 41, id.systemProgram⟩ (-1) 2 60 0 0)

def finished : List Action :=
  [openPatientMarket, list job firstRun 30, work firstRun node, finish job firstRun]

def cleaning (market : Pubkey) : Accounts.Clean := ⟨job, market, project⟩

end Sample

omit [Runtime] in
theorem clean_keeps_readable_iff_sample :
    (∀ now, (Sample.run Sample.finished).clock ≤ now → Signed 64 now →
      @KeepsReadable Sample.runtime { Sample.run Sample.finished with clock := now }
        (Sample.cleaning Sample.market)) ↔
    ¬ (Sample.cleaning Sample.market).Undercuts (Sample.run Sample.finished) :=
  @clean_keeps_readable_iff Sample.runtime _ Sample.genesis Sample.finished
    (Sample.cleaning Sample.market)

omit [Runtime] in
/-- In the very moment a job ends, anyone can clean it with a market of their own. -/
theorem stranger_cleans_job_early :
    ¬ @KeepsReadable Sample.runtime (Sample.run (Sample.finished ++ [Sample.openCheapMarket]))
      (Sample.cleaning Sample.cheapMarket) := by
  intro readable
  have succeeds : failure (@process Sample.runtime
      (Sample.run (Sample.finished ++ [Sample.openCheapMarket]))
      (.clean (Sample.cleaning Sample.cheapMarket))) = none := by
    decide +kernel
  have ended : ((Sample.run (Sample.finished ++ [Sample.openCheapMarket])).jobs.lookup
      Sample.job).map (fun job => (job.market, job.timeEnd)) = some (Sample.market, 100) := by
    decide +kernel
  have kept : ((Sample.run (Sample.finished ++ [Sample.openCheapMarket])).markets.lookup
      Sample.market).map MarketAccount.jobExpiration = some 60 := by
    decide +kernel
  have now : (Sample.run (Sample.finished ++ [Sample.openCheapMarket])).clock = 100 := by
    decide +kernel
  obtain ⟨after, outcome⟩ := failure_eq_none.mp succeeds
  obtain ⟨job, present, -, expired⟩ := readable after outcome
  obtain ⟨found, inside, same⟩ := Option.map_eq_some_iff.mp ended
  obtain ⟨market, opened, expiration⟩ := Option.map_eq_some_iff.mp kept
  obtain ⟨home, time⟩ := Prod.mk.inj same
  cases inside.symm.trans present
  have gone := expired market (home ▸ opened)
  rw [expiration, now, time] at gone
  omega

end Nosana.Jobs
