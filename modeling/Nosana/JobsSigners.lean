import Nosana.JobsEffects

set_option autoImplicit false

/- Who has to sign what is done to a job. -/
namespace Nosana.Jobs

open Checked

section

variable {s s' : State}

theorem extend_signed {a : Accounts.Extend} {timeout : Int} {job : JobAccount}
    (success : extend s a timeout = .ok s') (present : s.jobs.lookup a.job = some job) :
    job.project = a.authority ∧ (job.price = 0 ∨ job.payer = a.payer) := by
  simp only [extend, bind_eq_ok, loadJob_eq_ok, require_eq_ok, exists_const] at success
  obtain ⟨_, found, -, -, -, project, payer, -⟩ := success
  cases present.symm.trans found
  exact ⟨project, payer⟩

theorem delist_signed {a : Accounts.Delist} {job : JobAccount} (success : delist s a = .ok s')
    (present : s.jobs.lookup a.job = some job) : job.project = a.authority := by
  simp only [delist, delistConstraints, bind_eq_ok, loadJob_eq_ok, require_eq_ok, exists_const,
    pure_eq_ok, Prod.exists, Prod.mk.injEq] at success
  obtain ⟨_, _, ⟨_, found, -, -, -, -, project, -⟩, -⟩ := success
  cases present.symm.trans found
  exact project

theorem recover_signed {a : Accounts.Recover} {job : JobAccount} (success : recover s a = .ok s')
    (present : s.jobs.lookup a.job = some job) : job.project = a.authority := by
  simp only [recover, recoverConstraints, bind_eq_ok, loadJob_eq_ok, require_eq_ok,
    exists_const] at success
  obtain ⟨_, ⟨_, found, -, -, -, -, project, -⟩, -⟩ := success
  cases present.symm.trans found
  exact project

theorem endJob_signed {a : Accounts.End} {job : JobAccount} (success : endJob s a = .ok s')
    (present : s.jobs.lookup a.job = some job) : job.project = a.authority := by
  simp only [endJob, endConstraints, bind_eq_ok, loadJob_eq_ok, require_eq_ok, exists_const,
    pure_eq_ok, Prod.exists, Prod.mk.injEq] at success
  obtain ⟨_, _, ⟨_, found, -, -, -, -, -, project, -⟩, -⟩ := success
  cases present.symm.trans found
  exact project

theorem quit_signed {a : Accounts.Quit} {run : RunAccount} (success : quit s a = .ok s')
    (live : s.runs.lookup a.run = some run) : run.node = a.authority := by
  simp only [quit, bind_eq_ok, loadJob_eq_ok, loadRun_eq_ok, require_eq_ok,
    exists_const] at success
  obtain ⟨-, -, _, found, -, -, signed, -⟩ := success
  cases live.symm.trans found
  exact signed

theorem quitAdmin_signed {a : Accounts.QuitAdmin} (success : quitAdmin s a = .ok s') :
    a.authority = id.marketAdmin ∧ ∃ run, s.runs.lookup a.run = some run := by
  simp only [quitAdmin, bind_eq_ok, loadRun_eq_ok, require_eq_ok, exists_const] at success
  obtain ⟨run, live, -, signed, -⟩ := success
  exact ⟨signed, run, live⟩

variable [Runtime]

theorem list_signed {a : Accounts.List} {ipfsJob : IpfsHash} {timeout : Int} {job : JobAccount}
    (success : list s a ipfsJob timeout = .ok s') (created : s'.jobs.lookup a.job = some job) :
    job.payer = a.payer ∧ job.project = a.authority := by
  simp only [list, bind_eq_ok, pure_eq_ok, Prod.exists] at success
  obtain ⟨market, -, written, queued, placed, tokens, -, _, -, rfl⟩ := success
  have jobs : queued.jobs = s.jobs.insert a.job (JobAccount.zeroed.create ipfsJob a.market a.payer
      market.jobPrice a.authority timeout) := by
    split at placed
    · simp only [bind_eq_ok, Prod.exists, initializeRun_eq_ok, pure_eq_ok, Prod.mk.injEq] at placed
      obtain ⟨_, _, -, _, ⟨-, rfl⟩, -, rfl⟩ := placed
      rfl
    all_goals
      simp only [pure_eq_ok, Prod.mk.injEq] at placed
      rw [← placed.2]
  dsimp only at created
  rw [jobs, Finmap.lookup_insert] at created
  rw [← Option.some.inj created]
  exact ⟨rfl, rfl⟩

theorem assign_signed {a : Accounts.Assign} {ipfsJob : IpfsHash} {timeout : Int} {job : JobAccount}
    (success : assign s a ipfsJob timeout = .ok s') (created : s'.jobs.lookup a.job = some job) :
    job.payer = a.payer ∧ job.project = a.authority := by
  simp only [assign, bind_eq_ok, pure_eq_ok] at success
  obtain ⟨market, -, _, -, tokens, -, rfl⟩ := success
  dsimp only at created
  rw [Finmap.lookup_insert] at created
  rw [← Option.some.inj created]
  exact ⟨rfl, rfl⟩

end

end Nosana.Jobs
