import Nosana.JobsEffects

set_option autoImplicit false

/- The result of a job is written once, whoever acts on the job. -/
namespace Nosana.Jobs

open Checked

/-- The instruction posts this result of the job: as the node of one of its runs, or as the node
the job was done by. -/
def Action.Posts (s : State) (key : Pubkey) (ipfsResult : IpfsHash) : Action → Prop
  | .instruction (.finish a posted) => a.job = key ∧ posted = ipfsResult ∧
      ∃ run, s.runs.lookup a.run = some run ∧ run.job = key ∧ run.node = a.authority
  | .instruction (.complete a posted) => a.job = key ∧ posted = ipfsResult ∧
      ∃ job, s.jobs.lookup key = some job ∧ job.node = a.authority
  | _ => False

/-- A live job account keeps its result, or the first one is posted. -/
def KeepsResult (event : Event) (key : Pubkey) : Prop :=
  ∀ job next, event.before.jobs.lookup key = some job → event.after.jobs.lookup key = some next →
    next.ipfsResult = job.ipfsResult ∨
      (job.ipfsResult = JobAccount.nullResult ∧ next.ipfsResult ≠ JobAccount.nullResult ∧
        event.action.Posts event.before key next.ipfsResult)

/-- How often the result changed since the job account at an address was created. -/
def nextWrites (key : Pubkey) (writes : Nat) (event : Event) : Nat :=
  match event.before.jobs.lookup key, event.after.jobs.lookup key with
  | some job, some next => if next.ipfsResult = job.ipfsResult then writes else writes + 1
  | _, _ => 0

def resultWrites (key : Pubkey) (history : List Event) : Nat :=
  history.foldl (nextWrites key) 0

theorem resultWrites_concat (key : Pubkey) (past : List Event) (event : Event) :
    resultWrites key (past ++ [event]) = nextWrites key (resultWrites key past) event := by
  simp only [resultWrites, List.foldl_append, List.foldl_cons, List.foldl_nil]

/-- What one event does to the result of the job account at an address. -/
inductive ResultTurn (event : Event) (key : Pubkey) : Prop
  | absent (after : event.after.jobs.lookup key = none)
  | created {next : JobAccount} (before : event.before.jobs.lookup key = none)
      (after : event.after.jobs.lookup key = some next)
      (unset : next.ipfsResult = JobAccount.nullResult)
  | kept {job next : JobAccount} (before : event.before.jobs.lookup key = some job)
      (after : event.after.jobs.lookup key = some next)
      (same : next.ipfsResult = job.ipfsResult)
      (queued : next.state = JobState.queued.toU8 → job.state = JobState.queued.toU8)
  | posted {job next : JobAccount} (before : event.before.jobs.lookup key = some job)
      (after : event.after.jobs.lookup key = some next)
      (unset : job.ipfsResult = JobAccount.nullResult)
      (set : next.ipfsResult ≠ JobAccount.nullResult)
      (posts : event.action.Posts event.before key next.ipfsResult)
      (done : next.state = JobState.done.toU8)

/-- A job waits or runs without a result. -/
def Unposted (s : State) : Prop :=
  ∀ key job, s.jobs.lookup key = some job → job.state = JobState.queued.toU8 →
    job.ipfsResult = JobAccount.nullResult

/-- The books of one job account: no result was written, or one was. -/
def Written (past : List Event) (s : State) (key : Pubkey) : Prop :=
  match s.jobs.lookup key with
  | some job => resultWrites key past = if job.ipfsResult = JobAccount.nullResult then 0 else 1
  | none => resultWrites key past = 0

theorem Written.le_one {past : List Event} {s : State} {key : Pubkey}
    (written : Written past s key) : resultWrites key past ≤ 1 := by
  unfold Written at written
  split at written
  · rw [written]
    split <;> omega
  · omega

theorem resultTurn_of_same {event : Event} {key : Pubkey}
    (same : event.after.jobs.lookup key = event.before.jobs.lookup key) :
    ResultTurn event key := by
  cases before : event.before.jobs.lookup key with
  | none => exact .absent (same.trans before)
  | some job => exact .kept before (same.trans before) rfl id

theorem resultTurn_of_insert {event : Event} {key other : Pubkey} {next : JobAccount}
    (jobs : event.after.jobs = event.before.jobs.insert other next)
    (turn : event.after.jobs.lookup other = some next → ResultTurn event other) :
    ResultTurn event key := by
  by_cases same : key = other
  · subst same
    exact turn (by rw [jobs, Finmap.lookup_insert])
  · exact resultTurn_of_same (by rw [jobs, Finmap.lookup_insert_of_ne _ same])

theorem resultTurn_of_erase {event : Event} {key other : Pubkey}
    (jobs : event.after.jobs = event.before.jobs.erase other) : ResultTurn event key := by
  by_cases same : key = other
  · subst same
    exact .absent (by rw [jobs, Finmap.lookup_erase])
  · exact resultTurn_of_same (by rw [jobs, Finmap.lookup_erase_ne same])

theorem Posted.resultTurn {event : Event} {key other marketKey : Pubkey} {market : MarketAccount}
    {job : JobAccount} {user vault rewardsVault payer : Pubkey} {tokens : Tokens}
    (posted : Posted event.before other marketKey market job user vault rewardsVault payer tokens)
    (jobs : event.after.jobs = event.before.jobs.insert other job) : ResultTurn event key := by
  refine resultTurn_of_insert jobs fun after => ?_
  obtain ⟨ipfsJob, project, timeout, rfl⟩ := posted.created
  exact .created (Finmap.lookup_eq_none.mpr posted.fresh.2.2.1) after rfl

theorem Unposted.turn {event : Event} (turn : ∀ key, ResultTurn event key)
    (unposted : Unposted event.before) : Unposted event.after := by
  have doneQueued : JobState.done.toU8 ≠ JobState.queued.toU8 := by decide
  intro key next present queued
  cases turn key with
  | absent after => cases after.symm.trans present
  | created before after unset =>
      cases after.symm.trans present
      exact unset
  | kept before after same was =>
      cases after.symm.trans present
      rw [same]
      exact unposted key _ before (was queued)
  | posted before after unset set posts done =>
      cases after.symm.trans present
      exact absurd (done.symm.trans queued) doneQueued

theorem ResultTurn.keepsResult {event : Event} {key : Pubkey} (turn : ResultTurn event key) :
    KeepsResult event key := by
  intro job next before after
  cases turn with
  | absent gone => cases gone.symm.trans after
  | created fresh => cases fresh.symm.trans before
  | kept first second same =>
      cases first.symm.trans before
      cases second.symm.trans after
      exact Or.inl same
  | posted first second unset set posts =>
      cases first.symm.trans before
      cases second.symm.trans after
      exact Or.inr ⟨unset, set, posts⟩

theorem Written.turn {past : List Event} {event : Event} {key : Pubkey}
    (turn : ResultTurn event key) (written : Written past event.before key) :
    Written (past ++ [event]) event.after key := by
  unfold Written at *
  rw [resultWrites_concat, nextWrites]
  cases turn with
  | absent after => simp [after]
  | created before after unset => simp [before, after, unset]
  | kept before after same =>
      simp only [before] at written
      simp only [before, after, same, if_true]
      exact written
  | posted before after unset set =>
      simp only [before, unset, if_true] at written
      simp [before, after, unset, set, written]

variable [Runtime]

theorem step_resultTurn {s s' : State} {action : Action} (unposted : Unposted s)
    (success : step s action = .ok s') (key : Pubkey) : ResultTurn ⟨s, action, s'⟩ key := by
  have stoppedQueued : JobState.stopped.toU8 ≠ JobState.queued.toU8 := by decide
  have doneQueued : JobState.done.toU8 ≠ JobState.queued.toU8 := by decide
  cases step_effect success with
  | closeMarket closing markets jobs =>
      exact resultTurn_of_same (by rw [jobs])
  | listQueued posted | listStranded posted | listMatched posted | assign posted =>
      exact posted.resultTurn rfl
  | extend present =>
      exact resultTurn_of_insert rfl fun after => .kept present after rfl id
  | endJob running =>
      refine resultTurn_of_insert rfl fun after => .kept running.present after rfl fun queued => ?_
      exact absurd queued doneQueued
  | @finish a ipfsResult market job run tokens running queued =>
      -- the result is overwritten unread; it is still empty as the job is still queued
      obtain ⟨set, signer, live, started, signed⟩ :=
        finish_signed (show finish s a ipfsResult = .ok _ from success)
      have unset := unposted a.job job running.present queued
      exact resultTurn_of_insert rfl fun after => .posted running.present after unset set
        ⟨rfl, rfl, signer, live, started, signed⟩ rfl
  | @complete a ipfsResult job present done =>
      obtain ⟨set, found, inside, signed, unset⟩ :=
        complete_signed (show complete s a ipfsResult = .ok _ from success)
      cases present.symm.trans inside
      exact resultTurn_of_insert rfl fun after => .posted present after unset set
        ⟨rfl, rfl, job, present, signed⟩ done
  | quit present =>
      refine resultTurn_of_insert rfl fun after => .kept present after rfl fun queued => ?_
      exact absurd queued stoppedQueued
  | delist | recover | clean | cleanAdmin => exact resultTurn_of_erase rfl
  | _ => exact resultTurn_of_same rfl

theorem unposted_step {s s' : State} {action : Action} (unposted : Unposted s)
    (success : step s action = .ok s') : Unposted s' :=
  @Unposted.turn ⟨s, action, s'⟩ (step_resultTurn unposted success) unposted

omit [Runtime] in
theorem Genesis.unposted {s : State} (genesis : Genesis s) : Unposted s := by
  intro key job present
  simp [genesis.jobs] at present

theorem run_written {s : State} (genesis : Genesis s) (actions : List Action) (key : Pubkey) :
    Written (trace s actions) (run s actions) key := by
  refine (Machine.run_induction (P := fun past state => Unposted state ∧ Written past state key)
    ⟨genesis.unposted, ?_⟩ ?_ actions).2
  · simp [Written, genesis.jobs, resultWrites]
  · intro past state action after holds success
    have ⟨unposted, written⟩ := holds
    exact ⟨unposted_step unposted success, written.turn (step_resultTurn unposted success key)⟩

/-- Over every run, admin instructions included, a job has no result while it is queued; its
result changes at most once in the life of the job account, when the node of one of its runs
finishes it or the node it was done by completes it, and stays from then on. -/
theorem job_result_written_once {s : State} (genesis : Genesis s) (actions : List Action) :
    (∀ state ∈ reached s actions, Unposted state) ∧
    (∀ event ∈ trace s actions, ∀ key, KeepsResult event key) ∧
    ∀ past, past <+: trace s actions → ∀ key, resultWrites key past ≤ 1 := by
  refine ⟨?_, fun event member key => ?_, fun past inside key => ?_⟩
  · exact Machine.reached_invariant genesis.unposted
      (fun _ _ _ unposted success => unposted_step unposted success) actions
  · have ⟨unposted, _⟩ := Machine.trace_invariant genesis.unposted
      (fun _ _ _ unposted success => unposted_step unposted success) actions event member
    exact (step_resultTurn unposted (Machine.mem_trace_step member) key).keepsResult
  · obtain ⟨front, same⟩ := Machine.exists_of_prefix inside
    rw [← same]
    exact (run_written genesis front key).le_one

omit [Runtime] in
theorem job_result_written_once_sample :
    (∀ state ∈ Sample.reached (Sample.matching ++ [Sample.finish Sample.job Sample.firstRun]),
      Unposted state) ∧
    (∀ event ∈ Sample.trace (Sample.matching ++ [Sample.finish Sample.job Sample.firstRun]),
      ∀ key, KeepsResult event key) ∧
    ∀ past,
      past <+: Sample.trace (Sample.matching ++ [Sample.finish Sample.job Sample.firstRun]) →
      ∀ key, resultWrites key past ≤ 1 :=
  @job_result_written_once Sample.runtime _ Sample.genesis _

end Nosana.Jobs
