import Nosana.JobsLifecycle

set_option autoImplicit false

/- When a job is settled at most once. Only `end` and `quit` do not look at the state of
the job they end. -/
namespace Nosana.Jobs

open Checked

/-- A job that is done or stopped stays so until its account is closed. -/
def Sticky (event : Event) : Prop :=
  ∀ key job next, event.before.jobs.lookup key = some job →
    (job.state = JobState.done.toU8 ∨ job.state = JobState.stopped.toU8) →
    event.after.jobs.lookup key = some next → next.state = job.state

/-- Along a history no job leaves its final state, and every job account is settled at
most once from its creation on. -/
def SettledOnce (history : List Event) : Prop :=
  (∀ event ∈ history, Sticky event) ∧
    ∀ past, past <+: history → ∀ key, (Record.ofHistory key past).settlements ≤ 1

/-- A job is ended or quit a second time: it is quit when it is done, or it is ended
when it is stopped, or when it is done and paid. -/
def Action.Resettles (s : State) : Action → Prop
  | .instruction (.quit a) => ∃ job ∈ s.jobs.lookup a.job, job.state = JobState.done.toU8
  | .instruction (.endJob a) => ∃ job ∈ s.jobs.lookup a.job,
      job.state = JobState.stopped.toU8 ∨
        (job.state = JobState.done.toU8 ∧ 0 < job.cost job.timeout)
  | _ => False

instance (s : State) (action : Action) : Decidable (action.Resettles s) := by
  unfold Action.Resettles
  split <;> infer_instance

theorem SettledOnce.concat {past : List Event} {event : Event} :
    SettledOnce (past ++ [event]) ↔ SettledOnce past ∧ Sticky event ∧
      ∀ key, (Record.next key (Record.ofHistory key past) event).settlements ≤ 1 := by
  simp only [SettledOnce, List.prefix_concat_iff, List.mem_append, List.mem_singleton]
  constructor
  · rintro ⟨sticky, once⟩
    refine ⟨⟨fun other member => sticky other (Or.inl member),
      fun before inside => once before (Or.inr inside)⟩, sticky event (Or.inr rfl), fun key => ?_⟩
    rw [← Record.ofHistory_concat]
    exact once _ (Or.inl rfl) key
  · rintro ⟨⟨sticky, once⟩, now, last⟩
    refine ⟨fun other member => ?_, fun before inside key => ?_⟩
    · rcases member with earlier | rfl
      · exact sticky other earlier
      · exact now
    · rcases inside with rfl | inside
      · rw [Record.ofHistory_concat]
        exact last key
      · exact once before inside key

/-- A paid job that is done has been settled. -/
def DoneSettled (past : List Event) (s : State) : Prop :=
  ∀ key job, s.jobs.lookup key = some job → job.state = JobState.done.toU8 →
    0 < job.cost job.timeout → 1 ≤ (Record.ofHistory key past).settlements

/-- A job that is not done has not been settled. -/
def OpenUnsettled (past : List Event) (s : State) : Prop :=
  ∀ key job, s.jobs.lookup key = some job → job.state ≠ JobState.done.toU8 →
    (Record.ofHistory key past).settlements = 0

theorem DoneSettled.next {past : List Event} {event : Event}
    (turn : ∀ key, Turn key event) (settled : DoneSettled past event.before) :
    DoneSettled (past ++ [event]) event.after := by
  have queued : JobState.queued.toU8 ≠ JobState.done.toU8 := by decide
  have stopped : JobState.stopped.toU8 ≠ JobState.done.toU8 := by decide
  intro key next present done paid
  rw [Record.ofHistory_concat]
  cases turn key with
  | other same record =>
      rw [record]
      exact settled key next (same ▸ present) done paid
  | created absent after state record =>
      cases after.symm.trans present
      exact absurd (state.symm.trans done) queued
  | extended before after state record =>
      cases after.symm.trans present
      exact absurd (state.symm.trans done) queued
  | completed before after record =>
      cases after.symm.trans present
      rw [record]
      exact settled key _ before done paid
  | @ended job _ before after _ price timeout record =>
      cases after.symm.trans present
      have same : job.cost job.timeout = next.cost next.timeout := by
        rw [JobAccount.cost, JobAccount.cost, price, timeout]
      rw [record, same, if_pos paid]
      exact Nat.le_add_left 1 _
  | quit before after =>
      cases after.symm.trans present
      exact absurd done stopped
  | closed before after =>
      cases after.symm.trans present

namespace Action

theorem resettles_of_ends {s : State} {action : Action} {key : Pubkey} {job : JobAccount}
    (ends : action.ends key = true) (present : s.jobs.lookup key = some job)
    (ended : job.state = JobState.stopped.toU8 ∨
      (job.state = JobState.done.toU8 ∧ 0 < job.cost job.timeout)) : action.Resettles s := by
  unfold Action.ends at ends
  split at ends
  · rw [← eq_of_beq ends] at present
    exact ⟨job, present, ended⟩
  · cases ends

theorem resettles_of_quits {s : State} {action : Action} {key : Pubkey} {job : JobAccount}
    (quits : action.quits key = true) (present : s.jobs.lookup key = some job)
    (done : job.state = JobState.done.toU8) : action.Resettles s := by
  unfold Action.quits at quits
  split at quits
  · rw [← eq_of_beq quits] at present
    exact ⟨job, present, done⟩
  · cases quits

end Action

/-- What a step does to one job when it ends and quits no job a second time. -/
theorem SettledOnce.turn {past : List Event} {event : Event} {key : Pubkey}
    (turn : Turn key event) (first : ¬ event.action.Resettles event.before)
    (unsettled : ∀ job, event.before.jobs.lookup key = some job →
      job.state ≠ JobState.done.toU8 → (Record.ofHistory key past).settlements = 0)
    (once : (Record.ofHistory key past).settlements ≤ 1) :
    (∀ job next, event.before.jobs.lookup key = some job →
      (job.state = JobState.done.toU8 ∨ job.state = JobState.stopped.toU8) →
      event.after.jobs.lookup key = some next → next.state = job.state) ∧
    (Record.next key (Record.ofHistory key past) event).settlements ≤ 1 ∧
    ∀ job, event.after.jobs.lookup key = some job → job.state ≠ JobState.done.toU8 →
      (Record.next key (Record.ofHistory key past) event).settlements = 0 := by
  have queuedDone : JobState.queued.toU8 ≠ JobState.done.toU8 := by decide
  have queuedStopped : JobState.queued.toU8 ≠ JobState.stopped.toU8 := by decide
  have stoppedDone : JobState.stopped.toU8 ≠ JobState.done.toU8 := by decide
  cases turn with
  | other same record =>
      rw [record, same]
      refine ⟨fun job next present _ after => ?_, once, unsettled⟩
      cases present.symm.trans after
      rfl
  | created absent present queued record =>
      rw [record]
      refine ⟨fun job next before => ?_, Nat.zero_le 1, fun _ _ _ => rfl⟩
      rw [absent] at before
      cases before
  | extended present after queued record =>
      rw [record]
      refine ⟨fun job next before ended => ?_, once, fun job inside undone => ?_⟩
      · cases present.symm.trans before
        rcases ended with done | stopped
        · exact absurd (queued.symm.trans done) queuedDone
        · exact absurd (queued.symm.trans stopped) queuedStopped
      · cases after.symm.trans inside
        exact unsettled _ present undone
  | completed present after record =>
      rw [record]
      refine ⟨fun job next before _ inside => ?_, once, fun job inside undone => ?_⟩
      · cases present.symm.trans before
        cases after.symm.trans inside
        rfl
      · cases after.symm.trans inside
        exact unsettled _ present undone
  | @ended job next present after done price timeout record live =>
      refine ⟨fun found ended before was inside => ?_, ?_, fun found inside undone => ?_⟩
      · cases present.symm.trans before
        cases after.symm.trans inside
        rcases was with finished | stopped
        · exact done.trans finished.symm
        · rcases live with queued | ends
          · exact absurd (queued.symm.trans stopped) queuedStopped
          · exact absurd (Action.resettles_of_ends ends present (Or.inl stopped)) first
      · rw [record]
        split
        · rename_i paid
          have undone : job.state ≠ JobState.done.toU8 := by
            intro finished
            rcases live with queued | ends
            · exact queuedDone (queued.symm.trans finished)
            · exact first (Action.resettles_of_ends ends present (Or.inr ⟨finished, paid⟩))
          have none := unsettled job present undone
          simp only [none]
          omega
        · exact once
      · cases after.symm.trans inside
        exact absurd done undone
  | @quit job present after record quits =>
      have undone : job.state ≠ JobState.done.toU8 := fun done =>
        first (Action.resettles_of_quits quits present done)
      rw [record]
      refine ⟨fun found next before was inside => ?_, once, fun found inside _ => ?_⟩
      · cases present.symm.trans before
        cases after.symm.trans inside
        rcases was with done | stopped
        · exact absurd done undone
        · exact stopped.symm
      · exact unsettled job present undone
  | @closed job present after record =>
      refine ⟨fun found next before _ inside => ?_, ?_, fun found inside => ?_⟩
      · cases after.symm.trans inside
      · rcases record (Record.ofHistory key past) with same | ⟨undone, more⟩
        · rw [same]
          exact once
        · have none := unsettled job present undone
          rw [more]
          simp only [none]
          omega
      · cases after.symm.trans inside

variable [Runtime]

/-- An event that ends or quits a job a second time breaks what a history promises. -/
theorem resettles_breaks {past : List Event} {s s' : State} {action : Action} (sound : Sound s)
    (settled : DoneSettled past s) (success : step s action = .ok s')
    (again : action.Resettles s) : ¬ SettledOnce (past ++ [⟨s, action, s'⟩]) := by
  intro once
  have stoppedDone : JobState.stopped.toU8 ≠ JobState.done.toU8 := by decide
  obtain ⟨-, sticky, bounded⟩ := SettledOnce.concat.mp once
  cases step_effect success with
  | @quit a job run present live started =>
      obtain ⟨found, before, done⟩ := again
      cases present.symm.trans before
      have kept := sticky a.job job job.quit present (Or.inl done) (Finmap.lookup_insert _)
      exact stoppedDone (kept.trans done)
  | @endJob a account job run tokens running apart associated settle =>
      obtain ⟨found, before, ended⟩ := again
      cases running.present.symm.trans before
      rcases ended with stopped | ⟨done, paid⟩
      · have kept := sticky a.job job _ running.present (Or.inr stopped) (Finmap.lookup_insert _)
        exact stoppedDone (kept.trans stopped).symm
      · rw [running.vault sound] at apart settle
        have moved := settle_paidOut settle apart (associated.imp_right And.left)
        change PaidOut s.tokens tokens a.market (job.cost job.timeout) at moved
        have counted : ((Record.ofHistory a.job past).settle ⟨s, .instruction (.endJob a),
            { s with
              jobs := s.jobs.insert a.job (job.endJob run.time s.clock run.node)
              runs := s.runs.erase a.run
              tokens := tokens }⟩ a.vault).settlements ≤ 1 := by
          simpa only [Record.next, if_true] using bounded a.job
        have before := settled a.job job running.present done paid
        rw [Running.settles running sound moved, if_pos paid] at counted
        dsimp only at counted
        omega
  | closeMarket closing =>
      rcases closing with rfl | rfl <;> exact again.elim
  | _ => exact again.elim

/-- Whatever admins do short of closing markets, jobs stay settled and are settled at most
once exactly when no job is ended or quit a second time. -/
theorem settled_once_iff_no_job_resettled {s : State} (genesis : Genesis s)
    (actions : List Action)
    (stays : ∀ event ∈ trace s actions, event.action.closesMarket = false) :
    SettledOnce (trace s actions) ↔
      ∀ event ∈ trace s actions, ¬ event.action.Resettles event.before := by
  constructor
  · have run := Machine.guarded_induction
      (P := fun past s => Sound s ∧ DoneSettled past s ∧
        (SettledOnce past → ∀ event ∈ past, ¬ event.action.Resettles event.before))
      (fun event : Event => event.action.closesMarket = false)
      ⟨genesis.sound, fun key job present => by simp [genesis.jobs] at present, by simp⟩
      ?_ actions stays
    · exact run.2.2
    · intro past state action after holds success _ kept
      have ⟨sound, settled, earlier⟩ := holds
      refine ⟨sound_step sound kept success,
        settled.next fun key => step_turn sound kept success key, fun once event member => ?_⟩
      rcases List.mem_append.mp member with before | last
      · exact earlier (SettledOnce.concat.mp once).1 event before
      · rw [List.mem_singleton] at last
        rw [last]
        exact fun again => resettles_breaks sound settled success again once
  · intro first
    have run := Machine.guarded_induction
      (P := fun past s => Sound s ∧ SettledOnce past ∧ OpenUnsettled past s)
      (fun event : Event => event.action.closesMarket = false ∧
        ¬ event.action.Resettles event.before)
      ⟨genesis.sound, ?_, fun key job present => by simp [genesis.jobs] at present⟩
      ?_ actions fun event member => ⟨stays event member, first event member⟩
    · exact run.2.1
    · refine ⟨by simp, fun past inside key => ?_⟩
      rw [List.prefix_nil.mp inside]
      exact Nat.zero_le 1
    · intro past state action after holds success _ allowed
      have ⟨sound, once, unsettled⟩ := holds
      have ⟨kept, safe⟩ := allowed
      have turn := fun key => SettledOnce.turn (step_turn sound kept success key) safe
        (unsettled key) (once.2 past (List.prefix_refl past) key)
      refine ⟨sound_step sound kept success, ?_, fun key job present undone => ?_⟩
      · exact SettledOnce.concat.mpr ⟨once, fun key job next before => (turn key).1 job next before,
          fun key => (turn key).2.1⟩
      · rw [Record.ofHistory_concat]
        exact (turn key).2.2 job present undone

omit [Runtime] in
theorem settled_once_iff_no_job_resettled_sample :
    SettledOnce (Sample.trace (Sample.matching ++ [Sample.finish Sample.job Sample.firstRun])) ↔
      ∀ event ∈ Sample.trace (Sample.matching ++ [Sample.finish Sample.job Sample.firstRun]),
        ¬ event.action.Resettles event.before :=
  @settled_once_iff_no_job_resettled Sample.runtime _ Sample.genesis _ (by decide +kernel)

/-- An admin closes the account of a job that waits, and the job is listed again. -/
def Sample.relisting : List Action :=
  [openMarket 2 0, list job firstRun 30, cleanAdmin job, list job firstRun 30, work firstRun node,
    work secondRun node, finish job firstRun, endJob job secondRun]

omit [Runtime] in
/-- A job that is listed again while it is still in the queue runs twice and is settled
twice. -/
theorem relisted_job_is_settled_twice :
    (∀ event ∈ Sample.trace Sample.relisting, event.action.closesMarket = false) ∧
    (Record.ofHistory Sample.job (Sample.trace Sample.relisting)).settlements = 2 ∧
    ¬ SettledOnce (Sample.trace Sample.relisting) := by
  have twice : (Record.ofHistory Sample.job (Sample.trace Sample.relisting)).settlements = 2 := by
    decide +kernel
  refine ⟨by decide +kernel, twice, fun once => ?_⟩
  have bounded := once.2 _ (List.prefix_refl _) Sample.job
  omega

end Nosana.Jobs
