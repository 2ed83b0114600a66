import Nosana.JobsConsistency
import Nosana.JobsContract
import Nosana.JobsResults
import Nosana.JobsSigners
import Nosana.Projection
import Nosana.Spending

set_option autoImplicit false

/- Every job account is a contract: whatever happens to it on the chain is done by those who have
to agree, and by the rules. -/
namespace Nosana.Jobs

open Checked

def RunAccount.shift (run : RunAccount) : Shift := ⟨run.node, run.time⟩

/-- Who works on a job. -/
def shifts (key : Pubkey) (runs : Finmap fun _ : Pubkey => RunAccount) : Multiset Shift :=
  runs.total fun _ run => if run.job = key then {run.shift} else 0

namespace JobAccount

def terms (job : JobAccount) : Terms := ⟨job.ipfsJob, job.market, job.payer, job.price, job.project⟩

def outcome (job : JobAccount) : Outcome :=
  if job.state = JobState.queued.toU8 then .pending
  else if job.state = JobState.stopped.toU8 then .stopped
  else .done ⟨job.node, job.timeStart⟩ job.timeEnd job.ipfsResult

def contract (job : JobAccount) (shifts : Multiset Shift) : Contract :=
  ⟨job.terms, job.timeout, shifts, job.outcome⟩

theorem outcome_of_queued {job : JobAccount} (queued : job.state = JobState.queued.toU8) :
    job.outcome = .pending := if_pos queued

theorem outcome_of_stopped {job : JobAccount} (stopped : job.state = JobState.stopped.toU8) :
    job.outcome = .stopped := by
  simp [outcome, stopped, JobState.toU8]

theorem outcome_of_done {job : JobAccount} (finished : job.state = JobState.done.toU8) :
    job.outcome = .done ⟨job.node, job.timeStart⟩ job.timeEnd job.ipfsResult := by
  simp [outcome, finished, JobState.toU8]

end JobAccount

/-- The contract at an address. -/
def State.contract (key : Pubkey) (s : State) : Option Contract :=
  (s.jobs.lookup key).map fun job => job.contract (shifts key s.runs)

/-- The shift that a run account stands for, when it is one of this job. -/
def State.shift (s : State) (run key : Pubkey) : Option Shift :=
  (s.runs.lookup run).bind fun account => if account.job = key then some account.shift else none

/-- What an instruction does to the contract at an address. -/
def Instruction.deed (key : Pubkey) (event : Event) : Instruction → Option Deed
  | .list a _ _ => if a.job = key then (event.after.contract key).map .post else none
  | .assign a _ _ => if a.job = key then (event.after.contract key).map .post else none
  | .extend a timeout => if a.job = key then some (.extend timeout) else none
  | .delist a => if a.job = key then some .withdraw else none
  | .recover a => if a.job = key then some .withdraw else none
  | .work a =>
    match event.before.shift a.run key with
    | none => (event.after.shift a.run key).map .take
    | some _ => none
  | .endJob a =>
    if a.job = key then
      (event.before.shift a.run key).map fun shift => .endJob shift event.before.clock
    else none
  | .finish a ipfsResult =>
    if a.job = key then
      (event.before.shift a.run key).map fun shift => .finish shift event.before.clock ipfsResult
    else none
  | .complete a ipfsResult => if a.job = key then some (.complete ipfsResult) else none
  | .quit a => if a.job = key then (event.before.shift a.run key).map .quit else none
  | .quitAdmin a => (event.before.shift a.run key).map .relieve
  | .clean a => if a.job = key then some .clean else none
  | _ => none

/-- What happens, as the contract at an address sees it. -/
def contractSeen (key : Pubkey) (event : Event) : Option (Deed × List Pubkey) :=
  match event.action with
  | .instruction ix => (ix.deed key event).map fun deed => (deed, ix.signers)
  | _ => none

theorem contractSeen_signers {key : Pubkey} {event : Event} {deed : Deed} {signers : List Pubkey}
    (seen : contractSeen key event = some (deed, signers)) :
    ∃ ix, event.action = .instruction ix ∧ ix.signers = signers := by
  unfold contractSeen at seen
  split at seen
  · rename_i ix acts
    obtain ⟨_, -, same⟩ := Option.map_eq_some_iff.mp seen
    exact ⟨ix, acts, (Prod.mk.inj same).2⟩
  · cases seen

/-! Shifts -/

section

variable {key runKey : Pubkey} {runs : Finmap fun _ : Pubkey => RunAccount} {run : RunAccount}

theorem shifts_insert (fresh : runKey ∉ runs) :
    shifts key (runs.insert runKey run) =
      (if run.job = key then {run.shift} else 0) + shifts key runs :=
  Finmap.total_insert_fresh _ _ _ _ fresh

theorem shifts_erase (live : runs.lookup runKey = some run) :
    shifts key runs = (if run.job = key then {run.shift} else 0) + shifts key (runs.erase runKey) :=
  Finmap.total_erase _ _ _ _ live

theorem shifts_eq_zero
    (idle : ∀ other account, runs.lookup other = some account → account.job ≠ key) :
    shifts key runs = 0 :=
  Finmap.total_eq_zero _ _ fun other account live => if_neg (idle other account live)

theorem shifts_erase_of_ne (other : run.job ≠ key) (live : runs.lookup runKey = some run) :
    shifts key (runs.erase runKey) = shifts key runs := by
  rw [shifts_erase live, if_neg other, zero_add]

end

section

variable {s : State} {key runKey : Pubkey} {run : RunAccount}

theorem shift_of_live (live : s.runs.lookup runKey = some run) (started : run.job = key) :
    s.shift runKey key = some run.shift := by
  simp only [State.shift, live, Option.bind_some, started, if_true]

theorem shift_of_ne (live : s.runs.lookup runKey = some run) (other : run.job ≠ key) :
    s.shift runKey key = none := by
  simp only [State.shift, live, Option.bind_some, other, if_false]

theorem shift_of_absent (absent : s.runs.lookup runKey = none) : s.shift runKey key = none := by
  simp only [State.shift, absent, Option.bind_none]

theorem contract_of_present {job : JobAccount} (present : s.jobs.lookup key = some job) :
    s.contract key = some (job.contract (shifts key s.runs)) := by
  simp only [State.contract, present, Option.map_some]

theorem contract_of_absent (absent : s.jobs.lookup key = none) : s.contract key = none := by
  simp only [State.contract, absent, Option.map_none]

theorem contract_congr {s' : State} (jobs : s'.jobs.lookup key = s.jobs.lookup key)
    (runs : shifts key s'.runs = shifts key s.runs) : s'.contract key = s.contract key := by
  simp only [State.contract, jobs, runs]

/-- Nobody works on a job that does not exist or has ended. -/
theorem shifts_of_unqueued (consistent : s.board.Consistent)
    (ended : ∀ job, s.jobs.lookup key = some job → job.state ≠ JobState.queued.toU8) :
    shifts key s.runs = 0 := by
  refine shifts_eq_zero fun other account live started => ?_
  obtain ⟨job, present, queued⟩ := (runConsistent consistent live).job
  exact ended job (started ▸ present) queued

/-- Whoever works on a job is the only one. -/
theorem shifts_of_live (consistent : s.board.Consistent) (live : s.runs.lookup runKey = some run)
    (started : run.job = key) :
    shifts key (s.runs.erase runKey) = 0 ∧ shifts key s.runs = {run.shift} := by
  have alone : shifts key (s.runs.erase runKey) = 0 := by
    refine shifts_eq_zero fun other account found same => ?_
    obtain ⟨apart, found⟩ := Finmap.lookup_erase_eq_some found
    exact apart ((runConsistent consistent live).single other account found
      (same.trans started.symm))
  refine ⟨alone, ?_⟩
  rw [shifts_erase live, alone, if_pos started, add_zero]

end

/-! Steps -/

/-- What an event does to the contract at an address is allowed by it. -/
def Obeys (key : Pubkey) (event : Event) : Prop :=
  match contractSeen key event with
  | some deed => Contract.step (event.before.contract key) deed = .ok (event.after.contract key)
  | none => event.after.contract key = event.before.contract key

section

variable {key : Pubkey} {event : Event}

theorem obeys_of_unseen (unseen : contractSeen key event = none)
    (jobs : event.after.jobs.lookup key = event.before.jobs.lookup key)
    (runs : shifts key event.after.runs = shifts key event.before.runs) : Obeys key event := by
  rw [Obeys, unseen]
  exact contract_congr jobs runs

theorem obeys_of_seen {deed : Deed} {signers : List Pubkey}
    (seen : contractSeen key event = some (deed, signers))
    (acted : Contract.step (event.before.contract key) (deed, signers) =
      .ok (event.after.contract key)) : Obeys key event := by
  rw [Obeys, seen]
  exact acted

/-- An event of the job that its instruction names. -/
theorem obeys_of_named {other : Pubkey} {deed : Option Deed} {signers : List Pubkey}
    (seen : contractSeen key event =
      (if other = key then deed else none).map fun deed => (deed, signers))
    (frame : other ≠ key → event.after.jobs.lookup key = event.before.jobs.lookup key ∧
      shifts key event.after.runs = shifts key event.before.runs)
    (acted : ∃ own, deed = some own ∧ Contract.step (event.before.contract other) (own, signers) =
      .ok (event.after.contract other)) : Obeys key event := by
  by_cases same : other = key
  · subst same
    obtain ⟨own, rfl, acted⟩ := acted
    rw [if_pos rfl] at seen
    exact obeys_of_seen seen acted
  · rw [if_neg same] at seen
    have ⟨jobs, runs⟩ := frame same
    exact obeys_of_unseen seen jobs runs

/-- Creating a job account starts a contract, with the node that takes it at once if there is
one. -/
theorem Posted.obeys {other marketKey : Pubkey} {market : MarketAccount} {job : JobAccount}
    {user vault rewardsVault payer : Pubkey} {tokens : Tokens} {signers : List Pubkey}
    (posted : Posted event.before other marketKey market job user vault rewardsVault payer tokens)
    (consistent : event.before.board.Consistent)
    (jobs : event.after.jobs = event.before.jobs.insert other job)
    (runs : event.after.runs = event.before.runs ∨ ∃ runKey run, event.before.Vacant runKey ∧
      run.job = other ∧ event.after.runs = event.before.runs.insert runKey run)
    (seen : contractSeen key event = (if other = key then (event.after.contract key).map .post
      else none).map fun deed => (deed, signers))
    (signed : job.payer ∈ signers ∧ job.project ∈ signers) : Obeys key event := by
  by_cases same : other = key
  · subst same
    have absent := Finmap.lookup_eq_none.mpr posted.fresh.2.2.1
    have present : event.after.jobs.lookup other = some job := by
      rw [jobs, Finmap.lookup_insert]
    have nobody : shifts other event.before.runs = 0 :=
      shifts_of_unqueued consistent fun job found => by
        rw [absent] at found
        cases found
    have few : (shifts other event.after.runs).card ≤ 1 := by
      rcases runs with unchanged | ⟨runKey, run, fresh, started, added⟩
      · rw [unchanged, nobody]
        exact Nat.zero_le 1
      · rw [added, shifts_insert fresh.2.2.2.1, nobody, if_pos started]
        exact le_refl 1
    have pending : job.outcome = .pending :=
      JobAccount.outcome_of_queued (congrArg Ticket.state posted.ticket)
    have created := contract_of_present present
    rw [if_pos rfl, created] at seen
    refine obeys_of_seen seen ?_
    rw [contract_of_absent absent, created]
    simp only [Contract.step, bind_eq_ok, require_eq_ok, pure_eq_ok, exists_const]
    exact ⟨⟨pending, few⟩, signed, trivial⟩
  · rw [if_neg same] at seen
    refine obeys_of_unseen seen (by rw [jobs, Finmap.lookup_insert_of_ne _ (Ne.symm same)]) ?_
    rcases runs with unchanged | ⟨runKey, run, fresh, started, added⟩
    · rw [unchanged]
    · rw [added, shifts_insert fresh.2.2.2.1, if_neg (started ▸ same), zero_add]

end

/-- Nobody wipes job accounts: every queued job is where it belongs and has no result. -/
structure Regular (s : State) : Prop where
  consistent : s.board.Consistent
  unposted : Unposted s

theorem Regular.onShift {s : State} (regular : Regular s) {key runKey : Pubkey} {run : RunAccount}
    (live : s.runs.lookup runKey = some run) (started : run.job = key) {job : JobAccount}
    (present : s.jobs.lookup key = some job) :
    job.state = JobState.queued.toU8 ∧ (job.contract (shifts key s.runs)).OnShift run.shift := by
  obtain ⟨other, found, queued⟩ := (runConsistent regular.consistent live).job
  cases (started ▸ found).symm.trans present
  exact ⟨queued, JobAccount.outcome_of_queued queued,
    (shifts_of_live regular.consistent live started).2⟩

section

variable {s s' : State} {key : Pubkey}

theorem extend_obeys {a : Accounts.Extend} {timeout : Int} {job : JobAccount}
    (success : extend s a timeout = .ok s') (present : s.jobs.lookup a.job = some job)
    (queued : job.state = JobState.queued.toU8) (longer : job.timeout < timeout)
    (jobs : s'.jobs = s.jobs.insert a.job (job.updateTimeout timeout)) (runs : s'.runs = s.runs) :
    Obeys key ⟨s, .instruction (.extend a timeout), s'⟩ := by
  have ⟨project, payer⟩ := extend_signed success present
  refine obeys_of_named rfl (fun other => ?_) ⟨.extend timeout, rfl, ?_⟩
  · dsimp only
    rw [jobs, runs, Finmap.lookup_insert_of_ne _ (Ne.symm other)]
    exact ⟨rfl, rfl⟩
  · dsimp only
    have after : s'.jobs.lookup a.job = some (job.updateTimeout timeout) := by
      rw [jobs, Finmap.lookup_insert]
    rw [contract_of_present present, contract_of_present after, runs]
    simp only [Contract.step, Contract.act, bind_eq_ok, require_eq_ok, pure_eq_ok, exists_const]
    refine ⟨⟨JobAccount.outcome_of_queued queued, longer⟩, ?_, ?_, rfl⟩
    · exact List.mem_cons.mpr (Or.inl project)
    · exact payer.imp_right fun payer => List.mem_cons_of_mem _ (List.mem_singleton.mpr payer)

/-- A job account is closed by its project before anything was done. -/
theorem withdrawn_obeys {ix : Instruction} {other : Pubkey} {job : JobAccount}
    (present : s.jobs.lookup other = some job) (jobs : s'.jobs = s.jobs.erase other)
    (runs : s'.runs = s.runs)
    (seen : contractSeen key ⟨s, .instruction ix, s'⟩ =
      (if other = key then some .withdraw else none).map fun deed => (deed, ix.signers))
    (undone : (job.contract (shifts other s.runs)).Vacant ∨ job.outcome = .stopped)
    (signed : job.project ∈ ix.signers) : Obeys key ⟨s, .instruction ix, s'⟩ := by
  refine obeys_of_named seen (fun other => ?_) ⟨.withdraw, rfl, ?_⟩
  · dsimp only
    rw [jobs, runs, Finmap.lookup_erase_ne (Ne.symm other)]
    exact ⟨rfl, rfl⟩
  · dsimp only
    have after : s'.jobs.lookup other = none := by rw [jobs, Finmap.lookup_erase]
    rw [contract_of_present present, contract_of_absent after]
    simp only [Contract.step, Contract.act, bind_eq_ok, require_eq_ok, pure_eq_ok, exists_const]
    exact ⟨undone, signed, trivial⟩

/-- A run is closed together with a last word on its job. -/
theorem ended_obeys (regular : Regular s) {ix : Instruction} {other runKey : Pubkey}
    {job next : JobAccount} {run : RunAccount} {word : Shift → Deed}
    (present : s.jobs.lookup other = some job) (live : s.runs.lookup runKey = some run)
    (started : run.job = other) (jobs : s'.jobs = s.jobs.insert other next)
    (runs : s'.runs = s.runs.erase runKey)
    (seen : contractSeen key ⟨s, .instruction ix, s'⟩ =
      (if other = key then (s.shift runKey key).map word else none).map fun deed =>
        (deed, ix.signers))
    (terms : next.terms = job.terms ∧ next.timeout = job.timeout)
    (acted : (job.contract (shifts other s.runs)).OnShift run.shift →
      (job.contract (shifts other s.runs)).act ix.signers (word run.shift) =
        .ok (some ⟨job.terms, job.timeout, 0, next.outcome⟩)) :
    Obeys key ⟨s, .instruction ix, s'⟩ := by
  have ⟨alone, _⟩ := shifts_of_live regular.consistent live started
  have working := (regular.onShift live started present).2
  by_cases same : other = key
  · subst same
    rw [if_pos rfl, shift_of_live live started] at seen
    refine obeys_of_seen seen ?_
    have after : s'.jobs.lookup other = some next := by rw [jobs, Finmap.lookup_insert]
    dsimp only
    have rest : next.contract 0 = ⟨job.terms, job.timeout, 0, next.outcome⟩ := by
      rw [← terms.1, ← terms.2]
      rfl
    rw [contract_of_present present, contract_of_present after, runs, alone, rest]
    exact acted working
  · rw [if_neg same] at seen
    refine obeys_of_unseen seen ?_ ?_
    · dsimp only
      rw [jobs, Finmap.lookup_insert_of_ne _ (Ne.symm same)]
    · dsimp only
      rw [runs, shifts_erase_of_ne (started ▸ same) live]

end

section

variable {s s' : State} {key : Pubkey}

/-- The market admin sends a node away. -/
theorem relieved_obeys (regular : Regular s) {ix : Instruction} {runKey : Pubkey} {run : RunAccount}
    (live : s.runs.lookup runKey = some run) (signed : id.marketAdmin ∈ ix.signers)
    (jobs : s'.jobs = s.jobs) (runs : s'.runs = s.runs.erase runKey)
    (seen : contractSeen key ⟨s, .instruction ix, s'⟩ =
      ((s.shift runKey key).map .relieve).map fun deed => (deed, ix.signers)) :
    Obeys key ⟨s, .instruction ix, s'⟩ := by
  by_cases started : run.job = key
  · subst started
    rw [shift_of_live live rfl] at seen
    refine obeys_of_seen seen ?_
    obtain ⟨job, present, queued⟩ := (runConsistent regular.consistent live).job
    have ⟨alone, _⟩ := shifts_of_live regular.consistent live rfl
    have after : s'.jobs.lookup run.job = some job := by rw [jobs, present]
    dsimp only
    rw [contract_of_present present, contract_of_present after, runs, alone]
    simp only [Contract.step, Contract.act, bind_eq_ok, require_eq_ok, pure_eq_ok, exists_const]
    exact ⟨⟨(regular.onShift live rfl present).2, signed⟩, rfl⟩
  · rw [shift_of_ne live started] at seen
    refine obeys_of_unseen seen ?_ ?_
    · dsimp only
      rw [jobs]
    · dsimp only
      rw [runs, shifts_erase_of_ne started live]

/-- Without a new run, nobody takes a job. -/
theorem unseen_work {a : Accounts.Work} (runs : s'.runs = s.runs) :
    contractSeen key ⟨s, .instruction (.work a), s'⟩ = none := by
  have same : s'.shift a.run key = s.shift a.run key := by simp only [State.shift, runs]
  simp only [contractSeen, Instruction.deed, same]
  split
  · rename_i nobody
    rw [nobody]
    rfl
  · rfl

/-- A node takes a job that waits. -/
theorem taken_obeys {a : Accounts.Work} {waiting : Pubkey} {job : JobAccount} {run : RunAccount}
    (present : s.jobs.lookup waiting = some job) (queued : job.state = JobState.queued.toU8)
    (idle : ∀ other account, s.runs.lookup other = some account → account.job ≠ waiting)
    (fresh : s.Vacant a.run) (started : run.job = waiting) (signed : run.node = a.authority)
    (jobs : s'.jobs = s.jobs) (runs : s'.runs = s.runs.insert a.run run) :
    Obeys key ⟨s, .instruction (.work a), s'⟩ := by
  have absent : s.shift a.run key = none :=
    shift_of_absent (Finmap.lookup_eq_none.mpr fresh.2.2.2.1)
  have live : s'.runs.lookup a.run = some run := by rw [runs, Finmap.lookup_insert]
  by_cases same : waiting = key
  · subst same
    refine @obeys_of_seen _ _ (.take run.shift) [a.payer, a.authority] ?_ ?_
    · simp only [contractSeen, Instruction.deed, absent, shift_of_live live started]
      rfl
    · have after : s'.jobs.lookup waiting = some job := by rw [jobs, present]
      dsimp only
      rw [contract_of_present present, contract_of_present after, runs, shifts_insert fresh.2.2.2.1,
        if_pos started, shifts_eq_zero idle, add_zero]
      simp only [Contract.step, Contract.act, bind_eq_ok, require_eq_ok, pure_eq_ok, exists_const]
      refine ⟨⟨⟨JobAccount.outcome_of_queued queued, rfl⟩, ?_⟩, rfl⟩
      exact List.mem_cons_of_mem _ (List.mem_singleton.mpr signed)
  · refine obeys_of_unseen ?_ ?_ ?_
    · simp only [contractSeen, Instruction.deed, absent, shift_of_ne live (started ▸ same)]
      rfl
    · dsimp only
      rw [jobs]
    · dsimp only
      rw [runs, shifts_insert fresh.2.2.2.1, if_neg (started ▸ same), zero_add]

end

section

variable [Runtime] {s s' : State} {action : Action}

theorem obeys_step (regular : Regular s) (kept : action.cleansAdmin = false)
    (success : step s action = .ok s') (key : Pubkey) : Obeys key ⟨s, action, s'⟩ := by
  have consistent := regular.consistent
  cases step_effect success with
  | openMarket | update | setSettings | closeSettings | stop | tick | external =>
      exact obeys_of_unseen rfl rfl rfl
  | closeMarket closing markets jobs runs =>
      rcases closing with rfl | rfl <;>
        exact obeys_of_unseen rfl (by rw [jobs]) (by rw [runs])
  | @listQueued a ipfsJob timeout market job tokens posted
  | @listStranded a ipfsJob timeout market job tokens posted =>
      have ⟨payer, project⟩ := list_signed success (Finmap.lookup_insert _)
      refine posted.obeys consistent rfl (Or.inl rfl) rfl ⟨?_, ?_⟩
      · exact List.mem_cons.mpr (Or.inl payer)
      · exact List.mem_cons_of_mem _ (List.mem_singleton.mpr project)
  | @listMatched a ipfsJob timeout market job tokens node rest posted waiting first freshRun =>
      have ⟨payer, project⟩ := list_signed success (Finmap.lookup_insert _)
      refine posted.obeys consistent rfl (Or.inr ⟨a.run, _, freshRun, rfl, rfl⟩) rfl ⟨?_, ?_⟩
      · exact List.mem_cons.mpr (Or.inl payer)
      · exact List.mem_cons_of_mem _ (List.mem_singleton.mpr project)
  | @assign a ipfsJob timeout market job tokens posted waiting queued freshRun =>
      have ⟨payer, project⟩ := assign_signed success (Finmap.lookup_insert _)
      refine posted.obeys consistent rfl (Or.inr ⟨a.run, _, freshRun, rfl, rfl⟩) rfl ⟨?_, ?_⟩
      · exact List.mem_cons.mpr (Or.inl payer)
      · exact List.mem_cons_of_mem _ (List.mem_singleton.mpr project)
  | extend present placed opened vaulted associated queued apart longer =>
      exact extend_obeys success present queued longer rfl rfl
  | @delist a market job tokens present placed opened vaulted queued waiting member =>
      obtain ⟨other, found, -, -, idle⟩ :=
        (marketConsistent consistent opened).jobs waiting _ member
      have signed := delist_signed success present
      refine withdrawn_obeys present rfl rfl rfl (Or.inl ⟨?_, shifts_eq_zero idle⟩) ?_
      · exact JobAccount.outcome_of_queued queued
      · exact List.mem_singleton.mpr signed
  | @recover a market job tokens total present placed opened vaulted stopped =>
      have signed := recover_signed success present
      exact withdrawn_obeys present rfl rfl rfl (Or.inr (JobAccount.outcome_of_stopped stopped))
        (List.mem_singleton.mpr signed)
  | @endJob a market job run tokens running =>
      have signed := endJob_signed success running.present
      have unset := regular.unposted a.job job running.present
        (regular.onShift running.live running.started running.present).1
      have outcome : (job.endJob run.time s.clock run.node).outcome =
          .done run.shift s.clock JobAccount.nullResult := by
        rw [JobAccount.outcome_of_done rfl, ← unset]
        rfl
      refine @ended_obeys _ _ _ regular _ _ _ _ _ _ (fun shift => .endJob shift s.clock)
        running.present running.live running.started rfl rfl rfl ⟨rfl, rfl⟩ fun working => ?_
      rw [outcome]
      simp only [Contract.act, bind_eq_ok, require_eq_ok, pure_eq_ok, exists_const]
      exact ⟨⟨working, List.mem_singleton.mpr signed⟩, rfl⟩
  | @finish a ipfsResult market job run tokens running queued =>
      obtain ⟨posted, other, found, -, signed⟩ := finish_signed success
      cases running.live.symm.trans found
      have outcome : (job.finish ipfsResult a.authority s.clock run.time).outcome =
          .done run.shift s.clock ipfsResult := by
        rw [JobAccount.outcome_of_done rfl, ← signed]
        rfl
      refine @ended_obeys _ _ _ regular _ _ _ _ _ _ (fun shift => .finish shift s.clock ipfsResult)
        running.present running.live running.started rfl rfl rfl ⟨rfl, rfl⟩ fun working => ?_
      rw [outcome]
      simp only [Contract.act, bind_eq_ok, require_eq_ok, pure_eq_ok, exists_const]
      exact ⟨⟨working, List.mem_singleton.mpr signed⟩, posted, rfl⟩
  | @quit a job run present live started =>
      have signed := quit_signed success live
      refine @ended_obeys _ _ _ regular _ _ _ _ _ _ .quit present live started rfl rfl rfl
        ⟨rfl, rfl⟩ fun working => ?_
      rw [JobAccount.outcome_of_stopped rfl]
      simp only [Contract.act, bind_eq_ok, require_eq_ok, pure_eq_ok, exists_const]
      exact ⟨⟨working, List.mem_singleton.mpr signed⟩, rfl⟩
  | @quitAdmin a =>
      obtain ⟨admin, run, live⟩ := quitAdmin_signed success
      exact relieved_obeys regular live (List.mem_singleton.mpr admin.symm) rfl rfl rfl
  | @complete a ipfsResult job present finished =>
      obtain ⟨posted, other, found, signed, unset⟩ := complete_signed success
      cases present.symm.trans found
      refine obeys_of_named rfl (fun other =>
        ⟨Finmap.lookup_insert_of_ne _ (Ne.symm other), rfl⟩) ⟨.complete ipfsResult, rfl, ?_⟩
      rw [contract_of_present present, contract_of_present (Finmap.lookup_insert _)]
      have before := JobAccount.outcome_of_done finished
      have after : (job.complete ipfsResult).outcome =
          .done ⟨job.node, job.timeStart⟩ job.timeEnd ipfsResult :=
        JobAccount.outcome_of_done finished
      simp only [JobAccount.contract, Contract.step, Contract.act, before, after, bind_eq_ok,
        require_eq_ok, pure_eq_ok, exists_const]
      exact ⟨List.mem_singleton.mpr signed, ⟨unset, posted⟩, rfl⟩
  | @clean a job present finished =>
      refine obeys_of_named rfl (fun other =>
        ⟨Finmap.lookup_erase_ne (Ne.symm other), rfl⟩) ⟨.clean, rfl, ?_⟩
      rw [contract_of_present present, contract_of_absent (Finmap.lookup_erase _ _)]
      simp only [JobAccount.contract, Contract.step, Contract.act,
        JobAccount.outcome_of_done finished]
      rfl
  | @workQueued a market present | @workIgnored a market present =>
      exact obeys_of_unseen (unseen_work rfl) rfl rfl
  | @workMatched a market job rest present waiting first freshRun =>
      obtain ⟨found, waits, -, queued, idle⟩ :=
        (marketConsistent consistent present).jobs waiting job (by simp [first])
      exact taken_obeys waits queued idle freshRun rfl rfl rfl rfl
  | cleanAdmin => cases kept

theorem regular_step (regular : Regular s) (kept : action.cleansAdmin = false)
    (success : step s action = .ok s') : Regular s' :=
  ⟨consistent_step_of_kept regular.consistent kept success, unposted_step regular.unposted success⟩

omit [Runtime] in
theorem Genesis.regular (genesis : Genesis s) : Regular s := ⟨genesis.consistent, genesis.unposted⟩

/-- A job account is a contract for all that happens, as long as no admin wipes job accounts. -/
theorem contract_part (key : Pubkey) :
    Machine.Part (Machine.restrict step fun action => !action.cleansAdmin) Regular Contract.step
      (State.contract key) (contractSeen key) where
  kept event regular success := by
    have ⟨kept, stepped⟩ := Machine.restrict_eq_ok.mp success
    exact regular_step regular (Bool.not_eq_true' _ ▸ kept) stepped
  own event regular success deed seen := by
    have ⟨kept, stepped⟩ := Machine.restrict_eq_ok.mp success
    have obeys := obeys_step regular (Bool.not_eq_true' _ ▸ kept) stepped key
    rw [Obeys, show contractSeen key _ = some deed from seen] at obeys
    exact obeys
  frame event regular success unseen := by
    have ⟨kept, stepped⟩ := Machine.restrict_eq_ok.mp success
    have obeys := obeys_step regular (Bool.not_eq_true' _ ▸ kept) stepped key
    rw [Obeys, show contractSeen key _ = none from unseen] at obeys
    exact obeys

/-- Every run of the program is, at every address, a run of contracts: each job account is created,
extended, taken, finished, ended, completed, quit and closed by the rules of its contract and with
the signatures that these ask for. -/
theorem jobs_are_contracts {s : State} (genesis : Genesis s) (actions : List Action)
    (kept : ∀ event ∈ trace s actions, event.action.cleansAdmin = false) (key : Pubkey) :
    Machine.trace Contract.step none ((trace s actions).filterMap (contractSeen key)) =
        (trace s actions).filterMap
          (Machine.Event.project (State.contract key) (contractSeen key)) ∧
      Machine.run Contract.step none ((trace s actions).filterMap (contractSeen key)) =
        (run s actions).contract key := by
  have allowed : ∀ event ∈ trace s actions, (!event.action.cleansAdmin) = true := by
    intro event member
    rw [kept event member]
    rfl
  have simulated := (contract_part key).simulates genesis.regular actions
  rw [(Machine.trace_restrict allowed).1, (Machine.trace_restrict allowed).2,
    contract_of_absent (by rw [genesis.jobs, Finmap.lookup_empty])] at simulated
  exact simulated

/-- From any moment on, a contract keeps its terms, is only ever extended, and stays stopped or done
as it was, until its project withdraws or it was done. -/
theorem contract_continues {s : State} (genesis : Genesis s) (past future : List Action)
    (before : ∀ event ∈ trace s past, event.action.cleansAdmin = false)
    (after : ∀ event ∈ trace (run s past) future, event.action.cleansAdmin = false) {key : Pubkey}
    {contract : Contract} (present : (run s past).contract key = some contract) :
    (∃ later, (run (run s past) future).contract key = some later ∧ contract.Continues later) ∨
      ∃ event ∈ trace (run s past) future, ∃ ix last, event.action = .instruction ix ∧
        event.before.contract key = some last ∧ event.after.contract key = none ∧
        contract.Continues last ∧ last.EndedBy ix.signers := by
  have regular : Regular (run s past) :=
    Machine.guarded_invariant (fun event : Event => event.action.cleansAdmin = false)
      genesis.regular (fun _ _ _ regular success kept => regular_step regular kept success)
      past before
  refine (Machine.guarded_induction (P := fun history state => Regular state ∧
      ((∃ later, state.contract key = some later ∧ contract.Continues later) ∨
        ∃ event ∈ history, ∃ ix last, event.action = .instruction ix ∧
          event.before.contract key = some last ∧ event.after.contract key = none ∧
          contract.Continues last ∧ last.EndedBy ix.signers))
    (fun event : Event => event.action.cleansAdmin = false)
    ⟨regular, Or.inl ⟨contract, present, contract.continues_rfl⟩⟩ ?_ future after).2
  rintro history state action next ⟨regular, books⟩ success - kept
  refine ⟨regular_step regular kept success, ?_⟩
  rcases books with ⟨current, now, continues⟩ | ⟨event, member, ended⟩
  · have obeys := obeys_step regular kept success key
    unfold Obeys at obeys
    split at obeys
    · rename_i deed seen
      obtain ⟨deed, signers⟩ := deed
      rw [now] at obeys
      cases later : next.contract key with
      | some result =>
          rw [later] at obeys
          exact Or.inl ⟨result, rfl, continues.trans (Contract.act_continues obeys)⟩
      | none =>
          rw [later] at obeys
          obtain ⟨ix, acts, signs⟩ := contractSeen_signers seen
          refine Or.inr ⟨_, List.mem_append_right _ (List.mem_singleton_self _), ix, current,
            acts, now, later, continues, ?_⟩
          rw [signs]
          exact Contract.act_ends obeys
    · exact Or.inl ⟨current, obeys.trans now, continues⟩
  · exact Or.inr ⟨event, List.mem_append_left _ member, ended⟩

end

/-- The job of the sample is posted, taken and finished. -/
theorem jobs_are_contracts_sample :
    Machine.run Contract.step none ((Sample.trace (Sample.matching ++
        [Sample.finish Sample.job Sample.firstRun])).filterMap (contractSeen Sample.job)) =
      some ⟨⟨Sample.ipfsJob, Sample.market, Sample.project, 2, Sample.project⟩, 30, 0,
        .done ⟨Sample.node, 100⟩ 100 Sample.ipfsResult⟩ := by
  have ⟨_, last⟩ := @jobs_are_contracts Sample.runtime _ Sample.genesis
    (Sample.matching ++ [Sample.finish Sample.job Sample.firstRun]) (by decide +kernel) Sample.job
  exact last.trans (by decide +kernel)

/-- It keeps its terms while it runs and when it is done. -/
theorem contract_continues_sample :
    ∃ later, (@run Sample.runtime (Sample.run Sample.matching)
        [Sample.finish Sample.job Sample.firstRun]).contract Sample.job = some later ∧
      later.terms = ⟨Sample.ipfsJob, Sample.market, Sample.project, 2, Sample.project⟩ := by
  rcases @contract_continues Sample.runtime _ Sample.genesis Sample.matching
    [Sample.finish Sample.job Sample.firstRun] (by decide +kernel) (by decide +kernel) Sample.job
    ⟨⟨Sample.ipfsJob, Sample.market, Sample.project, 2, Sample.project⟩, 30, {⟨Sample.node, 100⟩},
      .pending⟩ (by decide +kernel) with ⟨later, now, continues⟩ | ⟨event, member, ix, last, ended⟩
  · exact ⟨later, now, continues.terms⟩
  · have alive : ∀ event ∈ @trace Sample.runtime (Sample.run Sample.matching)
        [Sample.finish Sample.job Sample.firstRun], event.after.contract Sample.job ≠ none := by
      decide +kernel
    exact absurd ended.2.2.1 (alive event member)

end Nosana.Jobs
