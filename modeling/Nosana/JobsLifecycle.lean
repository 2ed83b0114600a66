import Nosana.JobsSolvency

set_option autoImplicit false

/- The life of one job account, as the history of a run records it: the price it was
created at, what was deposited for it, and how often it was settled. -/
namespace Nosana.Jobs

open Checked

/-- What the history of a run says of the job account at an address, since the last
time one was created there. -/
structure Record where
  price : Nat
  deposited : Nat
  settlements : Nat
  deriving DecidableEq

namespace Record

/-- The tokens that entered a vault. -/
def gained (event : Event) (vault : Pubkey) : Nat :=
  event.after.tokens.balance vault - event.before.tokens.balance vault

/-- A settlement moves tokens out of the vault. -/
def settle (record : Record) (event : Event) (vault : Pubkey) : Record :=
  if event.after.tokens.balance vault < event.before.tokens.balance vault then
    { record with settlements := record.settlements + 1 }
  else record

/-- The price that a market asked for. -/
def asked (event : Event) (market : Pubkey) : Nat :=
  ((event.before.markets.lookup market).map MarketAccount.jobPrice).getD 0

/-- What one event adds to the record of the job account at an address. -/
def next (key : Pubkey) (record : Record) (event : Event) : Record :=
  match event.action with
  | .instruction (.list a _ _) =>
    if a.job = key then ⟨asked event a.market, gained event a.vault, 0⟩ else record
  | .instruction (.assign a _ _) =>
    if a.job = key then ⟨asked event a.market, gained event a.vault, 0⟩ else record
  | .instruction (.extend a _) =>
    if a.job = key then { record with deposited := record.deposited + gained event a.vault }
    else record
  | .instruction (.finish a _) => if a.job = key then record.settle event a.vault else record
  | .instruction (.endJob a) => if a.job = key then record.settle event a.vault else record
  | .instruction (.delist a) => if a.job = key then record.settle event a.vault else record
  | .instruction (.recover a) => if a.job = key then record.settle event a.vault else record
  | _ => record

def ofHistory (key : Pubkey) (history : List Event) : Record :=
  history.foldl (next key) ⟨0, 0, 0⟩

theorem ofHistory_concat (key : Pubkey) (past : List Event) (event : Event) :
    ofHistory key (past ++ [event]) = next key (ofHistory key past) event := by
  simp only [ofHistory, List.foldl_append, List.foldl_cons, List.foldl_nil]

end Record

/-- The instruction that ends a running job, whatever state it is in. -/
def Action.ends (key : Pubkey) : Action → Bool
  | .instruction (.endJob a) => a.job == key
  | _ => false

/-- The instruction by which a node quits a job, whatever state it is in. -/
def Action.quits (key : Pubkey) : Action → Bool
  | .instruction (.quit a) => a.job == key
  | _ => false

/-- What one step can do to the job account at an address, and to its record. -/
inductive Turn (key : Pubkey) (event : Event) : Prop
  | other (same : event.after.jobs.lookup key = event.before.jobs.lookup key)
      (record : ∀ record, Record.next key record event = record)
      (quiet : event.action.ends key = false ∧ event.action.quits key = false)
  | created {job : JobAccount} (absent : event.before.jobs.lookup key = none)
      (present : event.after.jobs.lookup key = some job)
      (queued : job.state = JobState.queued.toU8)
      (record : ∀ record, Record.next key record event = ⟨job.price, job.cost job.timeout, 0⟩)
  | extended {job : JobAccount} {timeout : Int}
      (present : event.before.jobs.lookup key = some job)
      (after : event.after.jobs.lookup key = some (job.updateTimeout timeout))
      (queued : job.state = JobState.queued.toU8)
      (record : ∀ record, Record.next key record event =
        { record with deposited := record.deposited + (job.cost timeout - job.cost job.timeout) })
      (longer : job.timeout < timeout)
  | completed {job : JobAccount} {ipfsResult : IpfsHash}
      (present : event.before.jobs.lookup key = some job)
      (after : event.after.jobs.lookup key = some (job.complete ipfsResult))
      (record : ∀ record, Record.next key record event = record)
  | ended {job next : JobAccount} (present : event.before.jobs.lookup key = some job)
      (after : event.after.jobs.lookup key = some next)
      (done : next.state = JobState.done.toU8) (price : next.price = job.price)
      (timeout : next.timeout = job.timeout)
      (record : ∀ record, Record.next key record event =
        if 0 < job.cost job.timeout then { record with settlements := record.settlements + 1 }
        else record)
      (live : job.state = JobState.queued.toU8 ∨ event.action.ends key = true)
  | quit {job : JobAccount} (present : event.before.jobs.lookup key = some job)
      (after : event.after.jobs.lookup key = some job.quit)
      (record : ∀ record, Record.next key record event = record)
      (quits : event.action.quits key = true)
  | closed {job : JobAccount} (present : event.before.jobs.lookup key = some job)
      (after : event.after.jobs.lookup key = none)
      (record : ∀ record, Record.next key record event = record ∨
        (job.state ≠ JobState.done.toU8 ∧
          Record.next key record event = { record with settlements := record.settlements + 1 }))

/-- The books of a settlement that pays the whole deposit out. -/
theorem Record.settle_of_paidOut {event : Event} {home : Pubkey} {amount : Nat}
    (paid : PaidOut event.before.tokens event.after.tokens home amount) (record : Record) :
    record.settle event (.jobsVault home id.nosToken) =
      if 0 < amount then { record with settlements := record.settlements + 1 } else record := by
  have moved := paid home
  simp only [if_true, funds] at moved
  unfold Record.settle
  by_cases some : 0 < amount
  · rw [if_pos some, if_pos (by omega)]
  · rw [if_neg some, if_neg (by omega)]

theorem Running.settles {event : Event} {key runKey marketKey : Pubkey} {job : JobAccount}
    {run : RunAccount} {market : MarketAccount} {vault : Pubkey} {amount : Nat}
    (running : Running event.before key runKey marketKey job run market vault)
    (sound : Sound event.before)
    (paid : PaidOut event.before.tokens event.after.tokens marketKey amount) (record : Record) :
    record.settle event vault =
      if 0 < amount then { record with settlements := record.settlements + 1 } else record := by
  rw [running.vault sound]
  exact Record.settle_of_paidOut paid record

/-- A deposit is what its market's vault gained. -/
theorem payDeposit_gained {tokens result : Tokens} {job : JobAccount} {duration : Int}
    {user home rewardsVault payer : Pubkey}
    (success : payDeposit tokens job duration user (.jobsVault home id.nosToken) rewardsVault payer
      = .ok result)
    (associated : job.price = 0 ∨ user = pda.associatedToken payer id.nosToken) :
    result.balance (.jobsVault home id.nosToken) - tokens.balance (.jobsVault home id.nosToken) =
      job.cost duration := by
  have moved := payDeposit_funds success associated home
  simp only [if_true, funds] at moved
  omega

/-- Creating a job account starts a new record. -/
theorem Posted.turn {event : Event} {key marketKey : Pubkey} {market : MarketAccount}
    {job : JobAccount} {user vault rewardsVault payer : Pubkey}
    (posted : Posted event.before key marketKey market job user vault rewardsVault payer
      event.after.tokens)
    (sound : Sound event.before) (jobs : event.after.jobs = event.before.jobs.insert key job)
    (record : ∀ record, Record.next key record event =
      ⟨Record.asked event marketKey, Record.gained event vault, 0⟩) : Turn key event := by
  have named := posted.vaulted.symm.trans (sound.vault posted.present)
  have paid := posted.paid
  rw [named] at paid
  refine .created (Finmap.lookup_eq_none.mpr posted.fresh.2.2.1)
    (by rw [jobs, Finmap.lookup_insert]) (congrArg Ticket.state posted.ticket) fun before => ?_
  have gained := payDeposit_gained paid (posted.associated.imp_left posted.price.trans)
  rw [record, named, Record.gained, gained, Record.asked, posted.present, posted.price]
  rfl

/-- An event of another account. -/
theorem turn_of_insert {event : Event} {key other : Pubkey} {job : JobAccount}
    (different : other ≠ key) (jobs : event.after.jobs = event.before.jobs.insert other job)
    (record : ∀ record, Record.next key record event = record)
    (quiet : event.action.ends key = false ∧ event.action.quits key = false) : Turn key event :=
  .other (by rw [jobs, Finmap.lookup_insert_of_ne _ (Ne.symm different)]) record quiet

theorem turn_of_erase {event : Event} {key other : Pubkey} (different : other ≠ key)
    (jobs : event.after.jobs = event.before.jobs.erase other)
    (record : ∀ record, Record.next key record event = record)
    (quiet : event.action.ends key = false ∧ event.action.quits key = false) : Turn key event :=
  .other (by rw [jobs, Finmap.lookup_erase_ne (Ne.symm different)]) record quiet

/-- A job that is not done is paid back and closed. -/
theorem turn_of_payout {event : Event} {key home : Pubkey} {job : JobAccount} {amount : Nat}
    (present : event.before.jobs.lookup key = some job)
    (paid : PaidOut event.before.tokens event.after.tokens home amount)
    (after : event.after.jobs.lookup key = none) (undone : job.state ≠ JobState.done.toU8)
    (record : ∀ record, Record.next key record event =
      record.settle event (.jobsVault home id.nosToken)) : Turn key event := by
  refine .closed present after fun before => ?_
  rw [record, Record.settle_of_paidOut paid]
  split
  · exact Or.inr ⟨undone, rfl⟩
  · exact Or.inl rfl

variable [Runtime]

theorem step_turn {s s' : State} {action : Action} (sound : Sound s)
    (stays : action.closesMarket = false) (success : step s action = .ok s') (key : Pubkey) :
    Turn key ⟨s, action, s'⟩ := by
  cases step_effect success with
  | closeMarket closing => rcases closing with rfl | rfl <;> cases stays
  | @listQueued a _ _ _ _ _ posted | @listStranded a _ _ _ _ _ posted
  | @listMatched a _ _ _ _ _ _ _ posted | @assign a _ _ _ _ _ posted =>
      by_cases same : a.job = key
      · subst same
        exact Posted.turn posted sound rfl fun _ => if_pos rfl
      · exact turn_of_insert same rfl (fun _ => if_neg same) ⟨rfl, rfl⟩
  | @extend a timeout account job tokens present placed opened vaulted associated queued apart
      longer paid =>
      by_cases same : a.job = key
      · subst same
        refine .extended present (Finmap.lookup_insert _) queued (fun record => ?_) longer
        have named := vaulted.symm.trans (sound.vault opened)
        rw [named] at paid
        have gained := payDeposit_gained paid associated
        have added := JobAccount.cost_split (sound.jobs a.job job present).2 (le_of_lt longer)
        have entered : Record.gained
            ⟨s, .instruction (.extend a timeout), { s with
              jobs := s.jobs.insert a.job (job.updateTimeout timeout), tokens := tokens }⟩ a.vault =
            job.cost timeout - job.cost job.timeout := by
          rw [named, Record.gained, gained, added, Nat.add_sub_cancel]
          rfl
        rw [← entered]
        exact if_pos rfl
      · exact turn_of_insert same rfl (fun _ => if_neg same) ⟨rfl, rfl⟩
  | @delist a account job tokens present placed opened vaulted queued waiting member apart
      refunded =>
      by_cases same : a.job = key
      · subst same
        rw [← vaulted, sound.vault opened] at apart refunded
        apply turn_of_payout present (refunded.paidOut apart) (Finmap.lookup_erase _ _)
        · rw [queued]
          decide
        · intro record
          rw [← sound.vault opened, vaulted]
          exact if_pos rfl
      · exact turn_of_erase same rfl (fun _ => if_neg same) ⟨rfl, rfl⟩
  | @recover a account job tokens total present placed opened vaulted stopped apart amount
      refunded =>
      by_cases same : a.job = key
      · subst same
        rw [← vaulted, sound.vault opened] at apart refunded
        apply turn_of_payout present (transferFromVault_paidOut refunded apart.symm)
          (Finmap.lookup_erase _ _)
        · rw [stopped]
          decide
        · intro record
          rw [← sound.vault opened, vaulted]
          exact if_pos rfl
      · exact turn_of_erase same rfl (fun _ => if_neg same) ⟨rfl, rfl⟩
  | @endJob a account job run tokens running apart associated settled =>
      by_cases same : a.job = key
      · subst same
        refine .ended running.present (Finmap.lookup_insert _) rfl rfl rfl (fun record => ?_)
          (Or.inr (by simp [Action.ends]))
        rw [running.vault sound] at apart settled
        have paid := settle_paidOut settled apart (associated.imp_right And.left)
        apply Eq.trans (if_pos rfl)
        exact Running.settles running sound paid record
      · exact turn_of_insert same rfl (fun _ => if_neg same) ⟨by simp [Action.ends, same], rfl⟩
  | @finish a ipfsResult account job run tokens running queued apart associated settled =>
      by_cases same : a.job = key
      · subst same
        refine .ended running.present (Finmap.lookup_insert _) rfl rfl rfl (fun record => ?_)
          (Or.inl queued)
        rw [running.vault sound] at apart settled
        have paid := settle_paidOut settled apart.symm associated
        apply Eq.trans (if_pos rfl)
        exact Running.settles running sound paid record
      · exact turn_of_insert same rfl (fun _ => if_neg same) ⟨rfl, rfl⟩
  | @complete a ipfsResult job present done =>
      by_cases same : a.job = key
      · subst same
        exact .completed present (Finmap.lookup_insert _) fun _ => rfl
      · exact turn_of_insert same rfl (fun _ => rfl) ⟨rfl, rfl⟩
  | @quit a job run present live started =>
      by_cases same : a.job = key
      · subst same
        exact .quit present (Finmap.lookup_insert _) (fun _ => rfl) (by simp [Action.quits])
      · exact turn_of_insert same rfl (fun _ => rfl) ⟨rfl, by simp [Action.quits, same]⟩
  | @clean a job present | @cleanAdmin a job present =>
      by_cases same : a.job = key
      · subst same
        exact .closed present (Finmap.lookup_erase _ _) fun _ => Or.inl rfl
      · exact turn_of_erase same rfl (fun _ => rfl) ⟨rfl, rfl⟩
  | _ => exact .other rfl (fun _ => rfl) ⟨rfl, rfl⟩

end Nosana.Jobs
