import Nosana.JobsConsistency
import Nosana.JobsVault

set_option autoImplicit false

/- The vault of a market covers what it owes to the jobs of the market. -/
namespace Nosana.Jobs

open Checked

/-- What the vault of a market owes on account of a job: the whole deposit, until the
job is settled. -/
def JobAccount.due (market : Pubkey) (job : JobAccount) : Int :=
  if job.market = market ∧ (job.state = JobState.queued.toU8 ∨ job.state = JobState.stopped.toU8) ∧
      0 < job.price then
    job.price * job.timeout
  else 0

/-- What the vault of a market owes to all live jobs. -/
def owed (jobs : Finmap fun _ : Pubkey => JobAccount) (market : Pubkey) : Int :=
  jobs.total fun _ job => job.due market

/-- What the vault of a market holds. -/
def funds (tokens : Tokens) (market : Pubkey) : Nat :=
  tokens.balance (.jobsVault market id.nosToken)

def surplus (s : State) (market : Pubkey) : Int := funds s.tokens market - owed s.jobs market

/-- The instructions by which a market takes deposits. -/
def Action.deposits (market : Pubkey) : Action → Bool
  | .instruction (.list a _ _) => a.market == market
  | .instruction (.assign a _ _) => a.market == market
  | .instruction (.extend a _) => a.market == market
  | _ => false

/-- A step leaves the surplus of a market as it was, or tokens came in otherwise. -/
def Covered (s s' : State) (action : Action) (market : Pubkey) : Prop :=
  surplus s market = surplus s' market ∨
    (surplus s market < surplus s' market ∧ funds s.tokens market < funds s'.tokens market ∧
      action.deposits market = false)

theorem cost_eq {job : JobAccount} {duration : Int} (positive : 0 < job.price → 0 ≤ duration) :
    (job.cost duration : Int) = job.price * duration := by
  rcases Nat.eq_zero_or_pos job.price with free | paid
  · simp [JobAccount.cost, free]
  · rw [JobAccount.cost, Int.natCast_mul, Int.toNat_of_nonneg (positive paid)]

/-- A job that waits or runs, or was quit, is owed its deposit. -/
theorem due_of_open {job : JobAccount} (market : Pubkey)
    (positive : 0 < job.price → 0 ≤ job.timeout)
    (outstanding : job.state = JobState.queued.toU8 ∨ job.state = JobState.stopped.toU8) :
    job.due market = if job.market = market then (job.cost job.timeout : Int) else 0 := by
  rw [cost_eq positive, JobAccount.due]
  rcases Nat.eq_zero_or_pos job.price with free | paid
  · simp [free]
  · simp only [outstanding, paid, and_true]

theorem due_of_done {job : JobAccount} (market : Pubkey) (done : job.state = JobState.done.toU8) :
    job.due market = 0 := by
  rw [JobAccount.due, done, if_neg]
  rintro ⟨-, settled | settled, -⟩ <;> revert settled <;> decide

theorem due_nonneg {job : JobAccount} (market : Pubkey)
    (positive : 0 < job.price → 0 ≤ job.timeout) : 0 ≤ job.due market := by
  unfold JobAccount.due
  split
  · rename_i holds
    exact Int.mul_nonneg (Int.natCast_nonneg _) (positive holds.2.2)
  · exact le_refl _

/-! Deposits and payouts -/

/-- Tokens of a deposit reach the vault of one market and leave none. -/
theorem payDeposit_funds {tokens result : Tokens} {job : JobAccount} {duration : Int}
    {user home rewardsVault payer : Pubkey}
    (success : payDeposit tokens job duration user (.jobsVault home id.nosToken) rewardsVault payer
      = .ok result)
    (associated : job.price = 0 ∨ user = pda.associatedToken payer id.nosToken)
    (market : Pubkey) :
    funds result market = funds tokens market +
      if home = market then job.cost duration else 0 := by
  have balance := payDeposit_balance success (.jobsVault market id.nosToken)
  have left : (if .jobsVault market id.nosToken = user then job.cost duration else 0) = 0 := by
    rcases associated with free | rfl
    · simp only [JobAccount.cost_of_free free, ite_self]
    · exact if_neg Pubkey.noConfusion
  simp only [left, Nat.add_zero, Pubkey.jobsVault.injEq, and_true, eq_comm (a := market)] at balance
  exact balance

/-- An amount leaves the vault of one market, and no other vault holds less. -/
def PaidOut (tokens result : Tokens) (home : Pubkey) (amount : Nat) : Prop :=
  ∀ market, if home = market then funds result market + amount = funds tokens market
    else funds tokens market ≤ funds result market

theorem transferFromVault_paidOut {tokens result : Tokens} {home destination : Pubkey}
    {amount : Nat}
    (success : transferFromVault tokens home (.jobsVault home id.nosToken) destination amount =
      .ok result)
    (apart : destination ≠ .jobsVault home id.nosToken) : PaidOut tokens result home amount := by
  intro market
  have balance := transferFromVault_balance success (.jobsVault market id.nosToken)
  simp only [Pubkey.jobsVault.injEq, and_true] at balance
  split
  · rename_i same
    subst same
    simp only [if_true, apart.symm, if_false, Nat.add_zero] at balance
    exact balance
  · rename_i different
    simp only [eq_comm (a := market), different, if_false, Nat.add_zero] at balance
    exact Nat.le.intro balance.symm

theorem Refunded.paidOut {tokens result : Tokens} {job : JobAccount} {home deposit : Pubkey}
    (refunded : Refunded tokens result job home (.jobsVault home id.nosToken) deposit)
    (apart : deposit ≠ .jobsVault home id.nosToken) :
    PaidOut tokens result home (job.cost job.timeout) := by
  rcases refunded with ⟨free, rfl⟩ | ⟨-, total, computed, moved⟩
  · intro market
    simp only [JobAccount.cost_of_free free, Nat.add_zero, le_refl, ite_self]
  · obtain ⟨-, -, -, rfl⟩ := getDeposit_eq_ok.mp computed
    exact transferFromVault_paidOut moved apart

theorem settle_paidOut {tokens result : Tokens} {job : JobAccount} {home user deposit : Pubkey}
    (success : settle tokens job home (.jobsVault home id.nosToken) user deposit = .ok result)
    (fromUser : user ≠ .jobsVault home id.nosToken)
    (associated : job.price = 0 ∨ deposit = pda.associatedToken job.payer id.nosToken) :
    PaidOut tokens result home (job.cost job.timeout) := by
  intro market
  have balance := settle_balance success (.jobsVault market id.nosToken)
  have left : (if .jobsVault market id.nosToken = deposit then
      job.cost job.timeout - job.earned else 0) = 0 := by
    rcases associated with free | rfl
    · simp only [JobAccount.cost_of_free free, Nat.zero_sub, ite_self]
    · exact if_neg Pubkey.noConfusion
  simp only [left, Pubkey.jobsVault.injEq, and_true, Nat.add_zero] at balance
  split
  · rename_i same
    subst same
    simp only [if_true, fromUser.symm, if_false, Nat.add_zero] at balance
    exact balance
  · rename_i different
    simp only [eq_comm (a := market), different, if_false, Nat.add_zero] at balance
    exact Nat.le.intro balance.symm

theorem covered_of_payout {s s' : State} {action : Action} {home : Pubkey} {amount : Nat}
    (paid : PaidOut s.tokens s'.tokens home amount) (market : Pubkey)
    (none : action.deposits market = false)
    (settled : owed s.jobs market = (if home = market then (amount : Int) else 0) +
      owed s'.jobs market) : Covered s s' action market := by
  have moved := paid market
  simp only [Covered, surplus, none, and_true]
  split at moved <;> rename_i same <;> simp only [same, if_true, if_false] at settled <;> omega

theorem covered_of_deposit {s s' : State} {action : Action} {home market : Pubkey} {amount : Nat}
    (paid : funds s'.tokens market = funds s.tokens market + if home = market then amount else 0)
    (owes : owed s'.jobs market = (if home = market then (amount : Int) else 0) +
      owed s.jobs market) : Covered s s' action market := by
  apply Or.inl
  simp only [surplus]
  split at owes <;> rename_i same <;> simp only [same, if_true, if_false] at paid <;> omega

/-- What is owed does not change when a job keeps what is due to it. -/
theorem owed_insert {jobs : Finmap fun _ : Pubkey => JobAccount} {key : Pubkey} {job : JobAccount}
    (market : Pubkey) (next : JobAccount) (present : jobs.lookup key = some job) :
    job.due market + owed (jobs.insert key next) market = next.due market + owed jobs market :=
  Finmap.total_insert (fun _ job => JobAccount.due market job) jobs key job next present

theorem owed_erase {jobs : Finmap fun _ : Pubkey => JobAccount} {key market : Pubkey}
    {job : JobAccount} (present : jobs.lookup key = some job) :
    owed jobs market = job.due market + owed (jobs.erase key) market :=
  Finmap.total_erase (fun _ job => JobAccount.due market job) jobs key job present

/-- Every open job is covered by what is owed. -/
theorem cost_le_owed {s : State} (sound : Sound s) {key : Pubkey} {job : JobAccount}
    (present : s.jobs.lookup key = some job)
    (outstanding : job.state = JobState.queued.toU8 ∨ job.state = JobState.stopped.toU8) :
    (job.cost job.timeout : Int) ≤ owed s.jobs job.market := by
  have due := due_of_open job.market (sound.jobs key job present).2 outstanding
  rw [if_pos rfl] at due
  rw [← due]
  exact Finmap.le_total (fun _ job => JobAccount.due _ job) s.jobs key job present
    fun other found inside => due_nonneg _ (sound.jobs other found inside).2

/-! Steps -/

/-- A posted job brings the deposit that is owed to it. -/
theorem Posted.covered {s s' : State} {action : Action} {key marketKey : Pubkey}
    {account : MarketAccount} {job : JobAccount} {user vault rewardsVault payer : Pubkey}
    (posted : Posted s key marketKey account job user vault rewardsVault payer s'.tokens)
    (sound : Sound s) (jobs : s'.jobs = s.jobs.insert key job) (market : Pubkey) :
    Covered s s' action market := by
  have queued : job.state = JobState.queued.toU8 := congrArg Ticket.state posted.ticket
  have due := due_of_open market posted.placeable.2 (Or.inl queued)
  have named := posted.vaulted.symm.trans (sound.vault posted.present)
  have paid := posted.paid
  rw [named] at paid
  apply covered_of_deposit
    (payDeposit_funds paid (posted.associated.imp_left posted.price.trans) market)
  rw [jobs, owed, Finmap.total_insert_fresh _ _ _ _ posted.fresh.2.2.1, due, posted.market]
  rfl

theorem Running.vault {s : State} {key runKey marketKey : Pubkey} {job : JobAccount}
    {run : RunAccount} {market : MarketAccount} {vault : Pubkey} (sound : Sound s)
    (running : Running s key runKey marketKey job run market vault) :
    vault = .jobsVault marketKey id.nosToken :=
  running.vaulted.symm.trans (sound.vault running.opened)

/-- The job of a run is queued. -/
theorem Running.queued {s : State} {key runKey marketKey : Pubkey} {job : JobAccount}
    {run : RunAccount} {market : MarketAccount} {vault : Pubkey}
    (running : Running s key runKey marketKey job run market vault)
    (consistent : s.board.Consistent) : job.state = JobState.queued.toU8 := by
  obtain ⟨found, present, state⟩ := (runConsistent consistent running.live).job
  rw [running.started, running.present] at present
  cases present
  exact state

/-- A running job that ends is paid out of the vault, and nothing is owed to it any more. -/
theorem Running.covered {s s' : State} {action : Action} {key runKey marketKey : Pubkey}
    {job ended : JobAccount} {run : RunAccount} {account : MarketAccount} {vault : Pubkey}
    (running : Running s key runKey marketKey job run account vault) (sound : Sound s)
    (queued : job.state = JobState.queued.toU8)
    (done : ended.state = JobState.done.toU8)
    (paid : PaidOut s.tokens s'.tokens marketKey (job.cost job.timeout))
    (jobs : s'.jobs = s.jobs.insert key ended) (market : Pubkey)
    (none : action.deposits market = false) : Covered s s' action market := by
  apply covered_of_payout paid market none
  have exchanged := owed_insert market ended running.present
  rw [due_of_done market done,
    due_of_open market (sound.jobs key job running.present).2 (Or.inl queued),
    running.placed, ← jobs] at exchanged
  omega

/-- An account that is rewritten with the same due leaves the surplus as it was. -/
theorem covered_of_due {s s' : State} {action : Action} {key market : Pubkey}
    {job next : JobAccount} (present : s.jobs.lookup key = some job)
    (same : next.due market = job.due market) (jobs : s'.jobs = s.jobs.insert key next)
    (tokens : s'.tokens = s.tokens) : Covered s s' action market := by
  have exchanged := owed_insert market next present
  apply Or.inl
  rw [surplus, surplus, tokens, jobs]
  omega

/-- A closed account that was owed an amount has been paid it. -/
theorem covered_of_erase {s s' : State} {action : Action} {key market home : Pubkey}
    {job : JobAccount} (present : s.jobs.lookup key = some job) (placed : job.market = home)
    (positive : 0 < job.price → 0 ≤ job.timeout)
    (outstanding : job.state = JobState.queued.toU8 ∨ job.state = JobState.stopped.toU8)
    (paid : PaidOut s.tokens s'.tokens home (job.cost job.timeout))
    (jobs : s'.jobs = s.jobs.erase key) (none : action.deposits market = false) :
    Covered s s' action market := by
  apply covered_of_payout paid market none
  rw [jobs, owed_erase present, due_of_open market positive outstanding, placed]

theorem due_quit {job : JobAccount} (market : Pubkey)
    (positive : 0 < job.price → 0 ≤ job.timeout) (queued : job.state = JobState.queued.toU8) :
    job.quit.due market = job.due market := by
  rw [due_of_open market positive (Or.inl queued)]
  exact due_of_open market positive (Or.inr rfl)

variable [Runtime]

theorem covered_step {s s' : State} {action : Action} (sound : Sound s)
    (consistent : s.board.Consistent) (ordinary : action.Ordinary)
    (success : step s action = .ok s') (market : Pubkey) : Covered s s' action market := by
  cases step_effect success with
  | @openMarket a _ _ _ _ _ _ fresh freshVault seeds initial =>
      apply Or.inl
      simp only [surplus, funds, Tokens.balance_insert_empty freshVault.2.2.2.2]
  | listQueued posted | listStranded posted | listMatched posted | assign posted =>
      exact posted.covered sound rfl market
  | @extend a timeout account job tokens present placed opened vaulted associated queued apart
      longer paid =>
      rw [← vaulted, sound.vault opened] at paid
      apply covered_of_deposit (payDeposit_funds paid associated market)
      have positive := (sound.jobs a.job job present).2
      have longerPositive : 0 < job.price → 0 ≤ timeout := fun price =>
        le_trans (positive price) (le_of_lt longer)
      have added := JobAccount.cost_split positive (le_of_lt longer)
      have exchanged := owed_insert market (job.updateTimeout timeout) present
      have due := due_of_open market positive (Or.inl queued)
      have extended : (job.updateTimeout timeout).due market =
          if job.market = market then (job.cost timeout : Int) else 0 :=
        due_of_open market longerPositive (Or.inl queued)
      rw [due, extended, added, placed, Int.natCast_add] at exchanged
      change owed (s.jobs.insert a.job (job.updateTimeout timeout)) market =
        (if a.market = market then (job.cost (timeout - job.timeout) : Int) else 0) +
          owed s.jobs market
      split at exchanged <;> rename_i home <;> simp only [home, if_true, if_false] <;> omega
  | @delist a account job tokens present placed opened vaulted queued waiting member apart
      refunded =>
      rw [← vaulted, sound.vault opened] at apart refunded
      exact covered_of_erase present placed (sound.jobs a.job job present).2 (Or.inl queued)
        (refunded.paidOut apart) rfl rfl
  | @recover a account job tokens total present placed opened vaulted stopped apart amount
      refunded =>
      rw [← vaulted, sound.vault opened] at apart refunded
      obtain ⟨-, -, -, rfl⟩ := getDeposit_eq_ok.mp amount
      exact covered_of_erase present placed (sound.jobs a.job job present).2 (Or.inr stopped)
        (transferFromVault_paidOut refunded apart.symm) rfl rfl
  | @endJob a account job run tokens running apart associated settled =>
      have queued := running.queued consistent
      rw [running.vault sound] at apart settled
      have paid := settle_paidOut settled apart (associated.imp_right And.left)
      exact running.covered sound queued rfl paid rfl market rfl
  | @finish a ipfsResult account job run tokens running queued apart associated settled =>
      rw [running.vault sound] at apart settled
      have paid := settle_paidOut settled apart.symm associated
      exact running.covered sound queued rfl paid rfl market rfl
  | @complete a ipfsResult job present done =>
      have still : (job.complete ipfsResult).due market = 0 := due_of_done market done
      exact covered_of_due present (still.trans (due_of_done market done).symm) rfl rfl
  | @quit a job run present live started =>
      obtain ⟨found, inside, queued⟩ := (runConsistent consistent live).job
      rw [started, present] at inside
      cases inside
      exact covered_of_due present (due_quit market (sound.jobs a.job job present).2 queued) rfl rfl
  | clean present done =>
      apply Or.inl
      simp only [surplus, owed_erase present, due_of_done market done, Int.zero_add]
  | cleanAdmin => exact absurd ordinary.2 Bool.noConfusion
  | closeMarket closing =>
      rcases closing with rfl | rfl <;> exact absurd ordinary.1 Bool.noConfusion
  | @external tokens outside =>
      have grows : funds s.tokens market ≤ funds tokens market := outside.balance_le rfl
      simp only [Covered, surplus, Action.deposits, and_true]
      omega
  | _ => exact Or.inl rfl

/-! Payouts never lack funds -/

/-- The instructions that pay tokens out of a vault. -/
def Instruction.paysOut : Instruction → Bool
  | .finish _ _ => true
  | .endJob _ => true
  | .delist _ => true
  | .recover _ => true
  | _ => false

omit [Runtime] in
theorem transferFromVault_insufficient {tokens : Tokens} {market vault destination : Pubkey}
    {amount : Nat} (undelegated : tokens.Undelegated vault)
    (failed : transferFromVault tokens market vault destination amount =
      .error (.token .insufficientFunds)) : tokens.balance vault < amount := by
  simp [transferFromVault, Tokens.load] at failed
  obtain ⟨account, present, -, failed⟩ := failed
  exact Tokens.balance_lt_amount undelegated failed

omit [Runtime] in
theorem getDeposit_ne_insufficient (job : JobAccount) (timeout : Int) :
    job.getDeposit timeout ≠ .error (.token .insufficientFunds) := by
  simp [JobAccount.getDeposit]

omit [Runtime] in
theorem settle_insufficient {tokens : Tokens} {job : JobAccount}
    {market vault user deposit : Pubkey} (apart : user ≠ vault)
    (undelegated : tokens.Undelegated vault)
    (failed : settle tokens job market vault user deposit = .error (.token .insufficientFunds)) :
    tokens.balance vault < job.cost job.timeout := by
  have covered := job.earned_le_cost
  unfold settle at failed
  by_cases free : job.price = 0
  · simp [free] at failed
  · simp [free, getDeposit_ne_insufficient, JobAccount.getReimbursement] at failed
    obtain ⟨total, computed, -, amount, reimbursed, -, first | ⟨middle, first, second⟩⟩ := failed
    all_goals
      obtain ⟨-, -, -, rfl⟩ := getDeposit_eq_ok.mp computed
      obtain ⟨-, -, -, rfl⟩ := getDeposit_eq_ok.mp reimbursed
    · exact lt_of_lt_of_le (transferFromVault_insufficient undelegated first) covered
    · have left := transferFromVault_balance first vault
      simp only [if_true, apart.symm, if_false, Nat.add_zero] at left
      obtain ⟨-, -, -, moved⟩ := transferFromVault_eq_ok.mp first
      have lacks := transferFromVault_insufficient (undelegated.transfer moved) second
      simp only [JobAccount.cost]
      omega

omit [Runtime] in
/-- The deposit of an open job is in the vault of its market. -/
theorem cost_le_balance {s : State} (sound : Sound s)
    (solvent : ∀ market, 0 ≤ surplus s market) {key : Pubkey} {job : JobAccount}
    (present : s.jobs.lookup key = some job)
    (outstanding : job.state = JobState.queued.toU8 ∨ job.state = JobState.stopped.toU8)
    {home vault : Pubkey} (placed : job.market = home) {market : MarketAccount}
    (opened : s.markets.lookup home = some market) (vaulted : market.vault = vault) :
    job.cost job.timeout ≤ s.tokens.balance vault := by
  subst placed
  have owes := cost_le_owed sound present outstanding
  have covered := solvent job.market
  rw [← vaulted, sound.vault opened]
  simp only [surplus, funds] at covered
  omega

omit [Runtime] in
theorem Running.cost_le_balance {s : State} (sound : Sound s)
    (solvent : ∀ market, 0 ≤ surplus s market) {key runKey marketKey : Pubkey} {job : JobAccount}
    {run : RunAccount} {market : MarketAccount} {vault : Pubkey}
    (running : Running s key runKey marketKey job run market vault)
    (queued : job.state = JobState.queued.toU8) :
    job.cost job.timeout ≤ s.tokens.balance vault :=
  Jobs.cost_le_balance sound solvent running.present (Or.inl queued) running.placed running.opened
    running.vaulted

omit [Runtime] in
theorem Running.undelegated {s : State} (sound : Sound s) {key runKey marketKey : Pubkey}
    {job : JobAccount} {run : RunAccount} {market : MarketAccount} {vault : Pubkey}
    (running : Running s key runKey marketKey job run market vault) :
    s.tokens.Undelegated vault := by
  rw [← running.vaulted]
  exact sound.undelegated running.opened

theorem payout_funded {s : State} (sound : Sound s) (consistent : s.board.Consistent)
    (solvent : ∀ market, 0 ≤ surplus s market) {ix : Instruction} (pays : ix.paysOut = true) :
    process s ix ≠ .error (.token .insufficientFunds) := by
  intro failed
  cases ix with
  | finish a ipfsResult =>
      have passes : finishConstraints s a ≠ .error (.token .insufficientFunds) := by
        simp [finishConstraints, Tokens.load, State.loadJob, State.loadRun, State.loadMarket]
      simp [process, finish, passes] at failed
      obtain ⟨job, run, constraints, -, settled⟩ := failed
      obtain ⟨⟨market, running⟩, queued, apart, -⟩ := finishConstraints_eq_ok constraints
      have lacks := settle_insufficient apart.symm (running.undelegated sound) settled
      have holds := running.cost_le_balance sound solvent queued
      exact absurd holds (Nat.not_le.mpr lacks)
  | endJob a =>
      have passes : endConstraints s a ≠ .error (.token .insufficientFunds) := by
        simp [endConstraints, Tokens.load, State.loadJob, State.loadRun, State.loadMarket]
      simp [process, endJob, passes] at failed
      obtain ⟨job, run, constraints, settled⟩ := failed
      obtain ⟨⟨market, running⟩, apart, -⟩ := endConstraints_eq_ok constraints
      have lacks := settle_insufficient apart (running.undelegated sound) settled
      have holds := running.cost_le_balance sound solvent (running.queued consistent)
      exact absurd holds (Nat.not_le.mpr lacks)
  | delist a =>
      have passes : delistConstraints s a ≠ .error (.token .insufficientFunds) := by
        simp [delistConstraints, Tokens.load, State.loadJob, State.loadMarket]
      have found : ∀ market : MarketAccount,
          market.removeFromQueue a.job ≠ .error (.token .insufficientFunds) := by
        intro market
        unfold MarketAccount.removeFromQueue
        split <;> simp
      simp [process, delist, passes, found] at failed
      obtain ⟨job, market, constraints, -, refunded⟩ := failed
      obtain ⟨present, opened, placed, queued, vaulted, -, -⟩ := delistConstraints_eq_ok constraints
      by_cases free : job.price = 0
      · simp [free] at refunded
      · simp [free, getDeposit_ne_insufficient] at refunded
        obtain ⟨total, computed, moved⟩ := refunded
        obtain ⟨-, -, -, rfl⟩ := getDeposit_eq_ok.mp computed
        have lacks := transferFromVault_insufficient (vaulted ▸ sound.undelegated opened) moved
        have holds := cost_le_balance sound solvent present (Or.inl queued) placed opened vaulted
        exact absurd holds (Nat.not_le.mpr lacks)
  | recover a =>
      have passes : recoverConstraints s a ≠ .error (.token .insufficientFunds) := by
        simp [recoverConstraints, Tokens.load, State.loadJob, State.loadMarket]
      simp [process, recover, passes, getDeposit_ne_insufficient] at failed
      obtain ⟨job, constraints, total, computed, moved⟩ := failed
      obtain ⟨present, placed, stopped, -, market, opened, vaulted⟩ :=
        recoverConstraints_eq_ok constraints
      obtain ⟨-, -, -, rfl⟩ := getDeposit_eq_ok.mp computed
      have lacks := transferFromVault_insufficient (vaulted ▸ sound.undelegated opened) moved
      have holds := cost_le_balance sound solvent present (Or.inr stopped) placed opened vaulted
      exact absurd holds (Nat.not_le.mpr lacks)
  | _ => cases pays

/-! Runs -/

/-- Every run keeps the vaults solvent, and a vault that took tokens only as deposits
holds exactly what is owed. -/
theorem run_solvent {s : State} (genesis : Genesis s) (actions : List Action)
    (ordinary : ∀ event ∈ trace s actions, event.action.Ordinary) :
    Sound (run s actions) ∧ (run s actions).board.Consistent ∧
      ∀ market, 0 ≤ surplus (run s actions) market ∧
        ((∀ event ∈ trace s actions,
          funds event.before.tokens market < funds event.after.tokens market →
          event.action.deposits market = true) → surplus (run s actions) market = 0) := by
  refine Machine.guarded_induction
    (P := fun past s => Sound s ∧ s.board.Consistent ∧ ∀ market, 0 ≤ surplus s market ∧
      ((∀ event ∈ past, funds event.before.tokens market < funds event.after.tokens market →
        event.action.deposits market = true) → surplus s market = 0))
    (fun event : Event => event.action.Ordinary) ?_ ?_ actions ordinary
  · refine ⟨genesis.sound, genesis.consistent, fun market => ?_⟩
    have empty : surplus s market = 0 := by
      simp only [surplus, owed, genesis.jobs, Finmap.total_empty, funds,
        Tokens.balance_of_absent (genesis.vaults (.jobsVault market id.nosToken) rfl)]
      rfl
    exact ⟨le_of_eq empty.symm, fun _ => empty⟩
  · intro past state action after kept success _ allowed
    have ⟨sound, consistent, solvent⟩ := kept
    refine ⟨sound_step sound allowed.1 success, consistent_step consistent allowed success,
      fun market => ?_⟩
    have ⟨nonneg, exact⟩ := solvent market
    rcases covered_step sound consistent allowed success market with same |
      ⟨more, grows, otherwise⟩
    · rw [← same]
      exact ⟨nonneg, fun only => exact fun event member => only event (by simp [member])⟩
    · refine ⟨by omega, fun only => ?_⟩
      have deposited := only ⟨state, action, after⟩ (by simp) grows
      rw [otherwise] at deposited
      cases deposited

/-- The vault of a market covers the deposits of all its queued and stopped jobs, holds
exactly these when tokens only reached it as deposits, and so no payout of a deposit
ever lacks funds. -/
theorem vault_solvent {s : State} (genesis : Genesis s) (actions : List Action)
    (ordinary : ∀ event ∈ trace s actions, event.action.Ordinary) :
    (∀ key market, (run s actions).markets.lookup key = some market →
      owed (run s actions).jobs key ≤ (run s actions).tokens.balance market.vault ∧
      ((∀ event ∈ trace s actions,
          event.before.tokens.balance market.vault < event.after.tokens.balance market.vault →
          event.action.deposits key = true) →
        owed (run s actions).jobs key = (run s actions).tokens.balance market.vault)) ∧
    ∀ ix : Instruction, ix.paysOut = true →
      process (run s actions) ix ≠ .error (.token .insufficientFunds) := by
  have ⟨sound, consistent, solvent⟩ := run_solvent genesis actions ordinary
  refine ⟨fun key market present => ?_, fun ix pays =>
    payout_funded sound consistent (fun market => (solvent market).1) pays⟩
  have ⟨covered, exact⟩ := solvent key
  rw [sound.vault present]
  refine ⟨Int.sub_nonneg.mp covered, fun only => ?_⟩
  exact (Int.sub_eq_zero.mp (exact only)).symm

omit [Runtime] in
theorem vault_solvent_sample :
    (∀ key market, (Sample.run Sample.matching).markets.lookup key = some market →
      owed (Sample.run Sample.matching).jobs key ≤
        (Sample.run Sample.matching).tokens.balance market.vault ∧
      ((∀ event ∈ Sample.trace Sample.matching,
          event.before.tokens.balance market.vault < event.after.tokens.balance market.vault →
          event.action.deposits key = true) →
        owed (Sample.run Sample.matching).jobs key =
          (Sample.run Sample.matching).tokens.balance market.vault)) ∧
    ∀ ix : Instruction, ix.paysOut = true →
      @process Sample.runtime (Sample.run Sample.matching) ix ≠
        .error (.token .insufficientFunds) :=
  @vault_solvent Sample.runtime _ Sample.genesis _ (by decide +kernel)

end Nosana.Jobs
