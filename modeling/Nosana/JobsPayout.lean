import Nosana.JobsLifecycle

set_option autoImplicit false

/- What the two settlements of a paid job pay, to the token. -/
namespace Nosana.Jobs

open Checked

/-! A settlement that meets its constraints succeeds -/

theorem getDeposit_of_cost {job : JobAccount} {timeout : Int} (paid : 0 < job.price)
    (positive : 0 ≤ timeout) (fits : job.cost timeout < 2 ^ 64) :
    job.getDeposit timeout = .ok (job.cost timeout) := by
  have short : timeout.toNat ≤ job.cost timeout := Nat.le_mul_of_pos_left _ paid
  exact getDeposit_eq_ok.mpr ⟨positive, by omega, fits, rfl⟩

theorem transferFromVault_of_funded {tokens : Tokens} {home destination owner : Pubkey}
    (amount : Nat) (wellFormed : tokens.WellFormed supplyCap)
    (vault : (tokens.lookup (.jobsVault home id.nosToken)).map TokenAccount.kind =
      some (id.nosToken, .jobsVault home id.nosToken))
    (receiver : (tokens.lookup destination).map TokenAccount.kind = some (id.nosToken, owner))
    (apart : destination ≠ .jobsVault home id.nosToken)
    (funded : amount ≤ tokens.balance (.jobsVault home id.nosToken)) :
    ∃ result, transferFromVault tokens home (.jobsVault home id.nosToken) destination amount =
      .ok result := by
  obtain ⟨sender, sent, kind⟩ := Option.map_eq_some_iff.mp vault
  obtain ⟨account, received, sort⟩ := Option.map_eq_some_iff.mp receiver
  obtain ⟨mint, -⟩ := Prod.mk.inj kind
  obtain ⟨other, -⟩ := Prod.mk.inj sort
  obtain ⟨result, moved⟩ := wellFormed.pays (by decide) rfl vault received other apart.symm funded
  exact ⟨result, transferFromVault_eq_ok.mpr ⟨sender, sent, by rw [mint], moved⟩⟩

/-- What a vault of the token holds fits in `u64`. -/
theorem lt_of_funded {tokens : Tokens} {vault : Pubkey} {amount : Nat}
    (wellFormed : tokens.WellFormed supplyCap)
    (kind : (tokens.lookup vault).map TokenAccount.kind = some (id.nosToken, vault))
    (funded : amount ≤ tokens.balance vault) : amount < 2 ^ 64 := by
  obtain ⟨account, present, same⟩ := Option.map_eq_some_iff.mp kind
  obtain ⟨mint, -⟩ := Prod.mk.inj same
  have bound := Tokens.amount_le_supply present
  have capped := wellFormed.capped
  rw [Tokens.balance_of_lookup present] at funded
  rw [mint] at bound
  exact Nat.lt_of_le_of_lt (funded.trans (bound.trans capped)) (by decide)

/-- Nothing in a settlement overflows, underflows or fails to convert when the vault
holds the deposit and the run did not start in the future. -/
theorem settle_of_funded {tokens : Tokens} {job : JobAccount}
    {home user deposit node payer : Pubkey} (wellFormed : tokens.WellFormed supplyCap)
    (paid : 0 < job.price) (positive : 0 ≤ job.timeout) (started : job.timeStart ≤ job.timeEnd)
    (fits : Signed 64 (job.timeEnd - job.timeStart))
    (vault : (tokens.lookup (.jobsVault home id.nosToken)).map TokenAccount.kind =
      some (id.nosToken, .jobsVault home id.nosToken))
    (userKind : (tokens.lookup user).map TokenAccount.kind = some (id.nosToken, node))
    (depositKind : (tokens.lookup deposit).map TokenAccount.kind = some (id.nosToken, payer))
    (userApart : user ≠ .jobsVault home id.nosToken)
    (depositApart : deposit ≠ .jobsVault home id.nosToken)
    (funded : job.cost job.timeout ≤ tokens.balance (.jobsVault home id.nosToken)) :
    ∃ result, settle tokens job home (.jobsVault home id.nosToken) user deposit = .ok result := by
  have covered := job.earned_le_cost
  have small := lt_of_funded wellFormed vault funded
  have total := getDeposit_of_cost paid positive small
  have reimbursed : job.getReimbursement = .ok job.earned := by
    refine getReimbursement_eq_ok.mpr ⟨fits, getDeposit_of_cost paid ?_ ?_⟩
    · exact le_min (Int.sub_nonneg.mpr started) positive
    · exact Nat.lt_of_le_of_lt covered small
  obtain ⟨middle, first⟩ := transferFromVault_of_funded job.earned wellFormed vault
    userKind userApart (covered.trans funded)
  have moved := transferFromVault_moved .rest first
  have left := transferFromVault_balance first (.jobsVault home id.nosToken)
  simp only [if_true, userApart.symm, if_false, Nat.add_zero] at left
  obtain ⟨result, second⟩ := transferFromVault_of_funded (job.cost job.timeout - job.earned)
    (moved.wellFormed wellFormed) ((moved.kind_eq _).trans vault)
    ((moved.kind_eq _).trans depositKind) depositApart (by omega)
  exact ⟨result, settle_eq_ok.mpr (Or.inr ⟨by omega, _, _, middle, total, reimbursed, covered,
    first, second⟩)⟩

/-! What the history of a run deposited -/

/-- The history knows the price of every live job and what was deposited for it. -/
def Recorded (past : List Event) (s : State) : Prop :=
  ∀ key job, s.jobs.lookup key = some job →
    (Record.ofHistory key past).price = job.price ∧
      (Record.ofHistory key past).deposited = job.cost job.timeout

theorem Recorded.next {past : List Event} {event : Event} (turn : ∀ key, Turn key event)
    (recorded : Recorded past event.before) : Recorded (past ++ [event]) event.after := by
  intro key next present
  rw [Record.ofHistory_concat]
  cases turn key with
  | other same record =>
      rw [record]
      exact recorded key next (same ▸ present)
  | created absent after queued record =>
      cases after.symm.trans present
      rw [record]
      exact ⟨rfl, rfl⟩
  | @extended job timeout before after queued record longer =>
      cases after.symm.trans present
      have ⟨price, deposited⟩ := recorded key job before
      have more := job.cost_mono (le_of_lt longer)
      rw [record]
      refine ⟨price, ?_⟩
      change _ + _ = job.cost timeout
      omega
  | @completed job ipfsResult before after record =>
      cases after.symm.trans present
      rw [record]
      exact recorded key job before
  | @ended job _ before after done price timeout record =>
      cases after.symm.trans present
      have ⟨asked, deposited⟩ := recorded key job before
      have same : next.cost next.timeout = job.cost job.timeout := by
        rw [JobAccount.cost, JobAccount.cost, price, timeout]
      rw [record, price, same]
      split <;> exact ⟨asked, deposited⟩
  | @quit job before after record =>
      cases after.symm.trans present
      rw [record]
      exact recorded key job before
  | closed before after =>
      cases after.symm.trans present

/-! The settlements -/

/-- A settlement of a job: the node's side receives the price for the time that passed,
up to the timeout, the payer's token account the rest, and the two add up to what was
deposited. -/
structure SettledExactly (history : List Event) (s s' : State) (key : Pubkey) (job : JobAccount)
    (run : RunAccount) (user deposit vault : Pubkey) : Prop where
  started : run.time ≤ s.clock
  payer : deposit = pda.associatedToken job.payer id.nosToken
  deposited : ((Record.ofHistory key history).deposited : Int) =
    (Record.ofHistory key history).price * job.timeout
  share : (0 : Int) ≤
      (Record.ofHistory key history).price * min (s.clock - run.time) job.timeout ∧
    (Record.ofHistory key history).price * min (s.clock - run.time) job.timeout ≤
      ((Record.ofHistory key history).deposited : Int)
  balances : ∀ other, (s'.tokens.balance other : Int) = s.tokens.balance other
    + (if other = user then
        (Record.ofHistory key history).price * min (s.clock - run.time) job.timeout else 0)
    + (if other = deposit then ((Record.ofHistory key history).deposited : Int) -
        (Record.ofHistory key history).price * min (s.clock - run.time) job.timeout else 0)
    - (if other = vault then ((Record.ofHistory key history).deposited : Int) else 0)

/-- A job account as `finish` and `end` leave it. -/
structure Ended (job ended : JobAccount) (run : RunAccount) (now : Int) : Prop where
  price : ended.price = job.price
  timeout : ended.timeout = job.timeout
  start : ended.timeStart = run.time
  finish : ended.timeEnd = now

/-- The settlement of a running job succeeds in a sound and solvent state. -/
theorem Running.settle_ok {s : State} (sound : Sound s) (solvent : ∀ market, 0 ≤ surplus s market)
    {key runKey marketKey : Pubkey} {job ended : JobAccount} {run : RunAccount}
    {market : MarketAccount} {user deposit vault node payer : Pubkey}
    (running : Running s key runKey marketKey job run market vault)
    (queued : job.state = JobState.queued.toU8) (paid : 0 < job.price)
    (same : Ended job ended run s.clock)
    (userKind : (s.tokens.lookup user).map TokenAccount.kind = some (id.nosToken, node))
    (depositKind : (s.tokens.lookup deposit).map TokenAccount.kind = some (id.nosToken, payer))
    (userApart : user ≠ vault) (depositApart : deposit ≠ .jobsVault marketKey id.nosToken) :
    ∃ tokens, settle s.tokens ended marketKey vault user deposit = .ok tokens := by
  have ⟨price, timeout, start, finish⟩ := same
  have named := running.vault sound
  have ⟨early, started⟩ := sound.runs runKey run running.live
  have ⟨_, vaultKind⟩ := sound.vaults marketKey market.vault (by rw [running.opened]; rfl)
  have funded := running.cost_le_balance sound solvent queued
  have total : ended.cost ended.timeout = job.cost job.timeout := by
    rw [JobAccount.cost, JobAccount.cost, price, timeout]
  rw [running.vaulted, named] at vaultKind
  rw [named] at userApart funded ⊢
  exact settle_of_funded sound.tokens (price ▸ paid)
    (timeout ▸ (sound.jobs key job running.present).2 paid) (by rw [start, finish]; exact started)
    (by rw [start, finish]; exact sound.clock.2.sub started early) vaultKind userKind depositKind
    userApart depositApart (total ▸ funded)

theorem finish_of_settle {s : State} {a : Accounts.Finish} {ipfsResult : IpfsHash}
    {job : JobAccount} {run : RunAccount} {tokens : Tokens}
    (constraints : finishConstraints s a = .ok (job, run))
    (result : ipfsResult ≠ JobAccount.nullResult)
    (settled : settle s.tokens (job.finish ipfsResult a.authority s.clock run.time) a.market
      a.vault a.user a.deposit = .ok tokens) :
    ∃ s', finish s a ipfsResult = .ok s' ∧ s'.tokens = tokens := by
  refine ⟨{ s with
    jobs := s.jobs.insert a.job (job.finish ipfsResult a.authority s.clock run.time)
    runs := s.runs.erase a.run
    tokens := tokens }, ?_, rfl⟩
  simp only [finish, bind_eq_ok, require_eq_ok, Prod.exists]
  exact ⟨job, run, constraints, (), result, tokens, settled, rfl⟩

theorem endJob_of_settle {s : State} {a : Accounts.End} {job : JobAccount} {run : RunAccount}
    {tokens : Tokens} (constraints : endConstraints s a = .ok (job, run))
    (settled : settle s.tokens (job.endJob run.time s.clock run.node) a.market a.vault a.user
      a.deposit = .ok tokens) :
    ∃ s', endJob s a = .ok s' ∧ s'.tokens = tokens := by
  refine ⟨{ s with
    jobs := s.jobs.insert a.job (job.endJob run.time s.clock run.node)
    runs := s.runs.erase a.run
    tokens := tokens }, ?_, rfl⟩
  simp only [endJob, bind_eq_ok, Prod.exists]
  exact ⟨job, run, constraints, tokens, settled, rfl⟩

/-- The balances after a settlement that succeeded. -/
theorem settledExactly_of_settle {past : List Event} {s s' : State} (sound : Sound s)
    (recorded : Recorded past s) {key runKey marketKey : Pubkey} {job ended : JobAccount}
    {run : RunAccount} {market : MarketAccount} {user deposit vault : Pubkey}
    (running : Running s key runKey marketKey job run market vault) (paid : 0 < job.price)
    (same : Ended job ended run s.clock)
    (payer : deposit = pda.associatedToken job.payer id.nosToken)
    (settled : settle s.tokens ended marketKey vault user deposit = .ok s'.tokens) :
    SettledExactly past s s' key job run user deposit vault := by
  have ⟨price, timeout, start, finish⟩ := same
  have ⟨asked, deposited⟩ := recorded key job running.present
  have positive := (sound.jobs key job running.present).2 paid
  have ⟨_, started⟩ := sound.runs runKey run running.live
  have total : ended.cost ended.timeout = job.cost job.timeout := by
    rw [JobAccount.cost, JobAccount.cost, price, timeout]
  have covered := ended.earned_le_cost
  have share : (ended.earned : Int) = job.price * min (s.clock - run.time) job.timeout := by
    have elapsed : 0 ≤ min (s.clock - run.time) job.timeout :=
      le_min (Int.sub_nonneg.mpr started) positive
    rw [JobAccount.earned, start, finish, timeout, cost_eq fun _ => elapsed, price]
  rw [total] at covered
  refine ⟨started, payer, ?_, ?_, fun other => ?_⟩
  · rw [deposited, asked, cost_eq fun _ => positive]
  · rw [deposited, asked, ← share]
    exact ⟨Int.natCast_nonneg _, Int.ofNat_le.mpr covered⟩
  · have balance := settle_balance settled other
    rw [total] at balance
    rw [deposited, asked, ← share]
    split_ifs at balance ⊢ <;> omega

variable [Runtime]

theorem run_recorded {s : State} (genesis : Genesis s) (actions : List Action)
    (ordinary : ∀ event ∈ trace s actions, event.action.Ordinary) :
    Recorded (trace s actions) (run s actions) := by
  refine (Machine.guarded_induction (P := fun past s => Sound s ∧ Recorded past s)
    (fun event : Event => event.action.Ordinary) ⟨genesis.sound, ?_⟩ ?_ actions ordinary).2
  · intro key job present
    simp [genesis.jobs] at present
  · intro past state action after kept success _ allowed
    have ⟨sound, recorded⟩ := kept
    exact ⟨sound_step sound allowed.1 success,
      recorded.next fun key => step_turn sound allowed.1 success key⟩

omit [Runtime] in
/-- An associated token account of the token holds the token. -/
theorem Sound.associated {s : State} (sound : Sound s) {wallet : Pubkey} {account : TokenAccount}
    (present : s.tokens.lookup (pda.associatedToken wallet id.nosToken) = some account) :
    (s.tokens.lookup (pda.associatedToken wallet id.nosToken)).map TokenAccount.kind =
      some (id.nosToken, account.owner) := by
  have mint : account.mint = id.nosToken := (sound.tokens.regular _ account present).addressed
  rw [present, ← mint]
  rfl

omit [Runtime] in
/-- When the constraints of `finish` hold, the settlement goes through. -/
theorem finish_settle_ok {s : State} (sound : Sound s) (solvent : ∀ market, 0 ≤ surplus s market)
    {a : Accounts.Finish} {job : JobAccount} {account : RunAccount}
    (constraints : finishConstraints s a = .ok (job, account)) (ipfsResult : IpfsHash) :
    ∃ tokens, settle s.tokens (job.finish ipfsResult a.authority s.clock account.time) a.market
      a.vault a.user a.deposit = .ok tokens := by
  obtain ⟨⟨market, running⟩, queued, apart, associated, ⟨refund, refundee⟩, receiver, received,
    mint⟩ := finishConstraints_eq_ok constraints
  rcases Nat.eq_zero_or_pos job.price with free | paid
  · exact ⟨_, settle_eq_ok.mpr (Or.inl ⟨free, rfl⟩)⟩
  · have payer := associated.resolve_left (by omega)
    have depositKind := sound.associated (payer ▸ refundee)
    rw [← payer] at depositKind
    have userKind : (s.tokens.lookup a.user).map TokenAccount.kind =
        some (id.nosToken, receiver.owner) := by
      rw [received, ← mint.resolve_left (by omega)]
      rfl
    have same :
      Ended job (job.finish ipfsResult a.authority s.clock account.time) account s.clock :=
      ⟨rfl, rfl, rfl, rfl⟩
    exact running.settle_ok sound solvent queued paid same userKind depositKind apart.symm
      (by rw [payer]; exact Pubkey.noConfusion)

theorem finish_exact {s : State} {history : List Event} (sound : Sound s)
    (solvent : ∀ market, 0 ≤ surplus s market) (recorded : Recorded history s)
    {a : Accounts.Finish} {ipfsResult : IpfsHash} {job : JobAccount} {account : RunAccount}
    (constraints : finishConstraints s a = .ok (job, account))
    (result : ipfsResult ≠ JobAccount.nullResult)
    (asked : 0 < (Record.ofHistory a.job history).price) :
    ∃ s', process s (.finish a ipfsResult) = .ok s' ∧
      SettledExactly history s s' a.job job account a.user a.deposit a.vault := by
  obtain ⟨⟨market, running⟩, -, -, associated, -⟩ := finishConstraints_eq_ok constraints
  have paid : 0 < job.price := (recorded a.job job running.present).1 ▸ asked
  have payer := associated.resolve_left (by omega)
  have same : Ended job (job.finish ipfsResult a.authority s.clock account.time) account s.clock :=
    ⟨rfl, rfl, rfl, rfl⟩
  obtain ⟨tokens, settled⟩ := finish_settle_ok sound solvent constraints ipfsResult
  obtain ⟨s', success, after⟩ := finish_of_settle constraints result settled
  exact ⟨s', success,
    settledExactly_of_settle sound recorded running paid same payer (after ▸ settled)⟩

omit [Runtime] in
/-- When the constraints of `end` hold, the settlement goes through. -/
theorem end_settle_ok {s : State} (sound : Sound s) (consistent : s.board.Consistent)
    (solvent : ∀ market, 0 ≤ surplus s market) {a : Accounts.End} {job : JobAccount}
    {account : RunAccount} (constraints : endConstraints s a = .ok (job, account)) :
    ∃ tokens, settle s.tokens (job.endJob account.time s.clock account.node) a.market a.vault
      a.user a.deposit = .ok tokens := by
  obtain ⟨⟨market, running⟩, apart, associated, ⟨refund, refundee⟩, receiver, received⟩ :=
    endConstraints_eq_ok constraints
  rcases Nat.eq_zero_or_pos job.price with free | paid
  · exact ⟨_, settle_eq_ok.mpr (Or.inl ⟨free, rfl⟩)⟩
  · have ⟨payer, node⟩ := associated.resolve_left (by omega)
    have depositKind := sound.associated (payer ▸ refundee)
    have userKind := sound.associated (node ▸ received)
    rw [← payer] at depositKind
    rw [← node] at userKind
    have same : Ended job (job.endJob account.time s.clock account.node) account s.clock :=
      ⟨rfl, rfl, rfl, rfl⟩
    exact running.settle_ok sound solvent (running.queued consistent) paid same userKind depositKind
      apart (by rw [payer]; exact Pubkey.noConfusion)

theorem end_exact {s : State} {history : List Event} (sound : Sound s)
    (consistent : s.board.Consistent) (solvent : ∀ market, 0 ≤ surplus s market)
    (recorded : Recorded history s) {a : Accounts.End} {job : JobAccount} {account : RunAccount}
    (constraints : endConstraints s a = .ok (job, account))
    (asked : 0 < (Record.ofHistory a.job history).price) :
    ∃ s', process s (.endJob a) = .ok s' ∧
      a.user = pda.associatedToken account.node id.nosToken ∧
      SettledExactly history s s' a.job job account a.user a.deposit a.vault := by
  obtain ⟨⟨market, running⟩, -, associated, -⟩ := endConstraints_eq_ok constraints
  have paid : 0 < job.price := (recorded a.job job running.present).1 ▸ asked
  have ⟨payer, node⟩ := associated.resolve_left (by omega)
  have same : Ended job (job.endJob account.time s.clock account.node) account s.clock :=
    ⟨rfl, rfl, rfl, rfl⟩
  obtain ⟨tokens, settled⟩ := end_settle_ok sound consistent solvent constraints
  obtain ⟨s', success, after⟩ := endJob_of_settle constraints settled
  exact ⟨s', success, node,
    settledExactly_of_settle sound recorded running paid same payer (after ▸ settled)⟩

/-- A paid job that was listed or assigned at a price is settled at that price whatever the
market asks now: `finish` and `end` then succeed at any later time, and pay the node's
side and the payer exactly what was deposited. -/
theorem settlement_exact {s : State} (genesis : Genesis s) (actions : List Action)
    (ordinary : ∀ event ∈ trace s actions, event.action.Ordinary) :
    (∀ a ipfsResult job account, finishConstraints (run s actions) a = .ok (job, account) →
      ipfsResult ≠ JobAccount.nullResult →
      0 < (Record.ofHistory a.job (trace s actions)).price →
      ∃ s', process (run s actions) (.finish a ipfsResult) = .ok s' ∧
        SettledExactly (trace s actions) (run s actions) s' a.job job account a.user a.deposit
          a.vault) ∧
    (∀ a job account, endConstraints (run s actions) a = .ok (job, account) →
      0 < (Record.ofHistory a.job (trace s actions)).price →
      ∃ s', process (run s actions) (.endJob a) = .ok s' ∧
        a.user = pda.associatedToken account.node id.nosToken ∧
        SettledExactly (trace s actions) (run s actions) s' a.job job account a.user a.deposit
          a.vault) := by
  have ⟨sound, consistent, solvent⟩ := run_solvent genesis actions ordinary
  have recorded := run_recorded genesis actions ordinary
  have solvent := fun market => (solvent market).1
  exact ⟨fun _ _ _ _ constraints result asked =>
      finish_exact sound solvent recorded constraints result asked,
    fun _ _ _ constraints asked => end_exact sound consistent solvent recorded constraints asked⟩

/-- The accounts with which the node of the sample chain posts its result. -/
def Sample.finishing : Accounts.Finish :=
  ⟨job, firstRun, market, vault, wallet project, wallet node, node, project, node⟩

omit [Runtime] in
theorem settlement_exact_sample :
    ∃ job account s', finishConstraints (Sample.run Sample.matching) Sample.finishing =
        .ok (job, account) ∧
      @process Sample.runtime (Sample.run Sample.matching)
        (.finish Sample.finishing Sample.ipfsResult) = .ok s' ∧
      SettledExactly (Sample.trace Sample.matching) (Sample.run Sample.matching) s' Sample.job job
        account (Sample.wallet Sample.node) (Sample.wallet Sample.project) Sample.vault := by
  have exact := (@settlement_exact Sample.runtime _ Sample.genesis Sample.matching
    (by decide +kernel)).1 Sample.finishing Sample.ipfsResult
  have meets : (finishConstraints (Sample.run Sample.matching) Sample.finishing).isOk = true := by
    decide +kernel
  cases constraints : finishConstraints (Sample.run Sample.matching) Sample.finishing with
  | error failure => simp [constraints, Except.isOk, Except.toBool] at meets
  | ok found =>
    obtain ⟨s', success, settled⟩ := exact found.1 found.2 constraints (by decide)
      (by decide +kernel)
    exact ⟨found.1, found.2, s', rfl, success, settled⟩

end Nosana.Jobs
