import Nosana.JobsProgram
import Nosana.JobsQueue

set_option autoImplicit false

/- What a successful step found and what it wrote, one case per behaviour. Every
invariant of the program is derived from these cases. -/
namespace Nosana.Jobs

open Checked

/-! Moving tokens -/

theorem getDeposit_eq_ok {job : JobAccount} {timeout : Int} {deposit : Nat} :
    job.getDeposit timeout = .ok deposit ↔
      0 ≤ timeout ∧ timeout < 2 ^ 64 ∧ job.price * timeout.toNat < 2 ^ 64 ∧
        deposit = job.price * timeout.toNat := by
  simp [JobAccount.getDeposit]
  grind

theorem getReimbursement_eq_ok {job : JobAccount} {amount : Nat} :
    job.getReimbursement = .ok amount ↔
      Signed 64 (job.timeEnd - job.timeStart) ∧
        job.getDeposit (min (job.timeEnd - job.timeStart) job.timeout) = .ok amount := by
  simp [JobAccount.getReimbursement]

theorem transferFromVault_eq_ok {tokens result : Tokens} {market vault destination : Pubkey}
    {amount : Nat} :
    transferFromVault tokens market vault destination amount = .ok result ↔
      ∃ account, tokens.lookup vault = some account ∧ vault = .jobsVault market account.mint ∧
        tokens.transfer vault destination vault amount = .ok result := by
  simp only [transferFromVault, Tokens.load, bind_eq_ok, get_eq_ok, require_eq_ok,
    exists_and_left, exists_const]

/-- The fee is disabled, so a deposit is one transfer into the vault. -/
theorem payDeposit_eq_ok {tokens result : Tokens} {job : JobAccount} {duration : Int}
    {user vault rewardsVault payer : Pubkey} :
    payDeposit tokens job duration user vault rewardsVault payer = .ok result ↔
      (job.price = 0 ∧ result = tokens) ∨
      (job.price ≠ 0 ∧ ∃ deposit, job.getDeposit duration = .ok deposit ∧
        tokens.transfer user vault payer deposit = .ok result) := by
  unfold payDeposit
  by_cases free : job.price = 0
  · simp [free, eq_comm (a := result)]
  · have disabled : ∀ deposit, networkFee deposit = 0 := fun _ => rfl
    simp [free, JobAccount.getDepositAndFee, disabled]

/-- The node is paid for the time it ran, up to the timeout, and the rest of the
deposit is refunded. -/
theorem settle_eq_ok {tokens result : Tokens} {job : JobAccount}
    {market vault user deposit : Pubkey} :
    settle tokens job market vault user deposit = .ok result ↔
      (job.price = 0 ∧ result = tokens) ∨
      (job.price ≠ 0 ∧ ∃ total amount paid, job.getDeposit job.timeout = .ok total ∧
        job.getReimbursement = .ok amount ∧ amount ≤ total ∧
        transferFromVault tokens market vault user amount = .ok paid ∧
        transferFromVault paid market vault deposit (total - amount) = .ok result) := by
  unfold settle
  by_cases free : job.price = 0
  · simp [free, eq_comm (a := result)]
  · simp [free]

/-! Steps -/

/-- A job is created for a market, and its deposit goes into the market's vault. -/
structure Posted (s : State) (key marketKey : Pubkey) (market : MarketAccount)
    (job : JobAccount) (user vault rewardsVault payer : Pubkey) (tokens : Tokens) : Prop where
  fresh : s.Vacant key
  present : s.markets.lookup marketKey = some market
  vaulted : market.vault = vault
  associated : market.jobPrice = 0 ∨ user = pda.associatedToken payer id.nosToken
  apart : user ≠ vault
  created : ∃ ipfsJob project timeout, job =
    JobAccount.zeroed.create ipfsJob marketKey payer market.jobPrice project timeout
  paid : payDeposit s.tokens job job.timeout user vault rewardsVault payer = .ok tokens

/-- A run of a job, with the job and its market. -/
structure Running (s : State) (key runKey marketKey : Pubkey) (job : JobAccount)
    (run : RunAccount) (market : MarketAccount) (vault : Pubkey) : Prop where
  present : s.jobs.lookup key = some job
  live : s.runs.lookup runKey = some run
  opened : s.markets.lookup marketKey = some market
  placed : job.market = marketKey
  started : run.job = key
  vaulted : market.vault = vault

/-- The deposit of a paid job goes back in full. -/
def Refunded (tokens result : Tokens) (job : JobAccount) (market vault deposit : Pubkey) : Prop :=
  (job.price = 0 ∧ result = tokens) ∨
  (job.price ≠ 0 ∧ ∃ total, job.getDeposit job.timeout = .ok total ∧
    transferFromVault tokens market vault deposit total = .ok result)

inductive Effect [Runtime] (s : State) : Action → State → Prop
  | openMarket {a : Accounts.Open} {expiration : Int} {price : Nat} {timeout : Int}
      {jobType : UInt8} {minimum : Nat} {market : MarketAccount}
      (fresh : s.Vacant a.market) (freshVault : s.Vacant a.vault)
      (seeds : a.vault = .jobsVault a.market id.nosToken)
      (initial : market = MarketAccount.init a.authority expiration price timeout
        (JobType.ofU8 jobType).toU8 a.accessKey minimum a.vault) :
      Effect s (.instruction (.openMarket a expiration price timeout jobType minimum))
        { s with
          markets := s.markets.insert a.market market
          tokens := s.tokens.insert a.vault (.holding id.nosToken a.vault 0) }
  | update {a : Accounts.Update} {expiration : Int} {price : Nat} {jobType : UInt8}
      {minimum : Nat} {timeout : Int} {market : MarketAccount}
      (present : s.markets.lookup a.market = some market) :
      Effect s (.instruction (.update a expiration price jobType minimum timeout))
        { s with
          markets := s.markets.insert a.market
            (market.update expiration price jobType a.accessKey minimum timeout) }
  | setSettings {a : Accounts.SetSettings} {market : MarketAccount}
      (present : s.markets.lookup a.market = some market) :
      Effect s (.instruction (.setSettings a))
        { s with
          markets := s.markets.insert a.market (market.restrict true)
          settings := s.settings.insert a.marketSettings ⟨a.projectAccessKey⟩ }
  | closeSettings {a : Accounts.CloseSettings} {market : MarketAccount}
      (present : s.markets.lookup a.market = some market) :
      Effect s (.instruction (.closeSettings a))
        { s with
          markets := s.markets.insert a.market (market.restrict false)
          settings := s.settings.erase a.marketSettings }
  | closeMarket {a : Accounts.Close} {action : Action} {next : State}
      (closing : action = .instruction (.close a) ∨ action = .instruction (.closeAdmin a))
      (markets : next.markets = s.markets.erase a.market) (jobs : next.jobs = s.jobs)
      (runs : next.runs = s.runs) :
      Effect s action next
  | listQueued {a : Accounts.List} {ipfsJob : IpfsHash} {timeout : Int}
      {market : MarketAccount} {job : JobAccount} {tokens : Tokens}
      (posted : Posted s a.job a.market market job a.user a.vault a.rewardsVault a.payer tokens)
      (waiting : market.queueType ≠ QueueType.node.toU8) (known : ¬ market.Unknown) :
      Effect s (.instruction (.list a ipfsJob timeout))
        { s with
          markets := s.markets.insert a.market (market.withLine (market.line.push .job a.job))
          jobs := s.jobs.insert a.job job
          tokens := tokens }
  | listStranded {a : Accounts.List} {ipfsJob : IpfsHash} {timeout : Int}
      {market : MarketAccount} {job : JobAccount} {tokens : Tokens}
      (posted : Posted s a.job a.market market job a.user a.vault a.rewardsVault a.payer tokens)
      (waiting : market.queueType ≠ QueueType.node.toU8) (unknown : market.Unknown) :
      Effect s (.instruction (.list a ipfsJob timeout))
        { s with
          markets := s.markets.insert a.market market
          jobs := s.jobs.insert a.job job
          tokens := tokens }
  | listMatched {a : Accounts.List} {ipfsJob : IpfsHash} {timeout : Int}
      {market : MarketAccount} {job : JobAccount} {tokens : Tokens} {node : Pubkey}
      {rest : List Pubkey}
      (posted : Posted s a.job a.market market job a.user a.vault a.rewardsVault a.payer tokens)
      (waiting : market.queueType = QueueType.node.toU8) (first : market.queue = node :: rest)
      (freshRun : s.Vacant a.run) :
      Effect s (.instruction (.list a ipfsJob timeout))
        { s with
          markets := s.markets.insert a.market (market.withLine (market.line.remove node))
          jobs := s.jobs.insert a.job job
          runs := s.runs.insert a.run (RunAccount.zeroed.create a.job node a.payer s.clock)
          tokens := tokens }
  | assign {a : Accounts.Assign} {ipfsJob : IpfsHash} {timeout : Int}
      {market : MarketAccount} {job : JobAccount} {tokens : Tokens}
      (posted : Posted s a.job a.market market job a.user a.vault a.rewardsVault a.payer tokens)
      (waiting : market.queueType = QueueType.node.toU8) (queued : a.node ∈ market.queue)
      (freshRun : s.Vacant a.run) :
      Effect s (.instruction (.assign a ipfsJob timeout))
        { s with
          markets := s.markets.insert a.market (market.withLine (market.line.remove a.node))
          jobs := s.jobs.insert a.job job
          runs := s.runs.insert a.run (RunAccount.zeroed.create a.job a.node a.payer s.clock)
          tokens := tokens }
  | extend {a : Accounts.Extend} {timeout : Int} {market : MarketAccount} {job : JobAccount}
      {tokens : Tokens}
      (present : s.jobs.lookup a.job = some job)
      (placed : job.market = a.market) (opened : s.markets.lookup a.market = some market)
      (vaulted : market.vault = a.vault)
      (associated : job.price = 0 ∨ a.user = pda.associatedToken a.payer id.nosToken)
      (queued : job.state = JobState.queued.toU8) (apart : a.user ≠ a.vault)
      (longer : job.timeout < timeout)
      (paid : payDeposit s.tokens (job.updateTimeout timeout) (timeout - job.timeout) a.user
        a.vault a.rewardsVault a.payer = .ok tokens) :
      Effect s (.instruction (.extend a timeout))
        { s with jobs := s.jobs.insert a.job (job.updateTimeout timeout), tokens := tokens }
  | delist {a : Accounts.Delist} {market : MarketAccount} {job : JobAccount} {tokens : Tokens}
      (present : s.jobs.lookup a.job = some job) (placed : job.market = a.market)
      (opened : s.markets.lookup a.market = some market) (vaulted : market.vault = a.vault)
      (queued : job.state = JobState.queued.toU8)
      (waiting : market.queueType = QueueType.job.toU8) (member : a.job ∈ market.queue)
      (apart : a.deposit ≠ a.vault)
      (refunded : Refunded s.tokens tokens job a.market a.vault a.deposit) :
      Effect s (.instruction (.delist a))
        { s with
          markets := s.markets.insert a.market (market.withLine (market.line.remove a.job))
          jobs := s.jobs.erase a.job
          tokens := tokens }
  | recover {a : Accounts.Recover} {market : MarketAccount} {job : JobAccount}
      {tokens : Tokens} {total : Nat}
      (present : s.jobs.lookup a.job = some job) (placed : job.market = a.market)
      (opened : s.markets.lookup a.market = some market) (vaulted : market.vault = a.vault)
      (stopped : job.state = JobState.stopped.toU8) (apart : a.vault ≠ a.user)
      (amount : job.getDeposit job.timeout = .ok total)
      (refunded : transferFromVault s.tokens a.market a.vault a.user total = .ok tokens) :
      Effect s (.instruction (.recover a))
        { s with jobs := s.jobs.erase a.job, tokens := tokens }
  | endJob {a : Accounts.End} {market : MarketAccount} {job : JobAccount} {run : RunAccount}
      {tokens : Tokens}
      (running : Running s a.job a.run a.market job run market a.vault)
      (apart : a.user ≠ a.vault)
      (associated : job.price = 0 ∨ (a.deposit = pda.associatedToken job.payer id.nosToken ∧
        a.user = pda.associatedToken run.node id.nosToken))
      (settled : settle s.tokens (job.endJob run.time s.clock run.node) a.market a.vault a.user
        a.deposit = .ok tokens) :
      Effect s (.instruction (.endJob a))
        { s with
          jobs := s.jobs.insert a.job (job.endJob run.time s.clock run.node)
          runs := s.runs.erase a.run
          tokens := tokens }
  | workQueued {a : Accounts.Work} {market : MarketAccount}
      (present : s.markets.lookup a.market = some market)
      (waiting : market.queueType ≠ QueueType.job.toU8) (absent : a.authority ∉ market.queue)
      (known : ¬ market.Unknown) :
      Effect s (.instruction (.work a))
        { s with
          markets := s.markets.insert a.market
            (market.withLine (market.line.push .node a.authority)) }
  | workIgnored {a : Accounts.Work} {market : MarketAccount}
      (present : s.markets.lookup a.market = some market)
      (waiting : market.queueType ≠ QueueType.job.toU8) (unknown : market.Unknown) :
      Effect s (.instruction (.work a))
        { s with markets := s.markets.insert a.market market }
  | workMatched {a : Accounts.Work} {market : MarketAccount} {job : Pubkey} {rest : List Pubkey}
      (present : s.markets.lookup a.market = some market)
      (waiting : market.queueType = QueueType.job.toU8) (first : market.queue = job :: rest)
      (freshRun : s.Vacant a.run) :
      Effect s (.instruction (.work a))
        { s with
          markets := s.markets.insert a.market (market.withLine (market.line.remove job))
          runs := s.runs.insert a.run (RunAccount.zeroed.create job a.authority a.payer s.clock) }
  | stop {a : Accounts.Stop} {market : MarketAccount}
      (present : s.markets.lookup a.market = some market)
      (waiting : market.queueType = QueueType.node.toU8) (member : a.node ∈ market.queue) :
      Effect s (.instruction (.stop a))
        { s with
          markets := s.markets.insert a.market (market.withLine (market.line.remove a.node)) }
  | complete {a : Accounts.Complete} {ipfsResult : IpfsHash} {job : JobAccount}
      (present : s.jobs.lookup a.job = some job) (done : job.state = JobState.done.toU8) :
      Effect s (.instruction (.complete a ipfsResult))
        { s with jobs := s.jobs.insert a.job (job.complete ipfsResult) }
  | finish {a : Accounts.Finish} {ipfsResult : IpfsHash} {market : MarketAccount}
      {job : JobAccount} {run : RunAccount} {tokens : Tokens}
      (running : Running s a.job a.run a.market job run market a.vault)
      (queued : job.state = JobState.queued.toU8) (apart : a.vault ≠ a.user)
      (associated : job.price = 0 ∨ a.deposit = pda.associatedToken job.payer id.nosToken)
      (settled : settle s.tokens (job.finish ipfsResult a.authority s.clock run.time) a.market
        a.vault a.user a.deposit = .ok tokens) :
      Effect s (.instruction (.finish a ipfsResult))
        { s with
          jobs := s.jobs.insert a.job (job.finish ipfsResult a.authority s.clock run.time)
          runs := s.runs.erase a.run
          tokens := tokens }
  | quit {a : Accounts.Quit} {job : JobAccount} {run : RunAccount}
      (present : s.jobs.lookup a.job = some job) (live : s.runs.lookup a.run = some run)
      (started : run.job = a.job) :
      Effect s (.instruction (.quit a))
        { s with jobs := s.jobs.insert a.job job.quit, runs := s.runs.erase a.run }
  | quitAdmin {a : Accounts.QuitAdmin} :
      Effect s (.instruction (.quitAdmin a)) { s with runs := s.runs.erase a.run }
  | clean {a : Accounts.Clean} {job : JobAccount}
      (present : s.jobs.lookup a.job = some job) (done : job.state = JobState.done.toU8) :
      Effect s (.instruction (.clean a)) { s with jobs := s.jobs.erase a.job }
  | cleanAdmin {a : Accounts.CleanAdmin} {job : JobAccount}
      (present : s.jobs.lookup a.job = some job) :
      Effect s (.instruction (.cleanAdmin a)) { s with jobs := s.jobs.erase a.job }
  | tick {now : Int} (later : s.clock ≤ now) (fits : Signed 64 now) :
      Effect s (.tick now) { s with clock := now }
  | external {tokens : Tokens} (external : Tokens.External isVault supplyCap s.tokens tokens) :
      Effect s (.external tokens) { s with tokens := tokens }

@[simp] theorem loadMarket_eq_ok {s : State} {key : Pubkey} {market : MarketAccount} :
    s.loadMarket key = .ok market ↔ s.markets.lookup key = some market := get_eq_ok _ _ _

@[simp] theorem loadJob_eq_ok {s : State} {key : Pubkey} {job : JobAccount} :
    s.loadJob key = .ok job ↔ s.jobs.lookup key = some job := get_eq_ok _ _ _

@[simp] theorem loadRun_eq_ok {s : State} {key : Pubkey} {run : RunAccount} :
    s.loadRun key = .ok run ↔ s.runs.lookup key = some run := get_eq_ok _ _ _

/-- Of a token account that is loaded and not read, only that it is there matters. -/
theorem exists_loaded {tokens : Tokens} {key : Pubkey} {rest : Prop} :
    (∃ account, tokens.lookup key = some account ∧ rest) ↔ key ∈ tokens ∧ rest := by
  rw [exists_and_right, Finmap.mem_iff]

section

variable [Runtime] {s s' : State}

theorem openMarket_effect {a : Accounts.Open} {expiration : Int} {price : Nat} {timeout : Int}
    {jobType : UInt8} {minimum : Nat}
    (success : openMarket s a expiration price timeout jobType minimum = .ok s') :
    Effect s (.instruction (.openMarket a expiration price timeout jobType minimum)) s' := by
  simp only [openMarket, bind_eq_ok, require_eq_ok, pure_eq_ok, exists_const] at success
  obtain ⟨mint, fresh, seeds, freshVault, rfl⟩ := success
  rw [mint] at seeds ⊢
  exact .openMarket fresh freshVault seeds rfl

theorem update_effect {a : Accounts.Update} {expiration : Int} {price : Nat} {jobType : UInt8}
    {minimum : Nat} {timeout : Int}
    (success : update s a expiration price jobType minimum timeout = .ok s') :
    Effect s (.instruction (.update a expiration price jobType minimum timeout)) s' := by
  simp only [update, bind_eq_ok, loadMarket_eq_ok, require_eq_ok, pure_eq_ok,
    exists_const] at success
  obtain ⟨market, present, -, rfl⟩ := success
  exact .update present

theorem setSettings_effect {a : Accounts.SetSettings} (success : setSettings s a = .ok s') :
    Effect s (.instruction (.setSettings a)) s' := by
  simp only [setSettings, bind_eq_ok, loadMarket_eq_ok, require_eq_ok, pure_eq_ok,
    exists_const] at success
  obtain ⟨market, present, -, -, -, rfl⟩ := success
  exact .setSettings present

theorem closeSettings_effect {a : Accounts.CloseSettings} (success : closeSettings s a = .ok s') :
    Effect s (.instruction (.closeSettings a)) s' := by
  simp only [closeSettings, bind_eq_ok, loadMarket_eq_ok, require_eq_ok, pure_eq_ok,
    exists_const] at success
  obtain ⟨market, present, -, -, -, rfl⟩ := success
  exact .closeSettings present

omit [Runtime] in
theorem closeVaultAndMarket_eq_ok {a : Accounts.Close} {market : MarketAccount}
    (success : closeVaultAndMarket s a market = .ok s') :
    s'.markets = s.markets.erase a.market ∧ s'.jobs = s.jobs ∧ s'.runs = s.runs := by
  simp only [closeVaultAndMarket, Tokens.load, bind_eq_ok, get_eq_ok, require_eq_ok, pure_eq_ok,
    exists_and_left, exists_and_right, exists_const] at success
  obtain ⟨-, -, vault, -, -, -, -, emptied, -, rfl⟩ := success
  unfold State.closeSettingsAccount
  split <;> exact ⟨rfl, rfl, rfl⟩

theorem close_effect {a : Accounts.Close} (success : close s a = .ok s') :
    Effect s (.instruction (.close a)) s' := by
  simp only [close, bind_eq_ok, loadMarket_eq_ok, require_eq_ok, exists_const] at success
  obtain ⟨market, -, -, closed⟩ := success
  obtain ⟨markets, jobs, runs⟩ := closeVaultAndMarket_eq_ok closed
  exact .closeMarket (Or.inl rfl) markets jobs runs

theorem closeAdmin_effect {a : Accounts.Close} (success : closeAdmin s a = .ok s') :
    Effect s (.instruction (.closeAdmin a)) s' := by
  simp only [closeAdmin, bind_eq_ok, loadMarket_eq_ok, require_eq_ok, exists_const] at success
  obtain ⟨market, -, -, closed⟩ := success
  obtain ⟨markets, jobs, runs⟩ := closeVaultAndMarket_eq_ok closed
  exact .closeMarket (Or.inr rfl) markets jobs runs

omit [Runtime] in
@[simp] theorem initializeRun_eq_ok {payer run job node : Pubkey} :
    initializeRun s payer run job node = .ok s' ↔ s.Vacant run ∧
      { s with
        runs := s.runs.insert run (RunAccount.zeroed.create job node payer s.clock) } = s' := by
  simp only [initializeRun, bind_eq_ok, require_eq_ok, pure_eq_ok, exists_const]

theorem listConstraints_eq_ok {a : Accounts.List} {market : MarketAccount}
    (success : listConstraints s a = .ok market) (ipfsJob : IpfsHash) (timeout : Int)
    {tokens : Tokens}
    (paid : payDeposit s.tokens
      (JobAccount.zeroed.create ipfsJob a.market a.payer market.jobPrice a.authority timeout)
      timeout a.user a.vault a.rewardsVault a.payer = .ok tokens) :
    s.Vacant a.run ∧ Posted s a.job a.market market
      (JobAccount.zeroed.create ipfsJob a.market a.payer market.jobPrice a.authority timeout)
      a.user a.vault a.rewardsVault a.payer tokens := by
  simp only [listConstraints, Tokens.load, bind_eq_ok, get_eq_ok, loadMarket_eq_ok,
    require_eq_ok, pure_eq_ok, exists_and_left, exists_and_right, exists_const] at success
  obtain ⟨fresh, _, present, vaulted, -, ⟨freshRun, -⟩, -, associated, -, -, apart, -, rfl⟩ :=
    success
  refine ⟨freshRun, fresh, present, vaulted, associated, ?_, ⟨_, _, _, rfl⟩, paid⟩
  intro same
  simp [same] at apart

theorem assignConstraints_eq_ok {a : Accounts.Assign} {market : MarketAccount}
    (success : assignConstraints s a = .ok market) (ipfsJob : IpfsHash) (timeout : Int)
    {tokens : Tokens}
    (paid : payDeposit s.tokens
      (JobAccount.zeroed.create ipfsJob a.market a.payer market.jobPrice a.authority timeout)
      timeout a.user a.vault a.rewardsVault a.payer = .ok tokens) :
    market.queueType = QueueType.node.toU8 ∧ s.Vacant a.run ∧
    Posted s a.job a.market market
      (JobAccount.zeroed.create ipfsJob a.market a.payer market.jobPrice a.authority timeout)
      a.user a.vault a.rewardsVault a.payer tokens := by
  simp only [assignConstraints, Tokens.load, bind_eq_ok, get_eq_ok, loadMarket_eq_ok,
    require_eq_ok, pure_eq_ok, exists_and_left, exists_and_right, exists_const] at success
  obtain ⟨fresh, _, present, vaulted, waiting, ⟨freshRun, -⟩, -, associated, -, -, apart, -, rfl⟩ :=
    success
  refine ⟨waiting, freshRun, fresh, present, vaulted, associated, ?_, ⟨_, _, _, rfl⟩, paid⟩
  intro same
  simp [same] at apart

theorem list_effect {a : Accounts.List} {ipfsJob : IpfsHash} {timeout : Int}
    (success : list s a ipfsJob timeout = .ok s') :
    Effect s (.instruction (.list a ipfsJob timeout)) s' := by
  simp only [list, bind_eq_ok, pure_eq_ok, Prod.exists] at success
  obtain ⟨market, constraints, written, queued, placed, tokens, paid, _, exited, rfl⟩ := success
  obtain ⟨-, rfl⟩ := MarketAccount.exit_eq_ok.mp exited
  cases side : QueueType.ofU8 market.queueType with
  | node =>
      have waiting := (QueueType.ofU8_eq_node _).mp side
      simp only [side, bind_eq_ok, Prod.exists, MarketAccount.popFromQueue_eq_ok,
        initializeRun_eq_ok, pure_eq_ok, Prod.mk.injEq] at placed
      obtain ⟨node, _, ⟨rest, first, rfl⟩, _, ⟨-, rfl⟩, rfl, rfl⟩ := placed
      obtain ⟨freshRun, posted⟩ := listConstraints_eq_ok constraints ipfsJob timeout paid
      exact .listMatched posted waiting first freshRun
  | job | empty =>
      have waiting : market.queueType ≠ QueueType.node.toU8 := by
        rw [Ne, ← QueueType.ofU8_eq_node, side]
        decide
      simp only [side, pure_eq_ok, Prod.mk.injEq] at placed
      obtain ⟨rfl, rfl⟩ := placed
      obtain ⟨-, posted⟩ := listConstraints_eq_ok constraints ipfsJob timeout paid
      by_cases unknown : market.Unknown
      · rw [MarketAccount.addToQueue_of_unknown unknown]
        exact .listStranded posted waiting unknown
      · rw [MarketAccount.addToQueue_of_known unknown]
        exact .listQueued posted waiting unknown

theorem assign_effect {a : Accounts.Assign} {ipfsJob : IpfsHash} {timeout : Int}
    (success : assign s a ipfsJob timeout = .ok s') :
    Effect s (.instruction (.assign a ipfsJob timeout)) s' := by
  simp only [assign, bind_eq_ok, pure_eq_ok, MarketAccount.removeFromQueue_eq_ok] at success
  obtain ⟨market, constraints, _, ⟨queued, rfl⟩, tokens, paid, rfl⟩ := success
  obtain ⟨waiting, freshRun, posted⟩ := assignConstraints_eq_ok constraints ipfsJob timeout paid
  exact .assign posted waiting queued freshRun

theorem extend_effect {a : Accounts.Extend} {timeout : Int}
    (success : extend s a timeout = .ok s') :
    Effect s (.instruction (.extend a timeout)) s' := by
  simp only [extend, Tokens.load, bind_eq_ok, get_eq_ok, loadJob_eq_ok, loadMarket_eq_ok,
    require_eq_ok, subSigned, checked_eq_ok, pure_eq_ok, exists_and_left, exists_and_right,
    exists_const] at success
  obtain ⟨job, present, market, opened, placed, -, -, queued, vaulted, -, associated, -, -, apart,
    longer, _, ⟨-, rfl⟩, tokens, paid, rfl⟩ := success
  refine .extend present placed opened vaulted associated queued ?_ longer paid
  intro same
  simp [same] at apart

omit [Runtime] in
theorem delistConstraints_eq_ok {a : Accounts.Delist} {job : JobAccount} {market : MarketAccount}
    (success : delistConstraints s a = .ok (job, market)) :
    s.jobs.lookup a.job = some job ∧ s.markets.lookup a.market = some market ∧
      job.market = a.market ∧ job.state = JobState.queued.toU8 ∧ market.vault = a.vault ∧
      market.queueType = QueueType.job.toU8 ∧ a.deposit ≠ a.vault := by
  simp only [delistConstraints, Tokens.load, bind_eq_ok, get_eq_ok, loadJob_eq_ok,
    loadMarket_eq_ok, require_eq_ok, pure_eq_ok, exists_and_left, exists_and_right, exists_const,
    Prod.mk.injEq] at success
  obtain ⟨_, present, _, opened, -, placed, -, queued, vaulted, waiting, -, -, -, apart, rfl,
    rfl⟩ := success
  exact ⟨present, opened, placed, queued, vaulted, waiting, apart⟩

theorem delist_effect {a : Accounts.Delist} (success : delist s a = .ok s') :
    Effect s (.instruction (.delist a)) s' := by
  simp only [delist, bind_eq_ok, pure_eq_ok, MarketAccount.removeFromQueue_eq_ok,
    Prod.exists] at success
  obtain ⟨job, market, constraints, _, ⟨member, rfl⟩, tokens, refunded, rfl⟩ := success
  obtain ⟨present, opened, placed, queued, vaulted, waiting, apart⟩ :=
    delistConstraints_eq_ok constraints
  refine .delist present placed opened vaulted queued waiting member apart ?_
  by_cases free : job.price = 0
  · simp only [free, if_true, Except.ok.injEq] at refunded
    exact Or.inl ⟨free, refunded.symm⟩
  · simp only [free, if_false, bind_eq_ok] at refunded
    exact Or.inr ⟨free, refunded⟩

omit [Runtime] in
theorem recoverConstraints_eq_ok {a : Accounts.Recover} {job : JobAccount}
    (success : recoverConstraints s a = .ok job) :
    s.jobs.lookup a.job = some job ∧ job.market = a.market ∧
      job.state = JobState.stopped.toU8 ∧ a.vault ≠ a.user ∧
      ∃ market, s.markets.lookup a.market = some market ∧ market.vault = a.vault := by
  simp only [recoverConstraints, Tokens.load, bind_eq_ok, get_eq_ok, loadJob_eq_ok,
    loadMarket_eq_ok, require_eq_ok, pure_eq_ok, exists_and_left, exists_and_right,
    exists_const] at success
  obtain ⟨_, present, market, opened, -, placed, -, stopped, vaulted, -, -, apart, rfl⟩ := success
  exact ⟨present, placed, stopped, apart, market, opened, vaulted⟩

theorem recover_effect {a : Accounts.Recover} (success : recover s a = .ok s') :
    Effect s (.instruction (.recover a)) s' := by
  simp only [recover, bind_eq_ok, pure_eq_ok] at success
  obtain ⟨job, constraints, total, amount, tokens, refunded, rfl⟩ := success
  obtain ⟨present, placed, stopped, apart, market, opened, vaulted⟩ :=
    recoverConstraints_eq_ok constraints
  exact .recover present placed opened vaulted stopped apart amount refunded

omit [Runtime] in
theorem endConstraints_eq_ok {a : Accounts.End} {job : JobAccount} {run : RunAccount}
    (success : endConstraints s a = .ok (job, run)) :
    (∃ market, Running s a.job a.run a.market job run market a.vault) ∧ a.user ≠ a.vault ∧
      (job.price = 0 ∨ (a.deposit = pda.associatedToken job.payer id.nosToken ∧
        a.user = pda.associatedToken run.node id.nosToken)) ∧
      (∃ account, s.tokens.lookup a.deposit = some account) ∧
      ∃ account, s.tokens.lookup a.user = some account := by
  simp only [endConstraints, Tokens.load, bind_eq_ok, get_eq_ok, loadJob_eq_ok,
    loadMarket_eq_ok, loadRun_eq_ok, require_eq_ok, pure_eq_ok, exists_and_left, exists_and_right,
    exists_const, Prod.mk.injEq] at success
  obtain ⟨_, present, market, opened, _, live, placed, -, vaulted, -, started, deposit, refunded,
    user, paid, -, apart, rfl, rfl⟩ := success
  refine ⟨⟨market, present, live, opened, placed, started, vaulted⟩, apart, ?_, deposit, user⟩
  rcases refunded with free | refunded
  · exact Or.inl free
  · exact paid.imp_right fun paid => ⟨refunded, paid⟩

theorem endJob_effect {a : Accounts.End} (success : endJob s a = .ok s') :
    Effect s (.instruction (.endJob a)) s' := by
  simp only [endJob, bind_eq_ok, pure_eq_ok, Prod.exists] at success
  obtain ⟨job, run, constraints, tokens, settled, rfl⟩ := success
  obtain ⟨⟨market, running⟩, apart, associated, -⟩ := endConstraints_eq_ok constraints
  exact .endJob running apart associated settled

theorem work_effect {a : Accounts.Work} (success : work s a = .ok s') :
    Effect s (.instruction (.work a)) s' := by
  simp only [work, workConstraints, Tokens.load, bind_eq_ok, get_eq_ok, loadMarket_eq_ok,
    require_eq_ok, pure_eq_ok, exists_and_left, exists_const, Prod.exists] at success
  obtain ⟨_, ⟨-, freshRun, market, present, absent, -, -, -, nft, -, -, -, -, rfl⟩, written,
    queued, placed, _, exited, rfl⟩ := success
  obtain ⟨-, rfl⟩ := MarketAccount.exit_eq_ok.mp exited
  cases side : QueueType.ofU8 market.queueType with
  | job =>
      have waiting := (QueueType.ofU8_eq_job _).mp side
      simp only [side, bind_eq_ok, Prod.exists, MarketAccount.popFromQueue_eq_ok,
        initializeRun_eq_ok, pure_eq_ok, Prod.mk.injEq] at placed
      obtain ⟨job, _, ⟨rest, first, rfl⟩, _, ⟨-, rfl⟩, rfl, rfl⟩ := placed
      exact .workMatched present waiting first freshRun
  | node | empty =>
      have waiting : market.queueType ≠ QueueType.job.toU8 := by
        rw [Ne, ← QueueType.ofU8_eq_job, side]
        decide
      simp only [side, pure_eq_ok, Prod.mk.injEq] at placed
      obtain ⟨rfl, rfl⟩ := placed
      by_cases unknown : market.Unknown
      · rw [MarketAccount.addToQueue_of_unknown unknown]
        exact .workIgnored present waiting unknown
      · rw [MarketAccount.addToQueue_of_known unknown]
        have outside := ((MarketAccount.nodeConstraint_iff _ _ _).mp absent).resolve_left waiting
        exact .workQueued present waiting outside unknown

theorem stop_effect {a : Accounts.Stop} (success : stop s a = .ok s') :
    Effect s (.instruction (.stop a)) s' := by
  simp only [stop, bind_eq_ok, loadMarket_eq_ok, require_eq_ok, pure_eq_ok,
    MarketAccount.removeFromQueue_eq_ok, exists_const] at success
  obtain ⟨market, present, waiting, -, _, ⟨member, rfl⟩, rfl⟩ := success
  exact .stop present waiting member

theorem complete_effect {a : Accounts.Complete} {ipfsResult : IpfsHash}
    (success : complete s a ipfsResult = .ok s') :
    Effect s (.instruction (.complete a ipfsResult)) s' := by
  simp only [complete, bind_eq_ok, loadJob_eq_ok, require_eq_ok, pure_eq_ok,
    exists_const] at success
  obtain ⟨job, present, done, -, -, -, rfl⟩ := success
  exact .complete present done

omit [Runtime] in
theorem finishConstraints_eq_ok {a : Accounts.Finish} {job : JobAccount} {run : RunAccount}
    (success : finishConstraints s a = .ok (job, run)) :
    (∃ market, Running s a.job a.run a.market job run market a.vault) ∧
      job.state = JobState.queued.toU8 ∧ a.vault ≠ a.user ∧
      (job.price = 0 ∨ a.deposit = pda.associatedToken job.payer id.nosToken) ∧
      (∃ account, s.tokens.lookup a.deposit = some account) ∧
      ∃ account, s.tokens.lookup a.user = some account ∧
        (job.price = 0 ∨ account.mint = id.nosToken) := by
  simp only [finishConstraints, Tokens.load, bind_eq_ok, get_eq_ok, loadJob_eq_ok,
    loadMarket_eq_ok, loadRun_eq_ok, require_eq_ok, pure_eq_ok, exists_and_left, exists_and_right,
    exists_const, Prod.mk.injEq] at success
  obtain ⟨_, present, _, live, market, opened, placed, payer, queued, -, started, -, vaulted, -,
    deposit, refunded, user, found, mint, apart, rfl, rfl⟩ := success
  rw [← payer] at refunded
  exact ⟨⟨market, present, live, opened, placed, started, vaulted⟩, queued, apart, refunded,
    deposit, user, found, mint⟩

theorem finish_effect {a : Accounts.Finish} {ipfsResult : IpfsHash}
    (success : finish s a ipfsResult = .ok s') :
    Effect s (.instruction (.finish a ipfsResult)) s' := by
  simp only [finish, bind_eq_ok, require_eq_ok, pure_eq_ok, exists_const, Prod.exists] at success
  obtain ⟨job, run, constraints, -, tokens, settled, rfl⟩ := success
  obtain ⟨⟨market, running⟩, queued, apart, associated, -⟩ := finishConstraints_eq_ok constraints
  exact .finish running queued apart associated settled

theorem quit_effect {a : Accounts.Quit} (success : quit s a = .ok s') :
    Effect s (.instruction (.quit a)) s' := by
  simp only [quit, bind_eq_ok, loadJob_eq_ok, loadRun_eq_ok, require_eq_ok, pure_eq_ok,
    exists_const] at success
  obtain ⟨job, present, run, live, started, -, -, rfl⟩ := success
  exact .quit present live started

theorem quitAdmin_effect {a : Accounts.QuitAdmin} (success : quitAdmin s a = .ok s') :
    Effect s (.instruction (.quitAdmin a)) s' := by
  simp only [quitAdmin, bind_eq_ok, loadRun_eq_ok, require_eq_ok, pure_eq_ok,
    exists_const] at success
  obtain ⟨run, -, -, -, rfl⟩ := success
  exact .quitAdmin

theorem clean_effect {a : Accounts.Clean} (success : clean s a = .ok s') :
    Effect s (.instruction (.clean a)) s' := by
  simp only [clean, bind_eq_ok, loadJob_eq_ok, loadMarket_eq_ok, require_eq_ok, pure_eq_ok,
    exists_const] at success
  obtain ⟨job, present, market, -, -, done, age, -, -, rfl⟩ := success
  exact .clean present done

theorem cleanAdmin_effect {a : Accounts.CleanAdmin} (success : cleanAdmin s a = .ok s') :
    Effect s (.instruction (.cleanAdmin a)) s' := by
  simp only [cleanAdmin, bind_eq_ok, loadJob_eq_ok, require_eq_ok, pure_eq_ok,
    exists_const] at success
  obtain ⟨job, present, -, -, rfl⟩ := success
  exact .cleanAdmin present

/-- Every successful step is one of the effects. -/
theorem step_effect {action : Action} (success : step s action = .ok s') :
    Effect s action s' := by
  cases action with
  | tick now =>
      simp only [step, bind_eq_ok, require_eq_ok, pure_eq_ok, exists_const] at success
      obtain ⟨⟨later, fits⟩, rfl⟩ := success
      exact .tick later fits
  | external tokens =>
      simp only [step, bind_eq_ok, require_eq_ok, pure_eq_ok, exists_const] at success
      obtain ⟨external, rfl⟩ := success
      exact .external external
  | instruction ix =>
      cases ix with
      | openMarket => exact openMarket_effect success
      | update => exact update_effect success
      | close => exact close_effect success
      | closeAdmin => exact closeAdmin_effect success
      | setSettings => exact setSettings_effect success
      | closeSettings => exact closeSettings_effect success
      | assign => exact assign_effect success
      | list => exact list_effect success
      | delist => exact delist_effect success
      | recover => exact recover_effect success
      | extend => exact extend_effect success
      | endJob => exact endJob_effect success
      | work => exact work_effect success
      | stop => exact stop_effect success
      | complete => exact complete_effect success
      | finish => exact finish_effect success
      | quit => exact quit_effect success
      | quitAdmin => exact quitAdmin_effect success
      | clean => exact clean_effect success
      | cleanAdmin => exact cleanAdmin_effect success

/-! What callers of some instructions have to show -/

omit [Runtime] in
/-- A result is posted by the node of a run of the job. -/
theorem finish_signed {a : Accounts.Finish} {ipfsResult : IpfsHash}
    (success : finish s a ipfsResult = .ok s') :
    ipfsResult ≠ JobAccount.nullResult ∧
      ∃ run, s.runs.lookup a.run = some run ∧ run.job = a.job ∧ run.node = a.authority := by
  simp only [finish, finishConstraints, Tokens.load, bind_eq_ok, get_eq_ok, loadJob_eq_ok,
    loadMarket_eq_ok, loadRun_eq_ok, require_eq_ok, pure_eq_ok, exists_and_left, exists_and_right,
    exists_const, Prod.exists, Prod.mk.injEq] at success
  obtain ⟨_, _, ⟨_, -, run, live, _, -, -, -, -, -, started, signed, -⟩, posted, -⟩ := success
  exact ⟨posted, run, live, started, signed⟩

omit [Runtime] in
/-- A result is completed by the node of the job, once. -/
theorem complete_signed {a : Accounts.Complete} {ipfsResult : IpfsHash}
    (success : complete s a ipfsResult = .ok s') :
    ipfsResult ≠ JobAccount.nullResult ∧
      ∃ job, s.jobs.lookup a.job = some job ∧ job.node = a.authority ∧
        job.ipfsResult = JobAccount.nullResult := by
  simp only [complete, bind_eq_ok, loadJob_eq_ok, require_eq_ok, pure_eq_ok,
    exists_const] at success
  obtain ⟨job, present, -, signed, unset, posted, -⟩ := success
  exact ⟨posted, job, present, signed, unset⟩

omit [Runtime] in
/-- A delisted job is refunded to the token account of its payer. -/
theorem delist_associated {a : Accounts.Delist} (success : delist s a = .ok s') {job : JobAccount}
    (present : s.jobs.lookup a.job = some job) :
    job.price = 0 ∨ a.deposit = pda.associatedToken job.payer id.nosToken := by
  simp only [delist, delistConstraints, Tokens.load, bind_eq_ok, get_eq_ok, loadJob_eq_ok,
    loadMarket_eq_ok, require_eq_ok, pure_eq_ok, exists_and_left, exists_and_right, exists_const,
    Prod.exists, Prod.mk.injEq] at success
  obtain ⟨_, _, ⟨_, found, _, -, payer, -, -, -, -, -, -, associated, -, -, rfl, -⟩, -⟩ := success
  cases present.symm.trans found
  rw [payer]
  exact associated

omit [Runtime] in
/-- The vault of a market that is closed is emptied and closed with it. -/
theorem closeVaultAndMarket_rest {a : Accounts.Close} {market : MarketAccount}
    (success : closeVaultAndMarket s a market = .ok s') :
    s'.clock = s.clock ∧ ∃ emptied amount,
      transferFromVault s.tokens a.market a.vault a.user amount = .ok emptied ∧
        s'.tokens = emptied.erase a.vault := by
  simp only [closeVaultAndMarket, Tokens.load, bind_eq_ok, get_eq_ok, require_eq_ok, pure_eq_ok,
    exists_and_left, exists_and_right, exists_const] at success
  obtain ⟨-, -, vault, -, -, -, -, emptied, moved, rfl⟩ := success
  unfold State.closeSettingsAccount
  split <;> exact ⟨rfl, emptied, vault.amount, moved, rfl⟩

theorem closing_eq_ok {a : Accounts.Close} {action : Action}
    (closing : action = .instruction (.close a) ∨ action = .instruction (.closeAdmin a))
    (success : step s action = .ok s') :
    ∃ market, s.markets.lookup a.market = some market ∧
      closeVaultAndMarket s a market = .ok s' := by
  rcases closing with rfl | rfl
  · simp only [step, process, close, bind_eq_ok, loadMarket_eq_ok, require_eq_ok,
      exists_const] at success
    obtain ⟨market, present, -, closed⟩ := success
    exact ⟨market, present, closed⟩
  · simp only [step, process, closeAdmin, bind_eq_ok, loadMarket_eq_ok, require_eq_ok,
      exists_const] at success
    obtain ⟨market, present, -, closed⟩ := success
    exact ⟨market, present, closed⟩

/-- No instruction moves the clock. -/
theorem process_clock {ix : Instruction} (success : process s ix = .ok s') :
    s'.clock = s.clock := by
  have stepped : step s (.instruction ix) = .ok s' := success
  cases step_effect stepped with
  | closeMarket closing =>
      obtain ⟨market, -, closed⟩ := closing_eq_ok closing stepped
      exact (closeVaultAndMarket_rest closed).1
  | _ => rfl

end

end Nosana.Jobs
