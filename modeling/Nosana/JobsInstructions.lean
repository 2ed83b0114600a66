import Nosana.JobsState
import Nosana.StakingState

set_option autoImplicit false

/- The instructions of the jobs program. Each is given the addresses its caller
passes; a signer's address is the address of an account that signed. -/
namespace Nosana.Jobs

open Checked

/-- The accounts the program owns, with the token accounts its instructions move
tokens between and the clock they read. -/
structure State where
  markets : Finmap fun _ : Pubkey => MarketAccount
  settings : Finmap fun _ : Pubkey => MarketSettingsAccount
  jobs : Finmap fun _ : Pubkey => JobAccount
  runs : Finmap fun _ : Pubkey => RunAccount
  tokens : Tokens
  clock : Int

namespace State

/-- An address the system program can still create an account at. -/
def Vacant (s : State) (key : Pubkey) : Prop :=
  key ∉ s.markets ∧ key ∉ s.settings ∧ key ∉ s.jobs ∧ key ∉ s.runs ∧ key ∉ s.tokens

instance (s : State) (key : Pubkey) : Decidable (s.Vacant key) :=
  inferInstanceAs (Decidable (_ ∧ _))

def loadMarket (s : State) (key : Pubkey) : Except Error MarketAccount :=
  get (s.markets.lookup key) (.anchor .accountNotInitialized)

def loadJob (s : State) (key : Pubkey) : Except Error JobAccount :=
  get (s.jobs.lookup key) (.anchor .accountNotInitialized)

def loadRun (s : State) (key : Pubkey) : Except Error RunAccount :=
  get (s.runs.lookup key) (.anchor .accountNotInitialized)

/-- An uninitialized settings account leaves the market open to all projects. -/
def projectAccessKey (s : State) (settings : Pubkey) : Pubkey :=
  match s.settings.lookup settings with
  | some account => account.projectAccessKey
  | none => id.systemProgram

def isOpen (s : State) (settings : Pubkey) : Bool :=
  s.projectAccessKey settings == id.systemProgram

/-- Close the settings account when it is initialized. -/
def closeSettingsAccount (s : State) (settings : Option Pubkey) : State :=
  match settings with
  | some key => { s with settings := s.settings.erase key }
  | none => s

end State

/-! The accounts of the instructions. Programs, sysvars and the rewards pool's own
account are left out: no instruction reads more of them than their address. -/

/-- The accounts that open a restricted market to a project. -/
structure ProjectAccess where
  marketSettings : Option Pubkey
  projectNft : Option Pubkey
  projectMetadata : Option AccountInfo

namespace Accounts

structure Open where
  mint : Pubkey
  market : Pubkey
  vault : Pubkey
  authority : Pubkey
  accessKey : Pubkey

structure Update where
  market : Pubkey
  accessKey : Pubkey
  authority : Pubkey

structure SetSettings where
  market : Pubkey
  marketSettings : Pubkey
  projectAccessKey : Pubkey
  authority : Pubkey

structure CloseSettings where
  market : Pubkey
  marketSettings : Pubkey
  authority : Pubkey

structure Close where
  market : Pubkey
  vault : Pubkey
  user : Pubkey
  authority : Pubkey
  marketSettings : Option Pubkey

structure List where
  job : Pubkey
  market : Pubkey
  run : Pubkey
  runLamports : Nat
  user : Pubkey
  vault : Pubkey
  payer : Pubkey
  rewardsVault : Pubkey
  authority : Pubkey
  access : ProjectAccess

structure Assign where
  job : Pubkey
  market : Pubkey
  run : Pubkey
  node : Pubkey
  user : Pubkey
  vault : Pubkey
  payer : Pubkey
  rewardsVault : Pubkey
  authority : Pubkey
  access : ProjectAccess

structure Extend where
  job : Pubkey
  market : Pubkey
  user : Pubkey
  vault : Pubkey
  rewardsVault : Pubkey
  authority : Pubkey
  payer : Pubkey

structure Delist where
  job : Pubkey
  market : Pubkey
  deposit : Pubkey
  payer : Pubkey
  vault : Pubkey
  authority : Pubkey

structure Recover where
  job : Pubkey
  market : Pubkey
  vault : Pubkey
  user : Pubkey
  payer : Pubkey
  authority : Pubkey

structure End where
  job : Pubkey
  market : Pubkey
  run : Pubkey
  deposit : Pubkey
  user : Pubkey
  vault : Pubkey
  payer : Pubkey
  authority : Pubkey

structure Work where
  run : Pubkey
  runLamports : Nat
  market : Pubkey
  payer : Pubkey
  stake : Pubkey
  stakeAccount : Staking.StakeAccount
  nft : Pubkey
  metadata : AccountInfo
  authority : Pubkey

structure Stop where
  market : Pubkey
  node : Pubkey
  authority : Pubkey

structure Finish where
  job : Pubkey
  run : Pubkey
  market : Pubkey
  vault : Pubkey
  deposit : Pubkey
  user : Pubkey
  payerRun : Pubkey
  payerJob : Pubkey
  authority : Pubkey

structure Complete where
  job : Pubkey
  authority : Pubkey

structure Quit where
  job : Pubkey
  run : Pubkey
  payer : Pubkey
  authority : Pubkey

structure QuitAdmin where
  run : Pubkey
  payer : Pubkey
  authority : Pubkey

structure Clean where
  job : Pubkey
  market : Pubkey
  payer : Pubkey

structure CleanAdmin where
  job : Pubkey
  payer : Pubkey
  authority : Pubkey

end Accounts

/-! Moving tokens -/

/-- The vault signs with the seeds of the market and of its mint. -/
def transferFromVault (tokens : Tokens) (market vault destination : Pubkey) (amount : Nat) :
    Except Error Tokens := do
  let account ← tokens.load vault
  require (vault = .jobsVault market account.mint) (.token .missingSignature)
  tokens.transfer vault destination vault amount

/-- Deposit the job payment and transfer the network fee. The books of the rewards
pool, which the fee would enter, are kept by the rewards program. -/
def payDeposit (tokens : Tokens) (job : JobAccount) (duration : Int)
    (user vault rewardsVault payer : Pubkey) : Except Error Tokens := do
  if job.price = 0 then
    return tokens
  else
    let (deposit, fee) ← job.getDepositAndFee duration
    let paid ← tokens.transfer user vault payer deposit
    if fee = 0 then return paid
    else paid.transfer user rewardsVault payer fee

/-- Reimburse the node, and refund the surplus. -/
def settle (tokens : Tokens) (job : JobAccount) (market vault user deposit : Pubkey) :
    Except Error Tokens := do
  if job.price = 0 then
    return tokens
  else
    let total ← job.getDeposit job.timeout
    let amount ← job.getReimbursement
    let refund ← sub total amount
    let paid ← transferFromVault tokens market vault user amount
    transferFromVault paid market vault deposit refund

/-! Admin instructions -/

def openMarket (s : State) (a : Accounts.Open) (jobExpiration : Int) (jobPrice : Nat)
    (jobTimeout : Int) (jobType : UInt8) (nodeXnosMinimum : Nat) : Except Error State := do
  require (a.mint = id.nosToken) (.nosana .invalidMint)
  require (s.Vacant a.market) .accountAlreadyInUse
  require (a.vault = .jobsVault a.market a.mint) (.anchor .constraintSeeds)
  require (s.Vacant a.vault) .accountAlreadyInUse
  return { s with
    markets := s.markets.insert a.market
      (MarketAccount.init a.authority jobExpiration jobPrice jobTimeout
        (JobType.ofU8 jobType).toU8 a.accessKey nodeXnosMinimum a.vault)
    tokens := s.tokens.insert a.vault (.holding a.mint a.vault 0) }

def update (s : State) (a : Accounts.Update) (jobExpiration : Int) (jobPrice : Nat)
    (jobType : UInt8) (nodeStakeMinimum : Nat) (jobTimeout : Int) : Except Error State := do
  let market ← s.loadMarket a.market
  require (market.authority = a.authority) (.nosana .unauthorized)
  return { s with
    markets := s.markets.insert a.market
      (market.update jobExpiration jobPrice jobType a.accessKey nodeStakeMinimum jobTimeout) }

/-- The settings account is created when it does not exist yet. -/
def setSettings (s : State) (a : Accounts.SetSettings) : Except Error State := do
  let market ← s.loadMarket a.market
  require (market.authority = a.authority) (.nosana .unauthorized)
  require (a.marketSettings = .jobsSettings a.market) (.anchor .constraintSeeds)
  require (a.marketSettings ∈ s.settings ∨ s.Vacant a.marketSettings) .accountAlreadyInUse
  return { s with
    markets := s.markets.insert a.market (market.restrict true)
    settings := s.settings.insert a.marketSettings ⟨a.projectAccessKey⟩ }

def closeSettings (s : State) (a : Accounts.CloseSettings) : Except Error State := do
  let market ← s.loadMarket a.market
  require (market.authority = a.authority) (.nosana .unauthorized)
  require (a.marketSettings = .jobsSettings a.market) (.anchor .constraintSeeds)
  require (a.marketSettings ∈ s.settings) (.anchor .accountNotInitialized)
  return { s with
    markets := s.markets.insert a.market (market.restrict false)
    settings := s.settings.erase a.marketSettings }

/-- The constraints and the handler that both ways of closing a market share: empty
the vault, close it, and close the market with its settings. -/
def closeVaultAndMarket (s : State) (a : Accounts.Close) (market : MarketAccount) :
    Except Error State := do
  require (market.vault = a.vault) (.nosana .invalidVault)
  require (market.isRestricted = false ∨ a.marketSettings.isSome)
    (.jobs .marketSettingsMissing)
  let vault ← s.tokens.load a.vault
  let _ ← s.tokens.load a.user
  require (a.vault ≠ a.user) (.anchor .constraintDuplicateMutableAccount)
  require (∀ key ∈ a.marketSettings, key = .jobsSettings a.market) (.anchor .constraintSeeds)
  let emptied ← transferFromVault s.tokens a.market a.vault a.user vault.amount
  return State.closeSettingsAccount
    { s with markets := s.markets.erase a.market, tokens := emptied.erase a.vault }
    a.marketSettings

def close (s : State) (a : Accounts.Close) : Except Error State := do
  let market ← s.loadMarket a.market
  require (market.authority = a.authority) (.nosana .unauthorized)
  closeVaultAndMarket s a market

def closeAdmin (s : State) (a : Accounts.Close) : Except Error State := do
  let market ← s.loadMarket a.market
  require (a.authority = id.marketAdmin) (.nosana .unauthorized)
  closeVaultAndMarket s a market

section

variable [Runtime]

/-! Project instructions -/

/-- A restricted market asks for a token of the project's access collection. Each
optional account is only checked when it is passed. -/
def accessConstraints (s : State) (market : Pubkey) (account : MarketAccount)
    (authority : Pubkey) (access : ProjectAccess) : Except Error Unit := do
  require (account.isRestricted = false ∨ (access.marketSettings.isSome ∧
    access.projectNft.isSome ∧ access.projectMetadata.isSome)) (.jobs .accessKeyMissing)
  match access.marketSettings with
  | some settings =>
    require (settings = .jobsSettings market) (.anchor .constraintSeeds)
    require (account.isRestricted = false ∨ s.isOpen settings = false)
      (.jobs .accessKeyMissing)
  | none => .ok ()
  match access.projectNft with
  | some key =>
    let nft ← s.tokens.load key
    require (account.isRestricted = false ∨ nft.owner = authority)
      (.jobs .accessNftWrongOwner)
    require (account.isRestricted = false ∨ 1 ≤ nft.amount)
      (.jobs .accessNftInvalidAmount)
  | none => .ok ()
  match access.projectMetadata with
  | some metadata =>
    have verified :=
      match access.projectNft.bind s.tokens.lookup, access.marketSettings with
      | some nft, some settings =>
        MarketAccount.metadataConstraint metadata nft.mint (s.projectAccessKey settings)
      | _, _ => false
    require (account.isRestricted = false ∨ verified = true)
      (.jobs .accessKeyInvalidCollection)
  | none => .ok ()

/-- `RunAccount::initialize`: the run account is created at an address that signed. -/
def initializeRun (s : State) (payer run job node : Pubkey) : Except Error State := do
  require (s.Vacant run) .accountAlreadyInUse
  return { s with runs := s.runs.insert run (RunAccount.zeroed.create job node payer s.clock) }

def listConstraints (s : State) (a : Accounts.List) : Except Error MarketAccount := do
  require (s.Vacant a.job) .accountAlreadyInUse
  let market ← s.loadMarket a.market
  require (market.vault = a.vault) (.nosana .invalidVault)
  -- an account that exists, as the job does by now, has lamports; without any, its owner is the
  -- system program
  require (a.runLamports = 0) (.nosana .lamportsNonNull)
  require (s.Vacant a.run ∧ a.run ≠ a.job) (.nosana .lamportsNonNull)
  let _ ← s.tokens.load a.user
  require (market.jobPrice = 0 ∨ a.user = pda.associatedToken a.payer id.nosToken)
    (.nosana .invalidATA)
  let _ ← s.tokens.load a.vault
  let _ ← s.tokens.load a.rewardsVault
  require ([a.user, a.vault, a.rewardsVault].Nodup) (.anchor .constraintDuplicateMutableAccount)
  accessConstraints s a.market market a.authority a.access
  return market

def list (s : State) (a : Accounts.List) (ipfsJob : IpfsHash) (timeout : Int) :
    Except Error State := do
  let market ← listConstraints s a
  -- create the job
  let job := JobAccount.zeroed.create ipfsJob a.market a.payer market.jobPrice a.authority timeout
  let created := { s with jobs := s.jobs.insert a.job job }
  -- update the market
  let (market, queued) ← (match QueueType.ofU8 market.queueType with
    | .node => do
      let (node, popped) ← market.popFromQueue
      let started ← initializeRun created a.payer a.run a.job node
      return (popped, started)
    | .job | .empty => return (market.addToQueue a.job true, created))
  let tokens ← payDeposit queued.tokens job timeout a.user a.vault a.rewardsVault a.payer
  let market ← market.exit
  return { queued with markets := queued.markets.insert a.market market, tokens := tokens }

def assignConstraints (s : State) (a : Accounts.Assign) : Except Error MarketAccount := do
  require (s.Vacant a.job) .accountAlreadyInUse
  let market ← s.loadMarket a.market
  require (market.vault = a.vault) (.nosana .invalidVault)
  require (market.queueType = QueueType.node.toU8) (.jobs .marketInWrongState)
  require (s.Vacant a.run ∧ a.run ≠ a.job) .accountAlreadyInUse
  let _ ← s.tokens.load a.user
  require (market.jobPrice = 0 ∨ a.user = pda.associatedToken a.payer id.nosToken)
    (.nosana .invalidATA)
  let _ ← s.tokens.load a.vault
  let _ ← s.tokens.load a.rewardsVault
  require ([a.user, a.vault, a.rewardsVault].Nodup) (.anchor .constraintDuplicateMutableAccount)
  accessConstraints s a.market market a.authority a.access
  return market

/-- Remove a node from the queue, create the job and assign the node to it directly. -/
def assign (s : State) (a : Accounts.Assign) (ipfsJob : IpfsHash) (timeout : Int) :
    Except Error State := do
  let market ← assignConstraints s a
  let removed ← market.removeFromQueue a.node
  let job := JobAccount.zeroed.create ipfsJob a.market a.payer market.jobPrice a.authority timeout
  let run := RunAccount.zeroed.create a.job a.node a.payer s.clock
  let tokens ← payDeposit s.tokens job timeout a.user a.vault a.rewardsVault a.payer
  return { s with
    markets := s.markets.insert a.market removed
    jobs := s.jobs.insert a.job job
    runs := s.runs.insert a.run run
    tokens := tokens }

end

def extend (s : State) (a : Accounts.Extend) (timeout : Int) : Except Error State := do
  let job ← s.loadJob a.job
  let market ← s.loadMarket a.market
  require (job.market = a.market) (.jobs .invalidMarketAccount)
  require (job.project = a.authority) (.nosana .unauthorized)
  require (job.price = 0 ∨ job.payer = a.payer) (.nosana .unauthorized)
  require (job.state = JobState.queued.toU8) (.jobs .jobInWrongState)
  require (market.vault = a.vault) (.nosana .invalidVault)
  let _ ← s.tokens.load a.user
  require (job.price = 0 ∨ a.user = pda.associatedToken a.payer id.nosToken)
    (.nosana .invalidATA)
  let _ ← s.tokens.load a.vault
  let _ ← s.tokens.load a.rewardsVault
  require ([a.user, a.vault, a.rewardsVault].Nodup) (.anchor .constraintDuplicateMutableAccount)
  require (job.timeout < timeout) (.jobs .jobTimeoutNotGreater)
  let duration ← subSigned 64 timeout job.timeout
  let extended := job.updateTimeout timeout
  let tokens ← payDeposit s.tokens extended duration a.user a.vault a.rewardsVault a.payer
  return { s with jobs := s.jobs.insert a.job extended, tokens := tokens }

def delistConstraints (s : State) (a : Accounts.Delist) :
    Except Error (JobAccount × MarketAccount) := do
  let job ← s.loadJob a.job
  let market ← s.loadMarket a.market
  require (job.payer = a.payer) (.nosana .invalidPayer)
  require (job.market = a.market) (.jobs .invalidMarketAccount)
  require (job.project = a.authority) (.nosana .unauthorized)
  require (job.state = JobState.queued.toU8) (.jobs .jobInWrongState)
  require (market.vault = a.vault) (.nosana .invalidVault)
  require (market.queueType = QueueType.job.toU8) (.jobs .marketInWrongState)
  let _ ← s.tokens.load a.deposit
  require (job.price = 0 ∨ a.deposit = pda.associatedToken a.payer id.nosToken)
    (.nosana .invalidATA)
  let _ ← s.tokens.load a.vault
  require (a.deposit ≠ a.vault) (.anchor .constraintDuplicateMutableAccount)
  return (job, market)

/-- Remove the job from the queue, refund the deposit and close the job account. -/
def delist (s : State) (a : Accounts.Delist) : Except Error State := do
  let (job, market) ← delistConstraints s a
  let removed ← market.removeFromQueue a.job
  let tokens ← (if job.price = 0 then .ok s.tokens
    else do
      let total ← job.getDeposit job.timeout
      transferFromVault s.tokens a.market a.vault a.deposit total)
  return { s with
    markets := s.markets.insert a.market removed
    jobs := s.jobs.erase a.job
    tokens := tokens }

def recoverConstraints (s : State) (a : Accounts.Recover) : Except Error JobAccount := do
  let job ← s.loadJob a.job
  let market ← s.loadMarket a.market
  require (job.payer = a.payer) (.nosana .invalidPayer)
  require (job.market = a.market) (.jobs .invalidMarketAccount)
  require (job.project = a.authority) (.nosana .unauthorized)
  require (job.state = JobState.stopped.toU8) (.jobs .jobInWrongState)
  require (market.vault = a.vault) (.nosana .invalidVault)
  let _ ← s.tokens.load a.vault
  let _ ← s.tokens.load a.user
  require (a.vault ≠ a.user) (.anchor .constraintDuplicateMutableAccount)
  return job

/-- Refund the deposit of a job that was quit and close the job account. -/
def recover (s : State) (a : Accounts.Recover) : Except Error State := do
  let job ← recoverConstraints s a
  let total ← job.getDeposit job.timeout
  let tokens ← transferFromVault s.tokens a.market a.vault a.user total
  return { s with jobs := s.jobs.erase a.job, tokens := tokens }

def endConstraints (s : State) (a : Accounts.End) : Except Error (JobAccount × RunAccount) := do
  let job ← s.loadJob a.job
  let market ← s.loadMarket a.market
  let run ← s.loadRun a.run
  require (job.market = a.market) (.jobs .invalidMarketAccount)
  require (job.project = a.authority) (.nosana .unauthorized)
  require (market.vault = a.vault) (.nosana .invalidVault)
  require (run.payer = a.payer) (.nosana .invalidPayer)
  require (run.job = a.job) (.jobs .invalidJobAccount)
  let _ ← s.tokens.load a.deposit
  require (job.price = 0 ∨ a.deposit = pda.associatedToken job.payer id.nosToken)
    (.nosana .invalidATA)
  let _ ← s.tokens.load a.user
  require (job.price = 0 ∨ a.user = pda.associatedToken run.node id.nosToken)
    (.nosana .invalidATA)
  let _ ← s.tokens.load a.vault
  require (a.user ≠ a.vault) (.anchor .constraintDuplicateMutableAccount)
  return (job, run)

/-- End a running job: settle it and close the run account. -/
def endJob (s : State) (a : Accounts.End) : Except Error State := do
  let (job, run) ← endConstraints s a
  let ended := job.endJob run.time s.clock run.node
  let tokens ← settle s.tokens ended a.market a.vault a.user a.deposit
  return { s with
    jobs := s.jobs.insert a.job ended, runs := s.runs.erase a.run, tokens := tokens }

/-! Node instructions -/

section

variable [Runtime]

def workConstraints (s : State) (a : Accounts.Work) : Except Error MarketAccount := do
  -- an account that exists has lamports; without any, its owner is the system program
  require (a.runLamports = 0) (.nosana .lamportsNonNull)
  require (s.Vacant a.run) (.nosana .lamportsNonNull)
  let market ← s.loadMarket a.market
  require (MarketAccount.nodeConstraint a.authority market.queue market.queueType = true)
    (.jobs .nodeAlreadyQueued)
  require (a.stake = pda.nosanaStaking a.authority) (.staking .invalidStakeAccount)
  require (a.stakeAccount.authority = a.authority) (.nosana .unauthorized)
  require (market.nodeXnosMinimum ≤ a.stakeAccount.xnos) (.jobs .nodeNotEnoughStake)
  let nft ← s.tokens.load a.nft
  require (market.nodeAccessKey = id.systemProgram ∨ nft.owner = a.authority)
    (.jobs .nodeNftWrongOwner)
  require (market.nodeAccessKey = id.systemProgram ∨ 1 ≤ nft.amount)
    (.jobs .nodeNftInvalidAmount)
  require (MarketAccount.metadataConstraint a.metadata nft.mint market.nodeAccessKey = true)
    (.jobs .nodeKeyInvalidCollection)
  return market

/-- Enter the queue, or create a run account for the first job of the queue. -/
def work (s : State) (a : Accounts.Work) : Except Error State := do
  let market ← workConstraints s a
  let (market, queued) ← (match QueueType.ofU8 market.queueType with
    | .node | .empty => return (market.addToQueue a.authority false, s)
    | .job => do
      let (job, popped) ← market.popFromQueue
      let started ← initializeRun s a.payer a.run job a.authority
      return (popped, started))
  let market ← market.exit
  return { queued with markets := queued.markets.insert a.market market }

end

def stop (s : State) (a : Accounts.Stop) : Except Error State := do
  let market ← s.loadMarket a.market
  require (market.queueType = QueueType.node.toU8) (.jobs .marketInWrongState)
  require (market.authority = a.authority ∨ a.node = a.authority) (.nosana .unauthorized)
  let removed ← market.removeFromQueue a.node
  return { s with markets := s.markets.insert a.market removed }

def complete (s : State) (a : Accounts.Complete) (ipfsResult : IpfsHash) :
    Except Error State := do
  let job ← s.loadJob a.job
  require (job.state = JobState.done.toU8) (.jobs .jobInWrongState)
  require (job.node = a.authority) (.nosana .unauthorized)
  require (job.ipfsResult = JobAccount.nullResult) (.jobs .jobResultsAlreadySet)
  require (ipfsResult ≠ JobAccount.nullResult) (.jobs .jobResultNull)
  return { s with jobs := s.jobs.insert a.job (job.complete ipfsResult) }

def finishConstraints (s : State) (a : Accounts.Finish) :
    Except Error (JobAccount × RunAccount) := do
  let job ← s.loadJob a.job
  let run ← s.loadRun a.run
  let market ← s.loadMarket a.market
  require (job.market = a.market) (.jobs .invalidMarketAccount)
  require (job.payer = a.payerJob) (.nosana .invalidPayer)
  require (job.state = JobState.queued.toU8) (.jobs .jobInWrongState)
  require (run.payer = a.payerRun) (.nosana .invalidPayer)
  require (run.job = a.job) (.jobs .invalidJobAccount)
  require (run.node = a.authority) (.nosana .unauthorized)
  require (market.vault = a.vault) (.nosana .invalidVault)
  let _ ← s.tokens.load a.vault
  let _ ← s.tokens.load a.deposit
  require (job.price = 0 ∨ a.deposit = pda.associatedToken a.payerJob id.nosToken)
    (.nosana .invalidATA)
  let user ← s.tokens.load a.user
  require (job.price = 0 ∨ user.mint = id.nosToken) (.nosana .invalidATA)
  require (a.vault ≠ a.user) (.anchor .constraintDuplicateMutableAccount)
  return (job, run)

/-- Post the result of a job, settle it and close the run account. -/
def finish (s : State) (a : Accounts.Finish) (ipfsResult : IpfsHash) : Except Error State := do
  let (job, run) ← finishConstraints s a
  require (ipfsResult ≠ JobAccount.nullResult) (.jobs .jobResultNull)
  let finished := job.finish ipfsResult a.authority s.clock run.time
  let tokens ← settle s.tokens finished a.market a.vault a.user a.deposit
  return { s with
    jobs := s.jobs.insert a.job finished, runs := s.runs.erase a.run, tokens := tokens }

def quit (s : State) (a : Accounts.Quit) : Except Error State := do
  let job ← s.loadJob a.job
  let run ← s.loadRun a.run
  require (run.job = a.job) (.jobs .invalidJobAccount)
  require (run.payer = a.payer) (.nosana .invalidPayer)
  require (run.node = a.authority) (.nosana .unauthorized)
  return { s with jobs := s.jobs.insert a.job job.quit, runs := s.runs.erase a.run }

def quitAdmin (s : State) (a : Accounts.QuitAdmin) : Except Error State := do
  let run ← s.loadRun a.run
  require (run.payer = a.payer) (.nosana .invalidPayer)
  require (a.authority = id.marketAdmin) (.nosana .unauthorized)
  return { s with runs := s.runs.erase a.run }

/-! Other instructions -/

/-- Close a job account some time after it was done. Any market account is accepted. -/
def clean (s : State) (a : Accounts.Clean) : Except Error State := do
  let job ← s.loadJob a.job
  let market ← s.loadMarket a.market
  require (job.payer = a.payer) (.nosana .invalidPayer)
  require (job.state = JobState.done.toU8) (.jobs .jobInWrongState)
  let age ← subSigned 64 s.clock job.timeEnd
  require (market.jobExpiration < age) (.jobs .jobNotExpired)
  return { s with jobs := s.jobs.erase a.job }

def cleanAdmin (s : State) (a : Accounts.CleanAdmin) : Except Error State := do
  let job ← s.loadJob a.job
  require (job.payer = a.payer) (.nosana .invalidPayer)
  require (a.authority = id.marketAdmin) (.nosana .unauthorized)
  return { s with jobs := s.jobs.erase a.job }

end Nosana.Jobs
