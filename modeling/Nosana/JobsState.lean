import Nosana.Token
import Mathlib.Tactic.DeriveFintype

set_option autoImplicit false

/- The accounts of the jobs program: markets with their queue, jobs and runs. -/
namespace Nosana.Jobs

open Checked

/-! Types -/

inductive QueueType
  | job
  | node
  | empty
  deriving DecidableEq, Repr

def QueueType.toU8 : QueueType → UInt8
  | .job => 0
  | .node => 1
  | .empty => 255

def QueueType.ofU8 (queueType : UInt8) : QueueType :=
  if queueType = 0 then .job else if queueType = 1 then .node else .empty

inductive JobState
  | queued
  | done
  | stopped
  deriving DecidableEq, Repr

def JobState.toU8 : JobState → UInt8
  | .queued => 0
  | .done => 2
  | .stopped => 3

inductive JobType
  | default
  | small
  | medium
  | large
  | gpu
  | unknown
  deriving DecidableEq, Repr

def JobType.toU8 : JobType → UInt8
  | .default => 0
  | .small => 1
  | .medium => 2
  | .large => 3
  | .gpu => 4
  | .unknown => 127

/-- Flag in the job type of a market that is restricted to holders of its access key. -/
def restrictedFlag : UInt8 := 0x80

/-- The low bits of a market's job type. -/
def JobType.ofU8 (jobType : UInt8) : JobType :=
  match (jobType &&& ~~~restrictedFlag).toNat with
  | 0 => .default
  | 1 => .small
  | 2 => .medium
  | 3 => .large
  | 4 => .gpu
  | _ => .unknown

/-! Markets -/

structure MarketAccount where
  authority : Pubkey
  jobExpiration : Int
  jobPrice : Nat
  jobTimeout : Int
  jobType : UInt8
  vault : Pubkey
  nodeAccessKey : Pubkey
  nodeXnosMinimum : Nat
  queueType : UInt8
  queue : List Pubkey
  deriving DecidableEq, Repr

/-- Divisor applied to the deposit to compute the network fee; `0` disables the fee. -/
def jobFeeFraction : Nat := 0

/-- `checked_div(..).unwrap_or(0)` -/
def networkFee (deposit : Nat) : Nat :=
  if jobFeeFraction = 0 then 0 else deposit / jobFeeFraction

/-- What the Metaplex crate deserializes of a token's metadata. -/
structure Collection where
  verified : Bool
  key : Pubkey
  deriving DecidableEq, Repr

structure Metadata where
  collection : Option Collection
  deriving DecidableEq, Repr

/-- Code outside the repository: the Metaplex deserializer, and how many keys fit
in the queue of a market account of the allocated size. -/
class Runtime where
  safeDeserialize : List UInt8 → Option Metadata
  queueCapacity : Nat

namespace MarketAccount

def init (authority : Pubkey) (jobExpiration : Int) (jobPrice : Nat) (jobTimeout : Int)
    (jobType : UInt8) (nodeAccessKey : Pubkey) (nodeXnosMinimum : Nat) (vault : Pubkey) :
    MarketAccount where
  authority := authority
  jobExpiration := jobExpiration
  jobPrice := jobPrice
  jobTimeout := jobTimeout
  jobType := jobType
  vault := vault
  nodeAccessKey := nodeAccessKey
  nodeXnosMinimum := nodeXnosMinimum
  queueType := QueueType.empty.toU8
  queue := []

def update (self : MarketAccount) (jobExpiration : Int) (jobPrice : Nat) (jobType : UInt8)
    (nodeAccessKey : Pubkey) (nodeStakeMinimum : Nat) (jobTimeout : Int) : MarketAccount :=
  { self with
    jobExpiration := jobExpiration
    jobPrice := jobPrice
    jobType := (self.jobType &&& restrictedFlag) ||| (JobType.ofU8 jobType).toU8
    nodeAccessKey := nodeAccessKey
    nodeXnosMinimum := nodeStakeMinimum
    jobTimeout := jobTimeout }

def isRestricted (self : MarketAccount) : Bool := self.jobType &&& restrictedFlag != 0

def restrict (self : MarketAccount) (restricted : Bool) : MarketAccount :=
  if restricted then { self with jobType := self.jobType ||| restrictedFlag }
  else { self with jobType := self.jobType &&& ~~~restrictedFlag }

def setQueueType (self : MarketAccount) (queueType : QueueType) : MarketAccount :=
  { self with queueType := queueType.toU8 }

/-- A market whose job type is unknown takes no new orders. -/
def addToQueue (self : MarketAccount) (order : Pubkey) (isJob : Bool) : MarketAccount :=
  if JobType.ofU8 self.jobType = .unknown then self
  else
    let tagged :=
      if self.queueType = QueueType.empty.toU8 then
        self.setQueueType (if isJob then .job else .node)
      else self
    { tagged with queue := tagged.queue ++ [order] }

def findInQueue (queue : List Pubkey) (key : Pubkey) : Option Nat :=
  queue.findIdx? (· == key)

def removeFromQueue (self : MarketAccount) (key : Pubkey) : Except Error MarketAccount :=
  match findInQueue self.queue key with
  | some index =>
    let removed := { self with queue := self.queue.eraseIdx index }
    .ok (if removed.queue.isEmpty then removed.setQueueType .empty else removed)
  | none => .error (.jobs .notInMarketQueue)

/-- The removal of the first order panics on an empty queue. -/
def popFromQueue (self : MarketAccount) : Except Error (Pubkey × MarketAccount) :=
  let tagged := if self.queue.length = 1 then self.setQueueType .empty else self
  match tagged.queue with
  | first :: rest => .ok (first, { tagged with queue := rest })
  | [] => .error (.panic .indexOutOfBounds)

/-- Nodes can only enter the queue once. -/
def nodeConstraint (node : Pubkey) (queue : List Pubkey) (queueType : UInt8) : Bool :=
  if queueType ≠ QueueType.job.toU8 then (findInQueue queue node).isNone else true

/-- The market account is written back at the end of an instruction; a queue that
has outgrown its account does not serialize. -/
def exit [Runtime] (self : MarketAccount) : Except Error MarketAccount :=
  if self.queue.length ≤ Runtime.queueCapacity then .ok self
  else .error (.anchor .accountDidNotSerialize)

/-- With an access key, the collection of the token's metadata has to be verified and
to be that key. -/
def metadataConstraint [Runtime] (metadata : AccountInfo) (mint accessKey : Pubkey) : Bool :=
  if accessKey = id.systemProgram then true
  else if metadata.key = pda.metaplexMetadata mint then
    match Runtime.safeDeserialize metadata.data with
    | some found =>
      match found.collection with
      | some collection => collection.verified && collection.key == accessKey
      | none => false
    | none => false
  else false

end MarketAccount

structure MarketSettingsAccount where
  projectAccessKey : Pubkey
  deriving DecidableEq, Repr

/-! Jobs and runs -/

structure JobAccount where
  ipfsJob : IpfsHash
  ipfsResult : IpfsHash
  market : Pubkey
  node : Pubkey
  payer : Pubkey
  price : Nat
  project : Pubkey
  state : UInt8
  timeEnd : Int
  timeStart : Int
  timeout : Int
  deriving DecidableEq, Repr

namespace JobAccount

def nullResult : IpfsHash := Vector.replicate 32 0

/-- The zeroed account that `create` fills. -/
def zeroed : JobAccount :=
  ⟨nullResult, nullResult, id.systemProgram, id.systemProgram, id.systemProgram, 0,
    id.systemProgram, 0, 0, 0, 0⟩

def create (self : JobAccount) (ipfsJob : IpfsHash) (market payer : Pubkey) (price : Nat)
    (project : Pubkey) (timeout : Int) : JobAccount :=
  { self with
    ipfsJob := ipfsJob
    market := market
    payer := payer
    price := price
    project := project
    state := JobState.queued.toU8
    timeout := timeout }

def quit (self : JobAccount) : JobAccount := { self with state := JobState.stopped.toU8 }

def endJob (self : JobAccount) (timeStart timeEnd : Int) (node : Pubkey) : JobAccount :=
  { self with
    state := JobState.done.toU8, timeStart := timeStart, timeEnd := timeEnd, node := node }

def complete (self : JobAccount) (ipfsResult : IpfsHash) : JobAccount :=
  { self with ipfsResult := ipfsResult }

def finish (self : JobAccount) (ipfsResult : IpfsHash) (node : Pubkey)
    (timeEnd timeStart : Int) : JobAccount :=
  { self with
    ipfsResult := ipfsResult
    node := node
    state := JobState.done.toU8
    timeEnd := timeEnd
    timeStart := timeStart }

def getDeposit (self : JobAccount) (timeout : Int) : Except Error Nat := do
  let duration ← toUnsigned 64 timeout
  mul 64 self.price duration

def getDepositAndFee (self : JobAccount) (timeout : Int) : Except Error (Nat × Nat) := do
  let deposit ← self.getDeposit timeout
  return (deposit, networkFee deposit)

def getReimbursement (self : JobAccount) : Except Error Nat := do
  let elapsed ← subSigned 64 self.timeEnd self.timeStart
  self.getDeposit (min elapsed self.timeout)

def updateTimeout (self : JobAccount) (timeout : Int) : JobAccount :=
  { self with timeout := timeout }

end JobAccount

structure RunAccount where
  job : Pubkey
  node : Pubkey
  payer : Pubkey
  state : UInt8
  time : Int
  deriving DecidableEq, Repr

namespace RunAccount

/-- The zeroed account that `create` fills. -/
def zeroed : RunAccount := ⟨id.systemProgram, id.systemProgram, id.systemProgram, 0, 0⟩

def create (self : RunAccount) (job node payer : Pubkey) (time : Int) : RunAccount :=
  { self with job := job, node := node, payer := payer, time := time }

end RunAccount

end Nosana.Jobs
