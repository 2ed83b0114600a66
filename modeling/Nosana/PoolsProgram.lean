import Nosana.RewardsProgram

set_option autoImplicit false

/- The accounts and instructions of the pools program, and the program as a machine. Amounts are
`u64` and times are `i64`; every operation on them is checked, except for the cast of the time that
has passed. Fees are added to the rewards pool by a call to the rewards program. -/
namespace Nosana.Pools

open Checked

/-- How the tokens of a pool are claimed. -/
inductive ClaimType
  | transfer
  | addFee
  | unknown
  deriving DecidableEq, Repr

namespace ClaimType

def ofU8 (claimType : Nat) : ClaimType :=
  if claimType = 0 then .transfer else if claimType = 1 then .addFee else .unknown

def toU8 : ClaimType → Nat
  | .transfer => 0
  | .addFee => 1
  | .unknown => 255

end ClaimType

structure PoolAccount where
  authority : Pubkey
  beneficiary : Pubkey
  claimType : Nat
  claimedTokens : Nat
  closeable : Bool
  emission : Nat
  startTime : Int
  vault : Pubkey
  deriving DecidableEq, Repr

namespace PoolAccount

/-- The zeroed account that `init` fills. -/
def zeroed : PoolAccount :=
  ⟨id.systemProgram, id.systemProgram, 0, 0, false, 0, 0, id.systemProgram⟩

def init (self : PoolAccount) (authority beneficiary : Pubkey) (claimType : Nat)
    (closeable : Bool) (emission : Nat) (startTime : Int) (vault : Pubkey) : PoolAccount :=
  { self with
    authority := authority, beneficiary := beneficiary, claimType := claimType, claimedTokens := 0,
    closeable := closeable, emission := emission, startTime := startTime, vault := vault }

/-- The cast of a signed integer to `u64`, which wraps. -/
def asU64 (a : Int) : Nat := (a % 2 ^ 64).toNat

/-- Claim what has been emitted since the start and not been claimed yet, as far as it is
available. -/
def claim (self : PoolAccount) (amountAvailable : Nat) (now : Int) :
    Except Error (Nat × PoolAccount) := do
  let elapsed ← subSigned 64 now self.startTime
  let poolAmount ← mul 64 (asU64 elapsed) self.emission
  let amountDue ← sub poolAmount self.claimedTokens
  let amount := min amountDue amountAvailable
  let claimedTokens ← add 64 self.claimedTokens amount
  return (amount, { self with claimedTokens := claimedTokens })

def updateBeneficiary (self : PoolAccount) (beneficiary : Pubkey) : PoolAccount :=
  { self with beneficiary := beneficiary }

end PoolAccount

/-- The accounts the program owns, with the chain as the rewards program sees it, which has
the token accounts, and the clock. -/
structure State where
  pools : Finmap fun _ : Pubkey => PoolAccount
  rewards : Rewards.State
  clock : Int

namespace State

def tokens (s : State) : Tokens := s.rewards.tokens

def withTokens (s : State) (tokens : Tokens) : State :=
  { s with rewards := { s.rewards with tokens := tokens } }

/-- An address the system program can still create an account at. -/
def Vacant (s : State) (key : Pubkey) : Prop := key ∉ s.pools ∧ s.rewards.Vacant key

instance (s : State) (key : Pubkey) : Decidable (s.Vacant key) :=
  inferInstanceAs (Decidable (_ ∧ _))

def loadPool (s : State) (key : Pubkey) : Except Error PoolAccount :=
  get (s.pools.lookup key) (.anchor .accountNotInitialized)

end State

namespace Accounts

structure Open where
  pool : Pubkey
  vault : Pubkey
  beneficiary : Pubkey
  authority : Pubkey
  mint : Pubkey

structure ClaimFee where
  vault : Pubkey
  rewardsReflection : Pubkey
  rewardsVault : Pubkey
  pool : Pubkey
  authority : Pubkey

structure ClaimTransfer where
  vault : Pubkey
  beneficiary : Pubkey
  pool : Pubkey
  authority : Pubkey

structure Close where
  vault : Pubkey
  user : Pubkey
  pool : Pubkey
  authority : Pubkey

structure UpdateBeneficiary where
  beneficiary : Pubkey
  newBeneficiary : Pubkey
  pool : Pubkey
  authority : Pubkey

end Accounts

/-- A vault signs with the seeds of its pool. -/
def transferFromVault (tokens : Tokens) (pool vault destination : Pubkey) (amount : Nat) :
    Except Error Tokens := do
  require (vault = .poolsVault pool) (.token .missingSignature)
  tokens.transfer vault destination vault amount

/-- `open` -/
def openPool (s : State) (a : Accounts.Open) (emission : Nat) (startTime : Int) (claimType : Nat)
    (closeable : Bool) : Except Error State := do
  let beneficiary ← s.tokens.load a.beneficiary
  require (s.Vacant a.pool) .accountAlreadyInUse
  require (a.vault = .poolsVault a.pool) (.anchor .constraintSeeds)
  require (s.Vacant a.vault) .accountAlreadyInUse
  require (beneficiary.mint = a.mint) (.anchor .constraintTokenMint)
  let created := PoolAccount.zeroed.init a.authority a.beneficiary
    (ClaimType.ofU8 claimType).toU8 closeable emission startTime a.vault
  let tokens : Tokens := s.tokens.insert a.vault (.holding a.mint a.vault 0)
  return { s.withTokens tokens with pools := s.pools.insert a.pool created }

def claimFeeConstraints (s : State) (a : Accounts.ClaimFee) :
    Except Error (TokenAccount × PoolAccount) := do
  let vault ← s.tokens.load a.vault
  let _ ← s.rewards.loadReflection a.rewardsReflection
  let _ ← s.tokens.load a.rewardsVault
  let pool ← s.loadPool a.pool
  require (a.vault = pool.vault) (.nosana .invalidTokenAccount)
  require (pool.startTime < s.clock) (.pools .notStarted)
  require (pool.claimType = ClaimType.addFee.toU8) (.pools .wrongClaimType)
  require (pool.beneficiary = a.rewardsVault) (.pools .wrongBeneficiary)
  require (a.vault ≠ a.rewardsVault) (.anchor .constraintDuplicateMutableAccount)
  return (vault, pool)

/-- Less than the emission of a second is not paid. -/
def claimFee (s : State) (a : Accounts.ClaimFee) : Except Error State := do
  let (vault, pool) ← claimFeeConstraints s a
  let (amount, claimed) ← pool.claim vault.amount s.clock
  let noted := { s with pools := s.pools.insert a.pool claimed }
  if amount < claimed.emission then
    return noted
  else
    require (a.vault = .poolsVault a.pool) (.token .missingSignature)
    let rewards ← Rewards.addFee s.rewards
      { user := a.vault, reflection := a.rewardsReflection, vault := a.rewardsVault,
        authority := a.vault } amount
    return { noted with rewards := rewards }

def claimTransferConstraints (s : State) (a : Accounts.ClaimTransfer) :
    Except Error (TokenAccount × PoolAccount) := do
  let vault ← s.tokens.load a.vault
  let _ ← s.tokens.load a.beneficiary
  let pool ← s.loadPool a.pool
  require (a.vault = pool.vault) (.nosana .invalidTokenAccount)
  require (pool.beneficiary = a.beneficiary) (.pools .wrongBeneficiary)
  require (pool.startTime < s.clock) (.pools .notStarted)
  require (pool.claimType = ClaimType.transfer.toU8) (.pools .wrongClaimType)
  require (a.vault ≠ a.beneficiary) (.anchor .constraintDuplicateMutableAccount)
  return (vault, pool)

def claimTransfer (s : State) (a : Accounts.ClaimTransfer) : Except Error State := do
  let (vault, pool) ← claimTransferConstraints s a
  let (amount, claimed) ← pool.claim vault.amount s.clock
  require (claimed.emission ≤ amount) (.pools .underfunded)
  let tokens ← transferFromVault s.tokens a.pool a.vault a.beneficiary amount
  return { s.withTokens tokens with pools := s.pools.insert a.pool claimed }

/-- What is left in the vault goes to the user, and the vault is closed with its pool. -/
def close (s : State) (a : Accounts.Close) : Except Error State := do
  let vault ← s.tokens.load a.vault
  let _ ← s.tokens.load a.user
  let pool ← s.loadPool a.pool
  require (pool.authority = a.authority) (.nosana .unauthorized)
  require (pool.vault = a.vault) (.nosana .invalidVault)
  require (pool.closeable = true ∨ vault.amount = 0) (.pools .notCloseable)
  require (a.vault ≠ a.user) (.anchor .constraintDuplicateMutableAccount)
  let tokens ← transferFromVault s.tokens a.pool a.vault a.user vault.amount
  return { s.withTokens (tokens.erase a.vault) with pools := s.pools.erase a.pool }

def updateBeneficiary (s : State) (a : Accounts.UpdateBeneficiary) : Except Error State := do
  let beneficiary ← s.tokens.load a.beneficiary
  let newBeneficiary ← s.tokens.load a.newBeneficiary
  let pool ← s.loadPool a.pool
  require (beneficiary.owner = a.authority) (.anchor .constraintTokenOwner)
  require (newBeneficiary.mint = beneficiary.mint) (.anchor .constraintTokenMint)
  require (pool.beneficiary = a.beneficiary) (.pools .wrongBeneficiary)
  return { s with pools := s.pools.insert a.pool (pool.updateBeneficiary a.newBeneficiary) }

inductive Instruction
  | openPool (a : Accounts.Open) (emission : Nat) (startTime : Int) (claimType : Nat)
    (closeable : Bool)
  | claimFee (a : Accounts.ClaimFee)
  | claimTransfer (a : Accounts.ClaimTransfer)
  | close (a : Accounts.Close)
  | updateBeneficiary (a : Accounts.UpdateBeneficiary)

def process (s : State) : Instruction → Except Error State
  | .openPool a emission startTime claimType closeable =>
    openPool s a emission startTime claimType closeable
  | .claimFee a => claimFee s a
  | .claimTransfer a => claimTransfer s a
  | .close a => close s a
  | .updateBeneficiary a => updateBeneficiary s a

/-- Who signs an instruction. -/
def Instruction.authority : Instruction → Pubkey
  | .openPool a _ _ _ _ => a.authority
  | .claimFee a => a.authority
  | .claimTransfer a => a.authority
  | .close a => a.authority
  | .updateBeneficiary a => a.authority

/-- The vaults of pools, which only this program can sign for. -/
def isVault : Pubkey → Bool
  | .poolsVault _ => true
  | _ => false

/-- One thing that happens on the chain: an instruction of this program, the clock moving
on, or any activity of others in the token program and the rewards program. -/
inductive Action
  | instruction (ix : Instruction)
  | tick (now : Int)
  | external (rewards : Rewards.State)

/-- Nobody signs for a vault, and the supply of every mint fits in `u64`. -/
def step (s : State) : Action → Except Error State
  | .instruction ix => do
    require (isVault ix.authority = false) .notAdmissible
    process s ix
  | .tick now => do
    require (s.clock ≤ now ∧ Signed 64 now) .notAdmissible
    return { s with clock := now }
  | .external rewards => do
    require (Tokens.External isVault supplyCap s.tokens rewards.tokens ∧ rewards.tokens.Minted)
      .notAdmissible
    return { s with rewards := rewards }

/-- The chain before the program is used. -/
structure Genesis (s : State) : Prop where
  pools : s.pools = ∅
  vaults : ∀ key, isVault key = true → s.tokens.lookup key = none
  minted : s.tokens.Minted
  clock : Signed 64 s.clock

abbrev Event := Machine.Event State Action

def run (s : State) (actions : List Action) : State := Machine.run step s actions

def trace (s : State) (actions : List Action) : List Event := Machine.trace step s actions

def reached (s : State) (actions : List Action) : List State := Machine.reached step s actions

/-! A small chain to run the program on: one pool that emits a hundred tokens a second, from
the start of time on. -/
namespace Sample

open Rewards.Sample (wallet staker payer)

def pool : Pubkey := .address 3
def vault : Pubkey := .poolsVault pool

def start : State where
  pools := ∅
  rewards := Rewards.Sample.run [Rewards.Sample.init]
  clock := 0

theorem genesis : Genesis start where
  pools := rfl
  vaults := by
    intro key vault
    cases key <;> first | contradiction | rfl
  minted := by decide +kernel
  clock := by decide

def beneficiary : ClaimType → Pubkey
  | .addFee => Rewards.Sample.vault
  | _ => wallet staker

/-- `open` -/
def openPool (claimType : ClaimType) : Action :=
  .instruction (.openPool ⟨pool, vault, beneficiary claimType, payer, id.nosToken⟩ 100 0
    claimType.toU8 false)

def opened (claimType : ClaimType) : State := run start [openPool claimType]

/-- The payer puts tokens into the vault. -/
def fund (amount : Nat) : Action :=
  .external { start.rewards with
    tokens := (start.tokens.insert vault (.holding id.nosToken vault amount)).insert
      (wallet payer) (.holding id.nosToken payer (1000 - amount)) }

def claimFee : Action :=
  .instruction (.claimFee ⟨vault, .rewardsReflection, Rewards.Sample.vault, pool, payer⟩)

def claimTransfer : Action :=
  .instruction (.claimTransfer ⟨vault, wallet staker, pool, payer⟩)

end Sample

end Nosana.Pools
