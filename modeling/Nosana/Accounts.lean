import Nosana.Checked

set_option autoImplicit false

/- Addresses, constants and errors that the programs share. -/
namespace Nosana

/-- An account address. A program derived address is kept as the seeds it is
derived from, so two of them are equal only when program and seeds agree, and
none of them is the address of a key pair. -/
inductive Pubkey
  | address (bytes : Nat)
  | associatedToken (wallet mint : Pubkey)
  | jobsVault (market mint : Pubkey)
  | jobsSettings (market : Pubkey)
  | rewardsReflection
  | rewardsVault (mint : Pubkey)
  | rewardsReward (authority : Pubkey)
  | stakingSettings
  | stakingVault (mint authority : Pubkey)
  | stakingStake (mint authority : Pubkey)
  | poolsVault (pool : Pubkey)
  | nodesNode (authority : Pubkey)
  | metaplexMetadata (mint : Pubkey)
  deriving DecidableEq, Repr

/-- A derived address, for which only the program it is derived from can sign. -/
def Pubkey.derived : Pubkey → Bool
  | .address _ => false
  | _ => true

/-- The 32 bytes of an IPFS hash. -/
abbrev IpfsHash := Vector UInt8 32

namespace id

/-- 11111111111111111111111111111111 -/
def systemProgram : Pubkey := .address 0

/-- nosRB8DUV67oLNrL45bo2pFLrmsWPiewe2Lk2DRNYCp -/
def rewardsProgram : Pubkey :=
  .address 0xbbc21b36f43ea2b9caff4f56844bffab66a8a5228379b2987bd26097cb92711

/-- nosXBVoaCTtYdLvKY6Csb4AC8JCdQKKAaWYtx2ZMoo7 -/
def nosToken : Pubkey :=
  .address 0xbbc2237be475350afd98bec57968da2d8ae7f4773f97f674c94a72e02a5f5ea

/-- NosanarMxfrZbyCx5CotBVrzxiPcrnhj6ickpX9vRkB -/
def authority : Pubkey :=
  .address 0x596320977b847b143c257d19a7fedffbb71b06ab88604023ed7ce5e339e1af0

/-- AdmMVMMU3po5BP3bVWsF9GgN6NNEfpfxpTDGTzjgb72S -/
def marketAdmin : Pubkey :=
  .address 0x8f243de9da25056fe0ee282764c152381f2832018e565db99d91c5ca9a849e6b

/-- A9V8JkR5HihvFpHq1ZbwrpPAGBhsGfeWw5TVcUdGf2dg -/
def tokenAccount : Pubkey :=
  .address 0x87e5a18551df766ee4e5097f79beed0d2fbb395c29fb46f6991da33b95152e13

end id

namespace constants

def nosDecimals : Nat := 1000000

/-- Total supply of the token, in base units. -/
def nosTotalSupply : Nat := 100000000 * nosDecimals

def closedAccountDiscriminator : List UInt8 := List.replicate 8 255

end constants

namespace pda

def nosanaRewards (authority : Pubkey) : Pubkey := .rewardsReward authority

def nosanaStaking (authority : Pubkey) : Pubkey := .stakingStake id.nosToken authority

def metaplexMetadata (mint : Pubkey) : Pubkey := .metaplexMetadata mint

/-- `get_associated_token_address` -/
def associatedToken (wallet mint : Pubkey) : Pubkey := .associatedToken wallet mint

end pda

inductive NosanaError
  | unauthorized
  | invalidOwner
  | lamportsNonNull
  | missingSignature
  | invalidAccount
  | invalidTokenAccount
  | invalidMint
  | invalidVault
  | invalidPayer
  | vaultEmpty
  | vaultNotEmpty
  | invalidATA
  deriving DecidableEq, Repr

inductive NosanaJobsError
  | invalidMarketAccount
  | marketInWrongState
  | notInMarketQueue
  | marketSettingsMissing
  | invalidJobAccount
  | jobInWrongState
  | jobNotExpired
  | jobResultNull
  | jobInvalidProject
  | jobTimeoutNotGreater
  | jobInvalidRunAccount
  | jobResultsAlreadySet
  | nodeQueueDoesNotMatch
  | nodeStakeUnauthorized
  | nodeNotEnoughStake
  | nodeAlreadyQueued
  | nodeNftWrongMetadata
  | nodeNftWrongOwner
  | nodeNftInvalidAmount
  | nodeKeyInvalidCollection
  | accessKeyMissing
  | accessNftWrongOwner
  | accessNftInvalidAmount
  | accessKeyInvalidCollection
  deriving DecidableEq, Repr

inductive NosanaStakingError
  | amountNotEnough
  | alreadyInitialized
  | alreadyClaimed
  | alreadyStaked
  | alreadyUnstaked
  | notUnstaked
  | locked
  | durationTooShort
  | durationTooLong
  | doesNotExist
  | decreased
  | hasReward
  | invalidStakeAccount
  deriving DecidableEq, Repr

inductive NosanaPoolsError
  | notStarted
  | underfunded
  | notCloseable
  | wrongClaimType
  | wrongBeneficiary
  deriving DecidableEq, Repr

inductive NosanaNodesError
  | architectureUnknown
  | countryCodeUnknown
  | cpuInvalid
  | gpuInvalid
  | memoryInvalid
  | iopsInvalid
  | storageInvalid
  deriving DecidableEq, Repr

/-- The failures of the account framework that the programs rely on. -/
inductive AnchorError
  | accountNotInitialized
  | accountDidNotSerialize
  | accountDidNotDeserialize
  | constraintSeeds
  | constraintAddress
  | constraintTokenMint
  | constraintTokenOwner
  | constraintDuplicateMutableAccount
  deriving DecidableEq, Repr

/-- The failures of the token program's transfer. -/
inductive TokenError
  | uninitializedAccount
  | accountFrozen
  | insufficientFunds
  | mintMismatch
  | ownerMismatch
  | missingSignature
  | overflow
  deriving DecidableEq, Repr

inductive Error
  | nosana (error : NosanaError)
  | jobs (error : NosanaJobsError)
  | staking (error : NosanaStakingError)
  | pools (error : NosanaPoolsError)
  | nodes (error : NosanaNodesError)
  | anchor (error : AnchorError)
  | token (error : TokenError)
  /-- The system program refuses to create an account at a used address. -/
  | accountAlreadyInUse
  /-- The clock sysvar does not run backwards, and nobody but its program moves
  the tokens of a vault. -/
  | notAdmissible
  | panic (fault : Checked.Fault)
  deriving DecidableEq, Repr

instance : Checked.HasFault Error := ⟨.panic⟩

@[simp] theorem fault_eq_panic (fault : Checked.Fault) :
    (Checked.HasFault.fault fault : Error) = .panic fault := rfl

/-- An account another program owns, as an instruction reads it. -/
structure AccountInfo where
  key : Pubkey
  owner : Pubkey
  lamports : Nat
  data : List UInt8
  deriving DecidableEq, Repr

/-- `account_is_closed`; the slice of the first eight bytes panics on shorter data. -/
def accountIsClosed (account : AccountInfo) : Except Error Bool :=
  if account.owner = id.systemProgram then .ok true
  else if 8 ≤ account.data.length then
    .ok (account.data.take 8 == constants.closedAccountDiscriminator)
  else .error (.panic .indexOutOfBounds)

end Nosana
