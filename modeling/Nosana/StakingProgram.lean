import Nosana.Machine
import Nosana.StakingState
import Nosana.Token

set_option autoImplicit false

/- The instructions of the staking program, and the program as a machine. -/
namespace Nosana.Staking

open Checked

/-- The accounts the program owns, with the token accounts and the clock. The settings are
at an address derived from a constant. -/
structure State where
  settings : Option SettingsAccount
  stakes : Finmap fun _ : Pubkey => StakeAccount
  tokens : Tokens
  clock : Int

namespace State

/-- An address the system program can still create an account at. -/
def Vacant (s : State) (key : Pubkey) : Prop :=
  ¬ (key = .stakingSettings ∧ s.settings.isSome = true) ∧ key ∉ s.stakes ∧ key ∉ s.tokens

instance (s : State) (key : Pubkey) : Decidable (s.Vacant key) :=
  inferInstanceAs (Decidable (_ ∧ _))

def loadSettings (s : State) (key : Pubkey) : Except Error SettingsAccount := do
  let settings ← get s.settings (.anchor .accountNotInitialized)
  require (key = .stakingSettings) (.anchor .constraintSeeds)
  return settings

def loadStake (s : State) (key : Pubkey) : Except Error StakeAccount :=
  get (s.stakes.lookup key) (.anchor .accountNotInitialized)

end State

namespace Accounts

structure Init where
  settings : Pubkey
  authority : Pubkey

structure Stake where
  mint : Pubkey
  user : Pubkey
  vault : Pubkey
  stake : Pubkey
  authority : Pubkey

structure Unstake where
  stake : Pubkey
  reward : AccountInfo
  authority : Pubkey

structure Restake where
  vault : Pubkey
  stake : Pubkey
  authority : Pubkey

structure Topup where
  user : Pubkey
  vault : Pubkey
  stake : Pubkey
  authority : Pubkey

structure Extend where
  stake : Pubkey
  authority : Pubkey

structure Close where
  user : Pubkey
  stake : Pubkey
  vault : Pubkey
  authority : Pubkey

structure Withdraw where
  user : Pubkey
  vault : Pubkey
  stake : Pubkey
  authority : Pubkey

structure Slash where
  vault : Pubkey
  stake : Pubkey
  tokenAccount : Pubkey
  settings : Pubkey
  authority : Pubkey

structure UpdateSettings where
  newAuthority : Pubkey
  tokenAccount : Pubkey
  settings : Pubkey
  authority : Pubkey

end Accounts

/-- A vault signs with the seeds of its mint and of the authority of its stake. -/
def transferFromVault (tokens : Tokens) (stake : StakeAccount) (vault destination : Pubkey)
    (amount : Nat) : Except Error Tokens := do
  let account ← tokens.load vault
  require (vault = .stakingVault account.mint stake.authority) (.token .missingSignature)
  tokens.transfer vault destination vault amount

def init (s : State) (a : Accounts.Init) : Except Error State := do
  require (a.settings = .stakingSettings) (.anchor .constraintSeeds)
  require (s.Vacant a.settings) .accountAlreadyInUse
  return { s with settings := some ⟨id.authority, id.tokenAccount⟩ }

/-- The duration is given as `u128` and kept as `u64`. -/
def stake (s : State) (a : Accounts.Stake) (amount duration : Nat) : Except Error State := do
  require (a.mint = id.nosToken) (.nosana .invalidMint)
  let _ ← s.tokens.load a.user
  require (a.vault = .stakingVault a.mint a.authority) (.anchor .constraintSeeds)
  require (s.Vacant a.vault) .accountAlreadyInUse
  require (a.stake = .stakingStake a.mint a.authority) (.anchor .constraintSeeds)
  require (s.Vacant a.stake) .accountAlreadyInUse
  require (StakeAccount.durationMin ≤ duration) (.staking .durationTooShort)
  require (duration ≤ StakeAccount.durationMax) (.staking .durationTooLong)
  require (StakeAccount.stakeMinimum ≤ amount) (.staking .amountNotEnough)
  let kept ← narrow 64 duration
  let created ← StakeAccount.zeroed.init amount a.authority kept a.vault
  let opened : Tokens := s.tokens.insert a.vault (.holding a.mint a.vault 0)
  let tokens ← opened.transfer a.user a.vault a.authority amount
  return { s with stakes := s.stakes.insert a.stake created, tokens := tokens }

/-- A stake can only be unstaked when no reward account of its authority is open. -/
def unstake (s : State) (a : Accounts.Unstake) : Except Error State := do
  let stake ← s.loadStake a.stake
  require (stake.authority = a.authority) (.nosana .unauthorized)
  require (stake.timeUnstake = 0) (.staking .alreadyUnstaked)
  require (a.reward.key = pda.nosanaRewards a.authority) (.nosana .invalidAccount)
  let closed ← accountIsClosed a.reward
  require (closed = true) (.staking .hasReward)
  let unstaked ← stake.unstake s.clock
  return { s with stakes := s.stakes.insert a.stake unstaked }

def restake (s : State) (a : Accounts.Restake) : Except Error State := do
  let vault ← s.tokens.load a.vault
  let stake ← s.loadStake a.stake
  require (StakeAccount.stakeMinimum ≤ vault.amount) (.staking .amountNotEnough)
  require (stake.vault = a.vault) (.nosana .invalidVault)
  require (stake.authority = a.authority) (.nosana .unauthorized)
  require (stake.timeUnstake ≠ 0) (.staking .alreadyStaked)
  let restaked ← stake.restake vault.amount
  return { s with stakes := s.stakes.insert a.stake restaked }

def topup (s : State) (a : Accounts.Topup) (amount : Nat) : Except Error State := do
  let _ ← s.tokens.load a.user
  let _ ← s.tokens.load a.vault
  let stake ← s.loadStake a.stake
  require (stake.vault = a.vault) (.nosana .invalidVault)
  require (stake.authority = a.authority) (.nosana .unauthorized)
  require (stake.timeUnstake = 0) (.staking .alreadyUnstaked)
  require (a.user ≠ a.vault) (.anchor .constraintDuplicateMutableAccount)
  require (0 < amount) (.staking .amountNotEnough)
  let raised ← stake.topup amount
  let tokens ← s.tokens.transfer a.user a.vault a.authority amount
  return { s with stakes := s.stakes.insert a.stake raised, tokens := tokens }

def extend (s : State) (a : Accounts.Extend) (duration : Nat) : Except Error State := do
  let stake ← s.loadStake a.stake
  require (stake.authority = a.authority) (.nosana .unauthorized)
  require (stake.timeUnstake = 0) (.staking .alreadyUnstaked)
  require (0 < duration) (.staking .durationTooShort)
  let total ← add 64 stake.duration duration
  require (total ≤ StakeAccount.durationMax) (.staking .durationTooLong)
  let extended ← stake.extend duration
  return { s with stakes := s.stakes.insert a.stake extended }

/-- An emptied vault is closed with its stake once the duration has passed. -/
def close (s : State) (a : Accounts.Close) : Except Error State := do
  let _ ← s.tokens.load a.user
  let stake ← s.loadStake a.stake
  let vault ← s.tokens.load a.vault
  require (stake.vault = a.vault) (.nosana .invalidVault)
  require (stake.authority = a.authority) (.nosana .unauthorized)
  require (stake.timeUnstake ≠ 0) (.staking .notUnstaked)
  let duration ← toSigned 64 stake.duration
  let unlocked ← addSigned 64 stake.timeUnstake duration
  require (unlocked < s.clock) (.staking .locked)
  require (vault.amount = 0) (.nosana .vaultNotEmpty)
  require (a.user ≠ a.vault) (.anchor .constraintDuplicateMutableAccount)
  require (a.vault = .stakingVault vault.mint stake.authority) (.token .missingSignature)
  return { s with stakes := s.stakes.erase a.stake, tokens := s.tokens.erase a.vault }

def withdrawConstraints (s : State) (a : Accounts.Withdraw) :
    Except Error (TokenAccount × StakeAccount) := do
  let _ ← s.tokens.load a.user
  let vault ← s.tokens.load a.vault
  let stake ← s.loadStake a.stake
  require (vault.amount ≠ 0) (.nosana .vaultEmpty)
  require (stake.vault = a.vault) (.nosana .invalidVault)
  require (stake.authority = a.authority) (.nosana .unauthorized)
  require (stake.timeUnstake ≠ 0) (.staking .notUnstaked)
  require (a.user ≠ a.vault) (.anchor .constraintDuplicateMutableAccount)
  return (vault, stake)

/-- Pay what has been released since the stake was unstaked. -/
def withdraw (s : State) (a : Accounts.Withdraw) : Except Error State := do
  let (vault, stake) ← withdrawConstraints s a
  let amount ← stake.withdraw vault.amount s.clock
  if 0 < amount then do
    let tokens ← transferFromVault s.tokens stake a.vault a.user amount
    return { s with tokens := tokens }
  else
    return s

def slash (s : State) (a : Accounts.Slash) (amount : Nat) : Except Error State := do
  let _ ← s.tokens.load a.vault
  let stake ← s.loadStake a.stake
  let _ ← s.tokens.load a.tokenAccount
  let settings ← s.loadSettings a.settings
  require (stake.vault = a.vault) (.nosana .invalidVault)
  require (a.tokenAccount = settings.tokenAccount) (.nosana .invalidTokenAccount)
  require (settings.authority = a.authority) (.nosana .unauthorized)
  require (a.vault ≠ a.tokenAccount) (.anchor .constraintDuplicateMutableAccount)
  require (amount ≤ stake.amount) (.staking .amountNotEnough)
  let slashed ← stake.slash amount
  let tokens ← transferFromVault s.tokens slashed a.vault a.tokenAccount amount
  return { s with stakes := s.stakes.insert a.stake slashed, tokens := tokens }

def updateSettings (s : State) (a : Accounts.UpdateSettings) : Except Error State := do
  let tokenAccount ← s.tokens.load a.tokenAccount
  let settings ← s.loadSettings a.settings
  require (tokenAccount.mint = id.nosToken) (.anchor .constraintTokenMint)
  require (settings.authority = a.authority) (.nosana .unauthorized)
  return { s with settings := some ⟨a.newAuthority, a.tokenAccount⟩ }

inductive Instruction
  | init (a : Accounts.Init)
  | stake (a : Accounts.Stake) (amount duration : Nat)
  | unstake (a : Accounts.Unstake)
  | restake (a : Accounts.Restake)
  | topup (a : Accounts.Topup) (amount : Nat)
  | extend (a : Accounts.Extend) (duration : Nat)
  | close (a : Accounts.Close)
  | withdraw (a : Accounts.Withdraw)
  | slash (a : Accounts.Slash) (amount : Nat)
  | updateSettings (a : Accounts.UpdateSettings)

def process (s : State) : Instruction → Except Error State
  | .init a => init s a
  | .stake a amount duration => stake s a amount duration
  | .unstake a => unstake s a
  | .restake a => restake s a
  | .topup a amount => topup s a amount
  | .extend a duration => extend s a duration
  | .close a => close s a
  | .withdraw a => withdraw s a
  | .slash a amount => slash s a amount
  | .updateSettings a => updateSettings s a

/-- Who signs an instruction. -/
def Instruction.authority : Instruction → Pubkey
  | .init a => a.authority
  | .stake a _ _ => a.authority
  | .unstake a => a.authority
  | .restake a => a.authority
  | .topup a _ => a.authority
  | .extend a _ => a.authority
  | .close a => a.authority
  | .withdraw a => a.authority
  | .slash a _ => a.authority
  | .updateSettings a => a.authority

/-- The vaults of stakes, which only this program can sign for. -/
def isVault : Pubkey → Bool
  | .stakingVault _ _ => true
  | _ => false

/-- One thing that happens on the chain: an instruction of this program, the clock moving
on, or any activity of others in the token program. -/
inductive Action
  | instruction (ix : Instruction)
  | tick (now : Int)
  | external (tokens : Tokens)

/-- Nobody signs for a vault, and no more tokens exist than the total supply. -/
def step (s : State) : Action → Except Error State
  | .instruction ix => do
    require (isVault ix.authority = false) .notAdmissible
    process s ix
  | .tick now => do
    require (s.clock ≤ now ∧ Signed 64 now) .notAdmissible
    return { s with clock := now }
  | .external tokens => do
    require (Tokens.External isVault constants.nosTotalSupply s.tokens tokens) .notAdmissible
    return { s with tokens := tokens }

/-- The chain before the program is used. -/
structure Genesis (s : State) : Prop where
  settings : s.settings = none
  stakes : s.stakes = ∅
  vaults : ∀ key, isVault key = true → s.tokens.lookup key = none
  tokens : s.tokens.WellFormed constants.nosTotalSupply
  clock : 0 < s.clock ∧ Signed 64 s.clock

abbrev Event := Machine.Event State Action

def run (s : State) (actions : List Action) : State := Machine.run step s actions

def trace (s : State) (actions : List Action) : List Event := Machine.trace step s actions

def reached (s : State) (actions : List Action) : List State := Machine.reached step s actions

/-! A small chain to run the program on: one staker, and somebody who sends tokens. -/
namespace Sample

def staker : Pubkey := .address 1
def vault : Pubkey := .stakingVault id.nosToken staker
def account : Pubkey := .stakingStake id.nosToken staker
def wallet (owner : Pubkey) : Pubkey := pda.associatedToken owner id.nosToken

def funds (owned staked : Nat) : Tokens :=
  ((∅ : Tokens).insert (wallet staker) (.holding id.nosToken staker owned)).insert vault
    (.holding id.nosToken vault staked)

def start : State where
  settings := none
  stakes := ∅
  tokens := (∅ : Tokens).insert (wallet staker) (.holding id.nosToken staker 1000)
  clock := 100

theorem genesis : Genesis start where
  settings := rfl
  stakes := rfl
  vaults := by
    intro key vault
    cases key <;> first | contradiction | rfl
  tokens := by decide +kernel
  clock := by decide

def run (actions : List Action) : State := Staking.run start actions

def trace (actions : List Action) : List Event := Staking.trace start actions

def reached (actions : List Action) : List State := Staking.reached start actions

def stake (amount duration : Nat) : Action :=
  .instruction (.stake ⟨id.nosToken, wallet staker, vault, account, staker⟩ amount duration)

def unstake : Action :=
  .instruction (.unstake ⟨account, ⟨pda.nosanaRewards staker, id.systemProgram, 0, []⟩, staker⟩)

def withdraw : Action := .instruction (.withdraw ⟨wallet staker, vault, account, staker⟩)

/-- A stake is made, unstaked, and half of it is withdrawn after half of its duration. -/
def halfway : List Action :=
  [stake 600 StakeAccount.durationMin, unstake, .tick (100 + 7 * 24 * 60 * 60), withdraw]

end Sample

end Nosana.Staking
